import Verdicts.Proofs.Correspondence.Naming
import Verdicts.Proofs.Naming.Names
import Verdicts.Proofs.Types.Persistence

/-!
# Whether an expression names a type

Which names find a type decides whether an expression names one; what the types
look like does not matter.  One block of work on a table follows another if it
succeeds wherever the other one does in a table in which the same names find a
type.
-/

namespace Verdicts

variable {α α' β β' : Type} {ρ : World} {t t' u u' : Table}

/-- The world in which everything stands for everything. -/
abbrev World.all : World := fun _ _ => True

theorem Table.FindsAlike.steady (f : t.FindsAlike ρ u) (q : t.Steady t')
    (q' : u.Steady u') : t'.FindsAlike ρ u' where
  named name := by
    rw [q.named, q'.named]
    exact f.named name
  builtIn b := by
    rw [q.builtIn, q'.builtIn]
    exact f.builtIn b

/-- What finds a type here finds one there. -/
theorem World.rel_all_iff {x y : Option Handle} :
    Option.Rel World.all x y ↔ x.isSome = y.isSome := by
  cases x with
  | none => cases y <;> simp
  | some a => cases y <;> simp

/-- Where the same names find a type, the second block succeeds if the first one
does, and the same names find a type afterwards. -/
def Follows (m : Naming α) (n : Naming α') : Prop :=
  ∀ ⦃t u a t'⦄, t.FindsAlike .all u → m t = (.ok a, t') →
    ∃ b u', n u = (.ok b, u') ∧ t'.FindsAlike .all u'

namespace Follows

theorem of_pure (a : α) (b : α') : Follows (pure a) (pure b) := by
  intro t u c t' f hm
  cases hm
  exact ⟨b, u, rfl, f⟩

theorem of_throw (e : NamingError) (n : Naming α') :
    Follows (throw e : Naming α) n := by
  intro t u c t' f hm
  cases hm

/-- Work that always succeeds and declares nothing follows any other such. -/
theorem lift {m : StateM Table α} {n : StateM Table α'}
    (hm : ∀ t : Table, t.Steady (m t).2) (hn : ∀ t : Table, t.Steady (n t).2) :
    Follows (liftM m) (liftM n) := by
  intro t u a t' f hrun
  have hrun := eq_of_liftM_apply_ok hrun
  have q := hm t
  rw [hrun] at q
  exact ⟨(n u).1, (n u).2, liftM_apply_except n u, f.steady q (hn u)⟩

theorem bind {m : Naming α} {n : Naming α'} {f : α → Naming β}
    {g : α' → Naming β'} (hmn : Follows m n) (hfg : ∀ a b, Follows (f a) (g b)) :
    Follows (m >>= f) (n >>= g) := by
  intro t u c t'' hf hrun
  obtain ⟨a, t', hm, hrest⟩ := bind_apply_eq_ok hrun
  obtain ⟨b, u', hn, hf'⟩ := hmn hf hm
  rw [bind_apply_ok hn]
  exact hfg a b hf' hrest

theorem get_bind {f g : Table → Naming β}
    (h : ∀ {t u}, t.FindsAlike .all u → Follows (f t) (g u)) :
    Follows (get >>= f) (get >>= g) := by
  intro t u c t' hf hrun
  have hget : ∀ s : Table, (get : Naming Table) s = (.ok s, s) := fun _ => rfl
  rw [bind_apply_ok (hget t)] at hrun
  rw [bind_apply_ok (hget u)]
  exact h hf hf hrun

theorem forM {γ : Type} {f g : γ → Naming Unit} (h : ∀ c, Follows (f c) (g c))
    (l : List γ) : Follows (l.forM f) (l.forM g) := by
  induction l with
  | nil => exact of_pure () ()
  | cons c l ih => exact (h c).bind fun _ _ => ih

end Follows

namespace TypeExpr

variable {scope scope' : Scope}

/-- The nullable type over a type, as an expression names it. -/
theorem nameNullable_apply (h : Handle) (t : Table) :
    (do
      match ← Table.nullableOf h with
      | some n => return n
      | none => throw (.unknownType "System.Nullable`1") : Naming Handle) t =
    match t.builtIn? .nullableT with
    | some d => ((.ok (Table.construct d [h] t).1), (Table.construct d [h] t).2)
    | none => (.error (.unknownType "System.Nullable`1"), t) := by
  rw [bind_apply_except, liftM_apply_except, Table.nullableOf, bind_apply, get_apply]
  cases t.builtIn? .nullableT with
  | some d => rfl
  | none => rfl

theorem follows_nameNullable (a b : Handle) :
    Follows (do
      match ← Table.nullableOf a with
      | some h => return h
      | none => throw (.unknownType "System.Nullable`1") : Naming Handle)
      (do
      match ← Table.nullableOf b with
      | some h => return h
      | none => throw (.unknownType "System.Nullable`1")) := by
  intro t u h t' f hrun
  rw [nameNullable_apply] at hrun ⊢
  obtain ⟨d, d', hd, hd', -⟩ | ⟨hd, hd'⟩ :=
    World.rel_cases (f.builtIn .nullableT)
  · rw [hd] at hrun
    rw [hd']
    cases hrun
    exact ⟨_, _, rfl, f.steady (Table.growsTo_construct d [a] t).steady
      (Table.growsTo_construct d' [b] u).steady⟩
  · rw [hd] at hrun
    cases hrun

theorem follows_resolveAllIn {es : List TypeExpr}
    (h : ∀ e ∈ es, Follows (e.resolveIn scope) (e.resolveIn scope')) :
    Follows (resolveAllIn scope es) (resolveAllIn scope' es) := by
  induction es with
  | nil => exact .of_pure [] []
  | cons e es ih =>
      rw [List.forall_mem_cons] at h
      rw [resolveAllIn, resolveAllIn]
      exact h.1.bind fun a b => (ih h.2).bind fun as bs => .of_pure _ _

/-- Whether an expression names a type depends on what the names in scope are,
and on which names find a type. -/
theorem follows_resolveIn (hs : ScopesMatch .all scope scope') (e : TypeExpr) :
    Follows (e.resolveIn scope) (e.resolveIn scope') := by
  induction e using TypeExpr.induction with
  | array e ih =>
      rw [resolveIn, resolveIn]
      exact ih.bind fun a b => .lift (fun t => (Table.growsTo_arrayOf a t).steady)
        fun t => (Table.growsTo_arrayOf b t).steady
  | nullable e ih =>
      rw [resolveIn, resolveIn]
      exact ih.bind follows_nameNullable
  | plain name =>
      rw [resolveIn, resolveIn]
      apply Follows.get_bind
      intro t u f
      obtain ⟨a, b, hn, hn', -⟩ | ⟨hn, hn'⟩ :=
        World.rel_cases (f.nameType? hs name)
      · simp only [hn, hn']
        exact .of_pure a b
      · simp only [hn]
        exact .of_throw _ _
  | applied name first rest ih =>
      rw [resolveIn, resolveIn]
      rw [List.forall_mem_cons] at ih
      apply Follows.get_bind
      intro t u f
      have hdefinition := f.genericDefinition name (first :: rest)
      revert hdefinition
      generalize genericDefinition t name (first :: rest) = x
      generalize genericDefinition u name (first :: rest) = y
      rintro (@⟨d, d', -⟩ | e)
      · refine ih.1.bind fun a b => (follows_resolveAllIn ih.2).bind fun as bs => ?_
        exact .lift (fun t => (Table.growsTo_construct d (a :: as) t).steady)
          fun t => (Table.growsTo_construct d' (b :: bs) t).steady
      · exact .of_throw _ _

end TypeExpr

theorem Table.follows_resolveTextIn {scope scope' : Scope}
    (hs : ScopesMatch .all scope scope') (text : String) :
    Follows (resolveTextIn scope text) (resolveTextIn scope' text) := by
  rw [resolveTextIn, resolveTextIn]
  split
  · exact TypeExpr.follows_resolveIn hs _
  · exact .of_throw _ _

end Verdicts
