import Verdicts.Judgement.Convertible
import Verdicts.Manifest.Naming
import Verdicts.Proofs.Transition
import Verdicts.Proofs.Types.Lookup

/-!
# Operations that only intern

Asking a question about types may store arrays and constructed types, and
nothing else.  A table that grows in this way keeps every stored shape, every
name, every built-in type and every conversion.
-/

namespace Verdicts

/-- Whether a shape is built from other types alone. -/
def Shape.isStructural : Shape → Bool
  | .array _ | .constructed _ _ => true
  | _ => false

namespace Table

variable {t u v : Table} {h : Handle} {s : Shape}

/-- The second table is the first one with some arrays and constructed types
more. -/
structure GrowsTo (t u : Table) : Prop where
  shape : ∀ {h}, t.knows h = true → u.shape? h = t.shape? h
  structural : ∀ {h s}, t.knows h = false →
    u.shape? h = some s → s.isStructural = true
  conversions : u.conversions = t.conversions

theorem GrowsTo.refl (t : Table) : t.GrowsTo t where
  shape _ := rfl
  structural hk hs := by
    rw [knows_of_shape? hs] at hk
    cases hk
  conversions := rfl

theorem GrowsTo.knows (g : t.GrowsTo u) (hk : t.knows h = true) :
    u.knows h = true := by
  obtain ⟨s, hs⟩ := exists_shape?_of_knows hk
  exact knows_of_shape? ((g.shape hk).trans hs)

theorem GrowsTo.shape?_of_some (g : t.GrowsTo u) (hs : t.shape? h = some s) :
    u.shape? h = some s :=
  (g.shape (knows_of_shape? hs)).trans hs

theorem GrowsTo.trans (g : t.GrowsTo u) (g' : u.GrowsTo v) : t.GrowsTo v where
  shape hk := (g'.shape (g.knows hk)).trans (g.shape hk)
  structural {h s} hk hs := by
    cases hu : u.knows h with
    | false => exact g'.structural hu hs
    | true => exact g.structural hk ((g'.shape hu).symm.trans hs)
  conversions := g'.conversions.trans g.conversions

theorem GrowsTo.push (t : Table) (hs : s.isStructural = true) :
    t.GrowsTo (t.push s) where
  shape hk := shape?_push_of_knows s hk
  structural {h s'} hk hs' := by
    rw [shape?_push] at hs'
    split at hs'
    · rwa [← Option.some.inj hs']
    · rw [knows_of_shape? hs'] at hk
      cases hk
  conversions := rfl

/-- A search for shapes of other sorts does not see that a table has grown. -/
theorem GrowsTo.newest?_eq (g : t.GrowsTo u) {p : Shape → Bool}
    (hp : ∀ s, s.isStructural = true → p s = false) :
    u.newest? p = t.newest? p := by
  have hold : ∀ {k s}, u.shape? k = some s → p s = true →
      t.shape? k = some s := by
    intro k s hs hps
    cases hk : t.knows k with
    | true => exact (g.shape hk).symm.trans hs
    | false =>
        rw [hp s (g.structural hk hs)] at hps
        cases hps
  cases hh : t.newest? p with
  | none =>
      rw [newest?_eq_none_iff] at hh ⊢
      intro k s hs
      cases hps : p s with
      | false => rfl
      | true => rw [hh k s (hold hs hps)] at hps; cases hps
  | some h =>
      rw [newest?_eq_some_iff] at hh ⊢
      obtain ⟨⟨s, hs, hps⟩, hnewer⟩ := hh
      refine ⟨⟨s, g.shape?_of_some hs, hps⟩, ?_⟩
      intro k s' hlt hs'
      cases hps' : p s' with
      | false => rfl
      | true => rw [hnewer k s' hlt (hold hs' hps')] at hps'; cases hps'

theorem GrowsTo.named?_eq (g : t.GrowsTo u) (name : String) :
    u.named? name = t.named? name := by
  apply g.newest?_eq
  intro s hs
  cases s <;> simp_all [Shape.isStructural]

theorem GrowsTo.builtIn?_eq (g : t.GrowsTo u) (b : BuiltIn) :
    u.builtIn? b = t.builtIn? b := by
  apply g.newest?_eq
  intro s hs
  cases s <;> simp_all [Shape.isStructural]

theorem GrowsTo.conversion?_eq (g : t.GrowsTo u) (a b : Handle) :
    u.conversion? a b = t.conversion? a b := by
  rw [conversion?, conversion?, g.conversions]

/-- Growing defines no types. -/
theorem GrowsTo.definition?_eq (g : t.GrowsTo u) (h : Handle) :
    u.definition? h = t.definition? h := by
  cases hk : t.knows h with
  | true => rw [definition?, definition?, g.shape hk]
  | false =>
      have hnone : t.definition? h = none := by
        rw [definition?, knows_eq_false_iff.mp hk]
      rw [hnone, Option.eq_none_iff_forall_not_mem]
      intro d hd
      have hs : u.shape? h = some (.named d) := definition?_eq_some_iff.mp hd
      exact Bool.false_ne_true (g.structural hk hs)

theorem GrowsTo.tag?_eq (g : t.GrowsTo u) (h : Handle) :
    u.tag? h = t.tag? h := by
  rw [tag?, tag?, g.definition?_eq]

end Table

/-! ## Blocks that only intern -/

/-- States that hold a table of types. -/
class HoldsTable (σ : Type) where
  /-- The table of a state. -/
  table : σ → Table

export HoldsTable (table)

instance : HoldsTable Table := ⟨id⟩
instance : HoldsTable Program := ⟨Program.table⟩
instance : HoldsTable Inquiry := ⟨fun q => q.program.table⟩

section

variable {σ α β γ ε : Type} [HoldsTable σ]

/-- The transition stores no types but arrays and constructed types. -/
def Interns (m : StateM σ α) : Prop :=
  ∀ s, (table s).GrowsTo (table (m s).2)

/-- The table of the second state is the one of the first state with some arrays
and constructed types more. -/
def Grows (s s' : σ) : Prop :=
  (table s).GrowsTo (table s')

instance : IsPreorder σ Grows where
  refl s := .refl (table s)
  trans _ _ _ := Table.GrowsTo.trans

namespace Interns

theorem of_pure (a : α) : Interns (pure a : StateM σ α) :=
  Leads.of_pure (R := Grows) a

theorem of_get : Interns (get : StateM σ σ) :=
  fun s => .refl (table s)

theorem bind {m : StateM σ α} {f : α → StateM σ β}
    (hm : Interns m) (hf : ∀ a, Interns (f a)) : Interns (m >>= f) :=
  Leads.bind (R := Grows) hm hf

theorem get_bind {f : σ → StateM σ β} (hf : ∀ s, Interns (f s)) :
    Interns (get >>= f) :=
  Leads.get_bind (R := Grows) hf

theorem map {m : StateM σ α} (hm : Interns m) (f : α → β) :
    Interns (f <$> m) :=
  Leads.map (R := Grows) hm f

theorem ite {c : Prop} [Decidable c] {m n : StateM σ α}
    (hm : Interns m) (hn : Interns n) : Interns (if c then m else n) :=
  Leads.ite (R := Grows) hm hn

theorem mapM {f : α → StateM σ β} (hf : ∀ a, Interns (f a)) (l : List α) :
    Interns (l.mapM f) :=
  Leads.mapM (R := Grows) hf l

theorem anyM {p : α → StateM σ Bool} (hp : ∀ a, Interns (p a)) (l : List α) :
    Interns (l.anyM p) :=
  Leads.anyM (R := Grows) hp l

theorem allM {p : α → StateM σ Bool} (hp : ∀ a, Interns (p a)) (l : List α) :
    Interns (l.allM p) :=
  Leads.allM (R := Grows) hp l

theorem findSomeM? {f : α → StateM σ (Option β)} (hf : ∀ a, Interns (f a))
    (l : List α) : Interns (l.findSomeM? f) :=
  Leads.findSomeM? (R := Grows) hf l

theorem filterAuxM {p : α → StateM σ Bool} (hp : ∀ a, Interns (p a))
    (l acc : List α) : Interns (l.filterAuxM p acc) :=
  Leads.filterAuxM (R := Grows) hp l acc

theorem filterMapM {f : α → StateM σ (Option β)} (hf : ∀ a, Interns (f a))
    (l : List α) : Interns (l.filterMapM f) :=
  Leads.filterMapM (R := Grows) hf l

theorem of_except_pure (a : α) :
    Interns (pure a : ExceptT ε (StateM σ) α).run :=
  fun s => .refl (table s)

theorem of_throw (e : ε) :
    Interns (throw e : ExceptT ε (StateM σ) α).run :=
  fun s => .refl (table s)

theorem lift {m : StateM σ α} (hm : Interns m) :
    Interns (monadLift m : ExceptT ε (StateM σ) α).run :=
  fun s => hm s

theorem bind_except {m : ExceptT ε (StateM σ) α}
    {f : α → ExceptT ε (StateM σ) β}
    (hm : Interns m.run) (hf : ∀ a, Interns (f a).run) :
    Interns (m >>= f).run := by
  intro s
  have hs := hm s
  change (table s).GrowsTo (table ((m >>= f) s).2)
  rw [bind_apply_except]
  rcases hr : m s with ⟨e | a, s'⟩
  · rwa [show m.run s = _ from hr] at hs
  · rw [show m.run s = _ from hr] at hs
    exact hs.trans (hf a s')

end Interns

end

namespace Table

variable {σ : Substitution} {levels : Nat}

theorem interns_arrayOf (element : Handle) : Interns (arrayOf element) := by
  apply Interns.get_bind
  intro t
  split
  · exact .of_pure _
  · intro t
    exact .push t rfl

theorem interns_construct (definition : Handle) (arguments : List Handle) :
    Interns (construct definition arguments) := by
  apply Interns.get_bind
  intro t
  split
  · exact .of_pure _
  · split
    · exact .of_pure _
    · intro t
      exact .push t rfl

theorem interns_nullableOf (underlying : Handle) :
    Interns (nullableOf underlying) := by
  apply Interns.get_bind
  intro t
  split
  · exact (interns_construct _ _).map some
  · exact .of_pure _

theorem interns_substituteWithin (σ : Substitution) (levels : Nat)
    (h : Handle) : Interns (substituteWithin σ levels h) := by
  induction levels generalizing h with
  | zero => exact .of_pure h
  | succ levels ih =>
      rw [substituteWithin]
      split
      · exact .of_pure _
      · apply Interns.get_bind
        intro t
        split
        · exact (ih _).bind interns_arrayOf
        · exact (Interns.mapM ih _).bind (interns_construct _)
        · exact .of_pure h

theorem interns_substitute (σ : Substitution) (h : Handle) :
    Interns (substitute σ h) := by
  apply Interns.ite
  · exact .of_pure h
  · exact interns_substituteWithin σ _ h

theorem interns_supertypes (h : Handle) : Interns (supertypes h) := by
  apply Interns.get_bind
  intro t
  split
  · exact .of_pure _
  · split
    · exact .mapM (interns_substitute _) _
    · exact .of_pure _
  · exact .of_pure _

theorem interns_assignableWithin (levels : Nat) (source target : Handle) :
    Interns (assignableWithin levels source target) := by
  induction levels generalizing source target with
  | zero => exact Interns.get_bind fun t => .of_pure _
  | succ levels ih =>
      rw [assignableWithin]
      apply Interns.get_bind
      intro t
      refine .ite (.of_pure _) (.ite (.of_pure _) (.ite (.of_pure _) ?_))
      split
      · split
        · exact .of_pure _
        · exact .ite (.of_pure _) (.ite (ih _ _) (.of_pure _))
        · exact .of_pure _
      · exact .ite (.of_pure _) (.anyM (fun bound => ih bound target) _)
      · apply (interns_supertypes source).bind
        intro supers
        exact .anyM (fun super => .ite (.of_pure _) (ih super target)) supers
      · apply (interns_supertypes source).bind
        intro supers
        exact .anyM (fun super => .ite (.of_pure _) (ih super target)) supers
      · exact .of_pure _
      · exact .of_pure _

theorem interns_assignable (source target : Handle) :
    Interns (assignable source target) :=
  interns_assignableWithin _ source target

theorem interns_implicitConversion (source destination : Handle) :
    Interns (implicitConversion source destination) := by
  apply Interns.get_bind
  intro t
  refine .ite (.of_pure _) (.ite (.of_pure _) ?_)
  apply (interns_assignable source destination).bind
  intro fits
  exact .ite (.of_pure _) (.ite (.of_pure _) (.of_pure _))

theorem interns_unboxes (t : Table) (source destination : Handle) :
    Interns (t.unboxes source destination) :=
  .ite (interns_assignable _ source) (.of_pure false)

theorem interns_refers (t : Table) (source destination : Handle) :
    Interns (t.refers source destination) :=
  .ite ((interns_assignable destination source).map _) (.of_pure false)

theorem interns_explicitConversion (source destination : Handle) :
    Interns (explicitConversion source destination) := by
  apply Interns.get_bind
  intro t
  refine .ite (.of_pure _) (.ite (.of_pure _) ?_)
  apply (interns_unboxes t source destination).bind
  intro unboxes
  refine .ite (.of_pure _) (.ite (.of_pure _) ?_)
  apply (interns_refers t source destination).bind
  intro refers
  exact .ite (.of_pure _) (.ite (.of_pure _) (.of_pure _))

theorem interns_conversion (source destination : Handle) :
    Interns (conversion source destination) := by
  apply Interns.get_bind
  intro t
  refine .ite (.of_pure _) (.ite (.of_pure _) ?_)
  apply (interns_implicitConversion source destination).bind
  rintro (_ | c)
  · exact interns_explicitConversion source destination
  · exact .of_pure _

theorem interns_satisfies (h : Handle) (c : Constraints) :
    Interns (satisfies h c) := by
  apply Interns.get_bind
  intro t
  exact .ite (.of_pure _)
    (.ite (.of_pure _) (.allM (fun bound => interns_assignable h bound) _))

end Table

/-! ## Naming types -/

namespace TypeExpr

theorem interns_resolveAllIn {scope : Scope} {arguments : List TypeExpr}
    (h : ∀ e ∈ arguments, Interns (e.resolveIn scope).run) :
    Interns (resolveAllIn scope arguments).run := by
  induction arguments with
  | nil => exact .of_except_pure []
  | cons first rest ih =>
      rw [List.forall_mem_cons] at h
      exact h.1.bind_except fun a =>
        (ih h.2).bind_except fun as => .of_except_pure (a :: as)

theorem interns_resolveIn (scope : Scope) (e : TypeExpr) :
    Interns (e.resolveIn scope).run := by
  induction e using TypeExpr.induction with
  | array e ih =>
      exact ih.bind_except fun h => (Table.interns_arrayOf h).lift
  | nullable e ih =>
      apply ih.bind_except
      intro h
      apply (Table.interns_nullableOf h).lift.bind_except
      rintro (_ | h')
      · exact .of_throw _
      · exact .of_except_pure h'
  | plain name =>
      apply Interns.of_get.lift.bind_except
      intro t
      split
      · exact .of_except_pure _
      · exact .of_throw _
  | applied name first rest ih =>
      apply Interns.of_get.lift.bind_except
      intro t
      split
      · apply (ih first (List.mem_cons_self ..)).bind_except
        intro h
        have hrest := interns_resolveAllIn fun e he =>
          ih e (List.mem_cons_of_mem first he)
        apply hrest.bind_except
        intro hs
        exact (Table.interns_construct _ _).lift
      · exact .of_throw _

end TypeExpr

namespace Table

theorem interns_resolveTextIn (scope : Scope) (text : String) :
    Interns (resolveTextIn scope text).run := by
  unfold resolveTextIn
  split
  · exact TypeExpr.interns_resolveIn scope _
  · exact .of_throw _

theorem interns_resolveText (text : String) :
    Interns (resolveText text).run :=
  interns_resolveTextIn [] text

end Table

end Verdicts
