import Mathlib.Data.List.Forall2
import Mathlib.Order.Defs.Unbundled
import Verdicts.Manifest.Naming

/-!
# State transitions as functions

The operations of the library are written with `do` in the state monad and, where
they may fail, in an error monad over it.  The lemmas of this module read such
a block as a function from states to an answer and the state afterwards.
-/

namespace Verdicts

variable {σ ε α β : Type}

/-! ## Transitions that answer -/

@[simp] theorem pure_apply (a : α) (s : σ) :
    (pure a : StateM σ α) s = (a, s) := rfl

@[simp] theorem bind_apply (x : StateM σ α) (f : α → StateM σ β) (s : σ) :
    (x >>= f) s = f (x s).1 (x s).2 := rfl

@[simp] theorem map_apply (x : StateM σ α) (f : α → β) (s : σ) :
    (f <$> x) s = (f (x s).1, (x s).2) := rfl

@[simp] theorem get_apply (s : σ) :
    (get : StateM σ σ) s = (s, s) := rfl

@[simp] theorem modify_apply (f : σ → σ) (s : σ) :
    (modify f : StateM σ PUnit) s = (⟨⟩, f s) := rfl

@[simp] theorem modifyGet_apply (f : σ → α × σ) (s : σ) :
    (modifyGet f : StateM σ α) s = f s := rfl

/-! ## What transitions do to the state -/

/-- The transition leads from every state to one in relation with it. -/
def Leads (R : σ → σ → Prop) (m : StateM σ α) : Prop :=
  ∀ s, R s (m s).2

namespace Leads

variable {R : σ → σ → Prop}

theorem get_bind {f : σ → StateM σ β} (hf : ∀ s, Leads R (f s)) :
    Leads R (get >>= f) :=
  fun s => hf s s

theorem map {m : StateM σ α} (hm : Leads R m) (f : α → β) :
    Leads R (f <$> m) :=
  fun s => hm s

theorem ite {c : Prop} [Decidable c] {m n : StateM σ α} (hm : Leads R m)
    (hn : Leads R n) : Leads R (if c then m else n) := by
  split
  · exact hm
  · exact hn

variable [IsPreorder σ R]

theorem of_pure (a : α) : Leads R (pure a) :=
  fun s => refl_of R s

theorem bind {m : StateM σ α} {f : α → StateM σ β} (hm : Leads R m)
    (hf : ∀ a, Leads R (f a)) : Leads R (m >>= f) :=
  fun s => trans_of R (hm s) (hf _ _)

theorem mapM {f : α → StateM σ β} (hf : ∀ a, Leads R (f a)) (l : List α) :
    Leads R (l.mapM f) := by
  induction l with
  | nil =>
      rw [List.mapM_nil]
      exact of_pure []
  | cons a l ih =>
      rw [List.mapM_cons]
      exact (hf a).bind fun b => ih.bind fun bs => of_pure (b :: bs)

theorem forM {f : α → StateM σ Unit} (hf : ∀ a, Leads R (f a)) (l : List α) :
    Leads R (l.forM f) := by
  induction l with
  | nil => exact of_pure ()
  | cons a l ih => exact (hf a).bind fun _ => ih

theorem anyM {p : α → StateM σ Bool} (hp : ∀ a, Leads R (p a)) (l : List α) :
    Leads R (l.anyM p) := by
  induction l with
  | nil => exact of_pure false
  | cons a l ih =>
      rw [List.anyM_cons]
      exact (hp a).bind fun b => (of_pure true).ite ih

theorem allM {p : α → StateM σ Bool} (hp : ∀ a, Leads R (p a)) (l : List α) :
    Leads R (l.allM p) := by
  induction l with
  | nil => exact of_pure true
  | cons a l ih =>
      rw [List.allM_cons]
      exact (hp a).bind fun b => ih.ite (of_pure false)

theorem findSomeM? {f : α → StateM σ (Option β)} (hf : ∀ a, Leads R (f a))
    (l : List α) : Leads R (l.findSomeM? f) := by
  induction l with
  | nil => exact of_pure none
  | cons a l ih =>
      rw [List.findSomeM?_cons]
      apply (hf a).bind
      rintro (_ | b)
      · exact ih
      · exact of_pure (some b)

theorem filterAuxM {p : α → StateM σ Bool} (hp : ∀ a, Leads R (p a))
    (l acc : List α) : Leads R (l.filterAuxM p acc) := by
  induction l generalizing acc with
  | nil => exact of_pure acc
  | cons a l ih => exact (hp a).bind fun b => ih _

theorem filterM {p : α → StateM σ Bool} (hp : ∀ a, Leads R (p a))
    (l : List α) : Leads R (l.filterM p) :=
  (filterAuxM hp l []).bind fun _ => of_pure _

theorem filterMapM {f : α → StateM σ (Option β)} (hf : ∀ a, Leads R (f a))
    (l : List α) : Leads R (l.filterMapM f) := by
  induction l with
  | nil => exact of_pure []
  | cons a l ih =>
      rw [List.filterMapM_cons]
      apply (hf a).bind
      rintro (_ | b)
      · exact ih
      · exact ih.bind fun _ => of_pure _

end Leads

/-! ## Transitions that may fail -/

@[simp] theorem pure_apply_except (a : α) (s : σ) :
    (pure a : ExceptT ε (StateM σ) α) s = (.ok a, s) := rfl

@[simp] theorem throw_apply_except (e : ε) (s : σ) :
    (throw e : ExceptT ε (StateM σ) α) s = (.error e, s) := rfl

@[simp] theorem get_apply_except (s : σ) :
    (get : ExceptT ε (StateM σ) σ) s = (.ok s, s) := rfl

@[simp] theorem monadLift_apply_except (x : StateM σ α) (s : σ) :
    (monadLift x : ExceptT ε (StateM σ) α) s = (.ok (x s).1, (x s).2) := rfl

@[simp] theorem liftM_apply_except (x : StateM σ α) (s : σ) :
    (liftM x : ExceptT ε (StateM σ) α) s = (.ok (x s).1, (x s).2) := rfl

theorem eq_of_liftM_apply_ok {x : StateM σ α} {a : α} {s s' : σ}
    (h : (liftM x : ExceptT ε (StateM σ) α) s = (.ok a, s')) :
    x s = (a, s') := by
  change (Except.ok (x s).1, (x s).2) = (Except.ok a, s') at h
  rw [Prod.mk.injEq, Except.ok.injEq] at h
  exact Prod.ext h.1 h.2

theorem bind_apply_except (x : ExceptT ε (StateM σ) α)
    (f : α → ExceptT ε (StateM σ) β) (s : σ) :
    (x >>= f) s =
      match x s with
      | (.ok a, s') => f a s'
      | (.error e, s') => (.error e, s') := by
  change (ExceptT.bindCont f (x s).1) (x s).2 = _
  rcases x s with ⟨_ | _, s'⟩ <;> rfl

theorem bind_apply_ok {x : ExceptT ε (StateM σ) α} {a : α} {s s' : σ}
    (h : x s = (.ok a, s')) (f : α → ExceptT ε (StateM σ) β) :
    (x >>= f) s = f a s' := by
  rw [bind_apply_except, h]

theorem bind_apply_error {x : ExceptT ε (StateM σ) α} {e : ε} {s s' : σ}
    (h : x s = (.error e, s')) (f : α → ExceptT ε (StateM σ) β) :
    (x >>= f) s = (.error e, s') := by
  rw [bind_apply_except, h]

/-- A block that succeeds does so in its first step, and from there in the
rest. -/
theorem bind_apply_eq_ok {x : ExceptT ε (StateM σ) α}
    {f : α → ExceptT ε (StateM σ) β} {s s'' : σ} {b : β}
    (h : (x >>= f) s = (.ok b, s'')) :
    ∃ a s', x s = (.ok a, s') ∧ f a s' = (.ok b, s'') := by
  rcases hx : x s with ⟨e | a, s'⟩
  · rw [bind_apply_error hx] at h
    cases h
  · rw [bind_apply_ok hx] at h
    exact ⟨a, s', rfl, h⟩

/-- What each step of a loop does to the state, if it succeeds, the whole loop
does. -/
theorem forM_apply_ok {γ : Type} {R : σ → σ → Prop} (hrefl : ∀ s, R s s)
    (htrans : ∀ {s s' s''}, R s s' → R s' s'' → R s s'')
    {f : γ → ExceptT ε (StateM σ) Unit} {l : List γ}
    (hf : ∀ x ∈ l, ∀ {s s'}, f x s = (.ok (), s') → R s s') {s s' : σ}
    (h : l.forM f s = (.ok (), s')) : R s s' := by
  induction l generalizing s with
  | nil =>
      cases h
      exact hrefl _
  | cons x l ih =>
      rw [List.forall_mem_cons] at hf
      obtain ⟨_, s₁, hx, hl⟩ := bind_apply_eq_ok h
      exact htrans (hf.1 hx) (ih hf.2 hl)

/-- What each step of a loop does to the state and answers, if it succeeds, the
whole loop does. -/
theorem mapM_apply_ok {γ : Type} {R : σ → σ → Prop} {Q : γ → β → Prop}
    (hrefl : ∀ s, R s s) (htrans : ∀ {s s' s''}, R s s' → R s' s'' → R s s'')
    {f : γ → ExceptT ε (StateM σ) β} {l : List γ}
    (hf : ∀ x ∈ l, ∀ {s s' b}, f x s = (.ok b, s') → R s s' ∧ Q x b) {s s' : σ}
    {bs : List β} (h : l.mapM f s = (.ok bs, s')) :
    R s s' ∧ List.Forall₂ Q l bs := by
  induction l generalizing s bs with
  | nil =>
      cases h
      exact ⟨hrefl _, .nil⟩
  | cons x l ih =>
      rw [List.forall_mem_cons] at hf
      rw [List.mapM_cons] at h
      obtain ⟨b, s₁, hx, hrest⟩ := bind_apply_eq_ok h
      obtain ⟨bs', s₂, hl, hlast⟩ := bind_apply_eq_ok hrest
      cases hlast
      obtain ⟨hR, hall⟩ := ih hf.2 hl
      obtain ⟨hR', hQ⟩ := hf.1 hx
      exact ⟨htrans hR' hR, .cons hQ hall⟩

/-- A loop succeeds if each of its steps does so by itself, as long as the steps
that succeed keep an invariant and do not spoil this for others. -/
theorem forM_apply_ok_iff {γ : Type} {I : σ → Prop}
    {f : γ → ExceptT ε (StateM σ) Unit} {l : List γ}
    (hI : ∀ x ∈ l, ∀ {s s'}, I s → f x s = (.ok (), s') → I s')
    (hf : ∀ x ∈ l, ∀ {s s'}, I s → f x s = (.ok (), s') → ∀ y ∈ l,
      (∃ u, f y s = (.ok (), u)) ↔ ∃ u, f y s' = (.ok (), u)) {s : σ}
    (hs : I s) :
    (∃ s', l.forM f s = (.ok (), s')) ↔ ∀ x ∈ l, ∃ s', f x s = (.ok (), s') := by
  induction l generalizing s with
  | nil => exact ⟨fun _ => by simp, fun _ => ⟨s, rfl⟩⟩
  | cons x l ih =>
      have hrest : ∀ {s'}, f x s = (.ok (), s') →
          ((∀ y ∈ l, ∃ u, f y s = (.ok (), u)) ↔ ∃ u, l.forM f s' = (.ok (), u)) := by
        intro s' hx
        rw [ih (fun y hy => hI y (by simp [hy]))
          (fun y hy _ _ hs hys z hz => hf y (by simp [hy]) hs hys z (by simp [hz]))
          (hI x (by simp) hs hx)]
        exact forall₂_congr fun y hy => hf x (by simp) hs hx y (by simp [hy])
      rw [List.forall_mem_cons]
      constructor
      · rintro ⟨s', h⟩
        obtain ⟨_, s₁, hx, hl⟩ := bind_apply_eq_ok h
        exact ⟨⟨s₁, hx⟩, (hrest hx).mpr ⟨s', hl⟩⟩
      · rintro ⟨⟨s₁, hx⟩, hl⟩
        obtain ⟨s', hs'⟩ := (hrest hx).mp hl
        exact ⟨s', (bind_apply_ok hx _).trans hs'⟩

/-! ## Transitions that fail rather than do more -/

/-- Unless the first transition fails, the second one does the same. -/
def Settles (m : ExceptT ε (StateM σ) α) (n : StateM σ α) : Prop :=
  ∀ ⦃s s' a⦄, m s = (.ok a, s') → n s = (a, s')

namespace Settles

theorem of_pure (a : α) :
    Settles (pure a : ExceptT ε (StateM σ) α) (pure a) := by
  rintro s s' b h
  cases h
  rfl

theorem of_throw (e : ε) (n : StateM σ α) :
    Settles (throw e : ExceptT ε (StateM σ) α) n := by
  rintro s s' a h
  cases h

theorem bind {m : ExceptT ε (StateM σ) α} {n : StateM σ α}
    {f : α → ExceptT ε (StateM σ) β} {g : α → StateM σ β} (hm : Settles m n)
    (hf : ∀ a, Settles (f a) (g a)) : Settles (m >>= f) (n >>= g) := by
  intro s s' b h
  obtain ⟨a, s₁, ha, hb⟩ := bind_apply_eq_ok h
  rw [bind_apply, hm ha]
  exact hf a hb

theorem get_bind {f : σ → ExceptT ε (StateM σ) β} {g : σ → StateM σ β}
    (hf : ∀ s, Settles (f s) (g s)) : Settles (get >>= f) (get >>= g) :=
  fun _ _ _ h => hf _ h

theorem lift_bind {m : StateM σ α} {f : α → ExceptT ε (StateM σ) β}
    {g : α → StateM σ β} (hf : ∀ a, Settles (f a) (g a)) :
    Settles (liftM m >>= f) (m >>= g) :=
  bind (fun _ _ _ => eq_of_liftM_apply_ok) hf

theorem ite {c : Prop} [Decidable c] {m m' : ExceptT ε (StateM σ) α}
    {n n' : StateM σ α} (hm : Settles m n) (hm' : Settles m' n') :
    Settles (if c then m else m') (if c then n else n') := by
  split
  · exact hm
  · exact hm'

theorem anyM {p : α → ExceptT ε (StateM σ) Bool} {q : α → StateM σ Bool}
    (hp : ∀ a, Settles (p a) (q a)) (l : List α) :
    Settles (l.anyM p) (l.anyM q) := by
  induction l with
  | nil => exact of_pure false
  | cons a l ih =>
      rw [List.anyM_cons, List.anyM_cons]
      exact (hp a).bind fun b => (of_pure true).ite ih

end Settles

end Verdicts
