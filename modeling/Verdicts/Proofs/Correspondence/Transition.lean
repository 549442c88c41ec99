import Verdicts.Proofs.Correspondence.Table

/-!
# Agreeing transitions

Two transitions agree in a world when from corresponding states they lead to
corresponding states, in a world with more links, and give corresponding
answers.  The rules of this module put agreements together along the structure
of a block.

Foreign handles have to stay unknown until the end of both runs.  A rule that
splits a run therefore asks that its second part only adds handles.
-/

namespace Verdicts

/-- States of which it is known when they hold the same, up to the links of a
world. -/
class Comparable (σ : Type) [HoldsTable σ] where
  /-- The states hold the same. -/
  alike : (Handle → Prop) → World → σ → σ → Prop
  matches_table {foreign ρ s s'} : alike foreign ρ s s' →
    (table s).Matches foreign ρ (table s')

export Comparable (alike matches_table)

instance : Comparable Table where
  alike foreign ρ t u := t.Matches foreign ρ u
  matches_table m := m

/-- Answers that are equal in every world. -/
def Same {α : Type} : World → α → α → Prop := fun _ a b => a = b

/-- Outcomes that are the same, up to the answers. -/
inductive Outcomes {ε α β : Type} (P : α → β → Prop) :
    Except ε α → Except ε β → Prop where
  | ok {a b} (h : P a b) : Outcomes P (.ok a) (.ok b)
  | error (e : ε) : Outcomes P (.error e) (.error e)

theorem Outcomes.map {ε α α' β β' : Type} {P : α → α' → Prop}
    {Q : β → β' → Prop} {x : Except ε α} {y : Except ε α'} {f : α → β}
    {g : α' → β'} (h : Outcomes P x y) (hfg : ∀ {a b}, P a b → Q (f a) (g b)) :
    Outcomes Q (x.map f) (y.map g) := by
  cases h with
  | ok h => exact .ok (hfg h)
  | error e => exact .error e

theorem Outcomes.eq {ε α : Type} {x y : Except ε α}
    (h : Outcomes (fun a b => a = b) x y) : x = y := by
  cases h with
  | ok h => rw [h]
  | error e => rfl

section

variable {σ α α' β β' γ γ' ε : Type} [HoldsTable σ]
  {foreign : Handle → Prop} {ρ : World}

/-- The transition leaves foreign handles unknown only if they were unknown
before. -/
def Shields (foreign : Handle → Prop) (m : StateM σ α) : Prop :=
  ∀ s, (table (m s).2).Avoids foreign → (table s).Avoids foreign

theorem Interns.shields {m : StateM σ α} (hm : Interns m) :
    Shields foreign m :=
  fun s ha => (hm s).avoids ha

/-- Transitions that lead from corresponding states to corresponding states and
answers. -/
def Agree [Comparable σ] (foreign : Handle → Prop) (ρ : World)
    (m : StateM σ α) (n : StateM σ α') (P : World → α → α' → Prop) : Prop :=
  ∀ ⦃s s' : σ⦄, alike foreign ρ s s' →
    (table (m s).2).Avoids foreign → (table (n s').2).Avoids foreign →
    ∃ ρ', ρ ≤ ρ' ∧ alike foreign ρ' (m s).2 (n s').2 ∧
      P ρ' (m s).1 (n s').1

namespace Agree

variable [Comparable σ] {P : World → α → α' → Prop} {Q : World → β → β' → Prop}

theorem of_pure {a : α} {a' : α'} (h : P ρ a a') :
    Agree foreign ρ (pure a : StateM σ α) (pure a') P :=
  fun _ _ hs _ _ => ⟨ρ, le_refl ρ, hs, h⟩

/-- Agreement may be shown under the assumption that there are corresponding
states. -/
theorem of_alike {m : StateM σ α} {n : StateM σ α'}
    (h : ∀ {s s' : σ}, alike foreign ρ s s' → Agree foreign ρ m n P) :
    Agree foreign ρ m n P :=
  fun _ _ hs => h hs hs

theorem get_bind {f : σ → StateM σ α} {g : σ → StateM σ α'}
    (h : ∀ {s s'}, alike foreign ρ s s' → Agree foreign ρ (f s) (g s') P) :
    Agree foreign ρ (get >>= f) (get >>= g) P :=
  fun _ _ hs => h hs hs

theorem bind {m : StateM σ α} {n : StateM σ α'} {f : α → StateM σ β}
    {g : α' → StateM σ β'} (hm : Agree foreign ρ m n P)
    (hf : ∀ a, Shields foreign (f a)) (hg : ∀ a, Shields foreign (g a))
    (h : ∀ {ρ'}, ρ ≤ ρ' → ∀ {a a'}, P ρ' a a' →
      Agree foreign ρ' (f a) (g a') Q) :
    Agree foreign ρ (m >>= f) (n >>= g) Q := by
  intro s s' hs ha ha'
  obtain ⟨ρ₁, hle, hs₁, hP⟩ := hm hs (hf _ _ ha) (hg _ _ ha')
  obtain ⟨ρ₂, hle', hs₂, hQ⟩ := h hle hP hs₁ ha ha'
  exact ⟨ρ₂, le_trans hle hle', hs₂, hQ⟩

theorem map {m : StateM σ α} {n : StateM σ α'} {f : α → β} {g : α' → β'}
    (hm : Agree foreign ρ m n P)
    (h : ∀ {ρ'}, ρ ≤ ρ' → ∀ {a a'}, P ρ' a a' → Q ρ' (f a) (g a')) :
    Agree foreign ρ (f <$> m) (g <$> n) Q := by
  intro s s' hs ha ha'
  obtain ⟨ρ', hle, hs', hP⟩ := hm hs ha ha'
  exact ⟨ρ', hle, hs', h hle hP⟩

theorem ite {c c' : Prop} [Decidable c] [Decidable c'] {m m' : StateM σ α}
    {n n' : StateM σ α'} (hc : c ↔ c') (hm : Agree foreign ρ m n P)
    (hm' : Agree foreign ρ m' n' P) :
    Agree foreign ρ (if c then m else m') (if c' then n else n') P := by
  by_cases h : c
  · rw [if_pos h, if_pos (hc.mp h)]
    exact hm
  · rw [if_neg h, if_neg (mt hc.mpr h)]
    exact hm'

/-! ## Lists -/

section

variable {R : World → α → α' → Prop} {l : List α} {l' : List α'}

theorem mapM {f : α → StateM σ β} {g : α' → StateM σ β'}
    (hmono : ∀ {ρ ρ'}, ρ ≤ ρ' → ∀ {a a'}, R ρ a a' → R ρ' a a')
    (hQ : ∀ {ρ ρ'}, ρ ≤ ρ' → ∀ {b b'}, Q ρ b b' → Q ρ' b b')
    (hf : ∀ l : List α, Shields foreign (l.mapM f))
    (hg : ∀ l : List α', Shields foreign (l.mapM g))
    (h : ∀ {ρ'}, ρ ≤ ρ' → ∀ {a a'}, R ρ' a a' →
      Agree foreign ρ' (f a) (g a') Q)
    (hl : List.Forall₂ (R ρ) l l') :
    Agree foreign ρ (l.mapM f) (l'.mapM g) fun ρ' => List.Forall₂ (Q ρ') := by
  induction l generalizing l' ρ with
  | nil =>
      cases hl
      exact of_pure .nil
  | cons a l ih =>
      cases hl with
      | cons ha hl =>
          rw [List.mapM_cons, List.mapM_cons]
          apply (h (le_refl ρ) ha).bind
          · intro b s hs
            exact hf l s hs
          · intro b s hs
            exact hg _ s hs
          · intro ρ' hle b b' hb
            have hrec := ih (ρ := ρ') (fun hle' => h (le_trans hle hle'))
              (hl.imp fun _ _ => hmono hle)
            apply hrec.bind
            · exact fun _ _ hs => hs
            · exact fun _ _ hs => hs
            · intro ρ'' hle' bs bs' hbs
              exact of_pure (.cons (hQ hle' hb) hbs)

theorem anyM {p : α → StateM σ Bool} {q : α' → StateM σ Bool}
    (hmono : ∀ {ρ ρ'}, ρ ≤ ρ' → ∀ {a a'}, R ρ a a' → R ρ' a a')
    (hp : ∀ l : List α, Shields foreign (l.anyM p))
    (hq : ∀ l : List α', Shields foreign (l.anyM q))
    (h : ∀ {ρ'}, ρ ≤ ρ' → ∀ {a a'}, R ρ' a a' →
      Agree foreign ρ' (p a) (q a') Same)
    (hl : List.Forall₂ (R ρ) l l') :
    Agree foreign ρ (l.anyM p) (l'.anyM q) Same := by
  induction l generalizing l' ρ with
  | nil =>
      cases hl
      exact of_pure rfl
  | cons a l ih =>
      cases hl with
      | cons ha hl =>
          rw [List.anyM_cons, List.anyM_cons]
          apply (h (le_refl ρ) ha).bind
          · rintro (_ | _) s hs
            · exact hp l s hs
            · exact hs
          · rintro (_ | _) s hs
            · exact hq _ s hs
            · exact hs
          · intro ρ' hle b _ hb
            cases hb
            cases b with
            | true => exact of_pure rfl
            | false =>
                exact ih (fun hle' => h (le_trans hle hle'))
                  (hl.imp fun _ _ => hmono hle)

theorem allM {p : α → StateM σ Bool} {q : α' → StateM σ Bool}
    (hmono : ∀ {ρ ρ'}, ρ ≤ ρ' → ∀ {a a'}, R ρ a a' → R ρ' a a')
    (hp : ∀ l : List α, Shields foreign (l.allM p))
    (hq : ∀ l : List α', Shields foreign (l.allM q))
    (h : ∀ {ρ'}, ρ ≤ ρ' → ∀ {a a'}, R ρ' a a' →
      Agree foreign ρ' (p a) (q a') Same)
    (hl : List.Forall₂ (R ρ) l l') :
    Agree foreign ρ (l.allM p) (l'.allM q) Same := by
  induction l generalizing l' ρ with
  | nil =>
      cases hl
      exact of_pure rfl
  | cons a l ih =>
      cases hl with
      | cons ha hl =>
          rw [List.allM_cons, List.allM_cons]
          apply (h (le_refl ρ) ha).bind
          · rintro (_ | _) s hs
            · exact hs
            · exact hp l s hs
          · rintro (_ | _) s hs
            · exact hs
            · exact hq _ s hs
          · intro ρ' hle b _ hb
            cases hb
            cases b with
            | false => exact of_pure rfl
            | true =>
                exact ih (fun hle' => h (le_trans hle hle'))
                  (hl.imp fun _ _ => hmono hle)

theorem filterM {p : α → StateM σ Bool} {q : α' → StateM σ Bool}
    (hmono : ∀ {ρ ρ'}, ρ ≤ ρ' → ∀ {a a'}, R ρ a a' → R ρ' a a')
    (hp : ∀ l acc : List α, Shields foreign (l.filterAuxM p acc))
    (hq : ∀ l acc : List α', Shields foreign (l.filterAuxM q acc))
    (h : ∀ {ρ'}, ρ ≤ ρ' → ∀ {a a'}, R ρ' a a' →
      Agree foreign ρ' (p a) (q a') Same)
    (hl : List.Forall₂ (R ρ) l l') :
    Agree foreign ρ (l.filterM p) (l'.filterM q)
      fun ρ' => List.Forall₂ (R ρ') := by
  have haux : ∀ {acc acc'}, List.Forall₂ (R ρ) acc acc' →
      Agree foreign ρ (l.filterAuxM p acc) (l'.filterAuxM q acc')
        fun ρ' => List.Forall₂ (R ρ') := by
    induction l generalizing l' ρ with
    | nil =>
        intro acc acc' hacc
        cases hl
        exact of_pure hacc
    | cons a l ih =>
        intro acc acc' hacc
        cases hl with
        | cons ha hl =>
            apply (h (le_refl ρ) ha).bind
            · exact fun b s hs => hp l _ s hs
            · exact fun b s hs => hq _ _ s hs
            · intro ρ' hle b _ hb
              cases hb
              apply ih (fun hle' => h (le_trans hle hle'))
                (hl.imp fun _ _ => hmono hle)
              cases b with
              | true =>
                  exact .cons (hmono hle ha) (hacc.imp fun _ _ => hmono hle)
              | false => exact hacc.imp fun _ _ => hmono hle
  apply (haux .nil).bind
  · exact fun _ _ hs => hs
  · exact fun _ _ hs => hs
  · intro ρ' _ as as' has
    exact of_pure (List.forall₂_reverse_iff.mpr has)

end

/-- A search in one and the same list finds corresponding answers. -/
theorem findSomeM? {l : List γ} {f : γ → StateM σ (Option β)}
    {g : γ → StateM σ (Option β')}
    (hf : ∀ l : List γ, Shields foreign (l.findSomeM? f))
    (hg : ∀ l : List γ, Shields foreign (l.findSomeM? g))
    (h : ∀ {ρ'}, ρ ≤ ρ' → ∀ c,
      Agree foreign ρ' (f c) (g c) fun ρ => Option.Rel (Q ρ)) :
    Agree foreign ρ (l.findSomeM? f) (l.findSomeM? g)
      fun ρ' => Option.Rel (Q ρ') := by
  induction l generalizing ρ with
  | nil => exact of_pure .none
  | cons c l ih =>
      rw [List.findSomeM?_cons, List.findSomeM?_cons]
      apply (h (le_refl ρ) c).bind
      · rintro (_ | b) s hs
        · exact hf l s hs
        · exact hs
      · rintro (_ | b) s hs
        · exact hg l s hs
        · exact hs
      · rintro ρ' hle _ _ (hb | _)
        · exact of_pure (.some hb)
        · exact ih fun hle' => h (le_trans hle hle')

/-- One and the same list collects corresponding answers. -/
theorem filterMapM {l : List γ} {f : γ → StateM σ (Option β)}
    {g : γ → StateM σ (Option β')}
    (hQ : ∀ {ρ ρ'}, ρ ≤ ρ' → ∀ {b b'}, Q ρ b b' → Q ρ' b b')
    (hf : ∀ l : List γ, Shields foreign (l.filterMapM f))
    (hg : ∀ l : List γ, Shields foreign (l.filterMapM g))
    (h : ∀ {ρ'}, ρ ≤ ρ' → ∀ c,
      Agree foreign ρ' (f c) (g c) fun ρ => Option.Rel (Q ρ)) :
    Agree foreign ρ (l.filterMapM f) (l.filterMapM g)
      fun ρ' => List.Forall₂ (Q ρ') := by
  induction l generalizing ρ with
  | nil => exact of_pure .nil
  | cons c l ih =>
      rw [List.filterMapM_cons, List.filterMapM_cons]
      apply (h (le_refl ρ) c).bind
      · rintro (_ | b) s hs
        · exact hf l s hs
        · exact hf l s hs
      · rintro (_ | b) s hs
        · exact hg l s hs
        · exact hg l s hs
      · rintro ρ' hle _ _ (hb | _)
        · apply (ih fun hle' => h (le_trans hle hle')).bind
          · exact fun _ _ hs => hs
          · exact fun _ _ hs => hs
          · exact fun hle' _ _ hbs => of_pure (.cons (hQ hle' hb) hbs)
        · exact ih fun hle' => h (le_trans hle hle')

end Agree

/-! ## Failure -/

/-- Transitions that may fail, and agree up to their answers or fail alike. -/
def AgreeOrFail [Comparable σ] (foreign : Handle → Prop) (ρ : World)
    (m : ExceptT ε (StateM σ) α) (n : ExceptT ε (StateM σ) α')
    (P : World → α → α' → Prop) : Prop :=
  Agree foreign ρ m.run n.run fun ρ' => Outcomes (P ρ')

namespace AgreeOrFail

variable [Comparable σ] {P : World → α → α' → Prop} {Q : World → β → β' → Prop}

theorem of_pure {a : α} {a' : α'} (h : P ρ a a') :
    AgreeOrFail foreign ρ (pure a : ExceptT ε (StateM σ) α)
      (pure a' : ExceptT ε (StateM σ) α') P :=
  Agree.of_pure (.ok h)

theorem of_throw (e : ε) :
    AgreeOrFail foreign ρ (throw e : ExceptT ε (StateM σ) α)
      (throw e : ExceptT ε (StateM σ) α') P :=
  Agree.of_pure (.error e)

theorem get_bind {f : σ → ExceptT ε (StateM σ) α}
    {g : σ → ExceptT ε (StateM σ) α'}
    (h : ∀ {s s'}, alike foreign ρ s s' →
      AgreeOrFail foreign ρ (f s) (g s') P) :
    AgreeOrFail foreign ρ (get >>= f) (get >>= g) P :=
  fun _ _ hs => h hs hs

theorem lift {m : StateM σ α} {n : StateM σ α'}
    (h : Agree foreign ρ m n P) :
    AgreeOrFail foreign ρ (monadLift m : ExceptT ε (StateM σ) α)
      (monadLift n : ExceptT ε (StateM σ) α') P := by
  intro s s' hs ha ha'
  obtain ⟨ρ', hle, hs', hP⟩ := h hs ha ha'
  exact ⟨ρ', hle, hs', .ok hP⟩

theorem bind {m : ExceptT ε (StateM σ) α} {n : ExceptT ε (StateM σ) α'}
    {f : α → ExceptT ε (StateM σ) β} {g : α' → ExceptT ε (StateM σ) β'}
    (hm : AgreeOrFail foreign ρ m n P)
    (hf : ∀ a, Shields foreign (f a).run) (hg : ∀ a, Shields foreign (g a).run)
    (h : ∀ {ρ'}, ρ ≤ ρ' → ∀ {a a'}, P ρ' a a' →
      AgreeOrFail foreign ρ' (f a) (g a') Q) :
    AgreeOrFail foreign ρ (m >>= f) (n >>= g) Q := by
  change Agree foreign ρ (m.run >>= ExceptT.bindCont f)
    (n.run >>= ExceptT.bindCont g) _
  apply Agree.bind hm
  · rintro (e | a) s hs
    · exact hs
    · exact hf a s hs
  · rintro (e | a) s hs
    · exact hs
    · exact hg a s hs
  · rintro ρ' hle _ _ (ha | e)
    · exact h hle ha
    · exact Agree.of_pure (.error e)

end AgreeOrFail

end

end Verdicts
