import Verdicts.Proofs.Subtyping.Reading

/-!
# The walk of assignability

The walk of assignability stores types on its way.  Whatever it stores, it
answers whether the source, written out, is below the target.
-/

namespace Verdicts.Table

variable {foreign : Handle → Prop} {H : Hierarchy} {t : Table} {h : Handle}

/-! ## Reading off handles -/

namespace Stands

variable {a b : Handle} {A B : Term} (ha : t.Stands foreign a A)
  (ht : t.Shows foreign H)
include ha ht

theorem known_iff : A.Known H ↔ t.knows a = true := by
  rw [← ht.hierarchy, ← ha.denote, known_denote_iff ht.toSound]

theorem kind_eq : A.kind H = t.kind a := by
  rw [← ht.hierarchy, ← ha.denote, kind_denote ht.toSound]

theorem tag?_eq : A.tag? H = t.tag? a := by
  rw [← ht.hierarchy, ← ha.denote, tag?_denote ht.toSound]

theorem isReference_eq : A.isReference H = t.isReferenceType a := by
  rw [← ht.hierarchy, ← ha.denote, isReference_denote ht.toSound]

theorem takesArrays_iff : A.TakesArrays H ↔ t.arrayDemand a = .free := by
  rw [← ht.hierarchy, ← ha.denote, takesArrays_denote_iff ht.toSound]

theorem takesElements_iff {E : Term} : A.TakesElements H E ↔
    ∃ e, t.arrayDemand a = .element e ∧ t.denote e = E := by
  rw [← ht.hierarchy, ← ha.denote, takesElements_denote_iff ht.toSound]

theorem eq_iff (hb : t.Stands foreign b B) : A = B ↔ a = b := by
  rw [← ha.denote, ← hb.denote]
  exact ⟨ht.denote_injective ha.admits hb.admits, congrArg t.denote⟩

theorem meets_iff (hb : t.Stands foreign b B) : H.Meets A B ↔
    ¬(isInertSource (t.kind a) || isInertTarget (t.kind b)) = true := by
  rw [Bool.or_eq_true, not_or, Bool.not_eq_true, Bool.not_eq_true,
    ← ha.kind_eq ht, ← hb.kind_eq ht]
  exact ⟨fun h => ⟨h.source, h.target⟩, fun h => ⟨h.1, h.2⟩⟩

theorem ne_array (hs : ∀ e, t.shape? a ≠ some (.array e)) (E : Term) :
    A ≠ .array E := by
  rintro rfl
  rcases ht.denote_cases a with ⟨e, hs', -⟩ | ⟨d, as, -, heq⟩ | ⟨-, heq⟩
  · exact hs e hs'
  · cases heq.symm.trans ha.denote
  · cases heq.symm.trans ha.denote

theorem parameter?_eq_none
    (hs : ∀ name c, t.shape? a ≠ some (.parameter name c)) :
    ∀ p, A = .atom p → H.parameter? p = none := by
  rintro p rfl
  obtain rfl := ht.eq_of_denote_eq_atom ha.denote
  rw [← ht.hierarchy, parameter?_hierarchy]
  cases hc : t.constraints? a with
  | none => rfl
  | some c =>
      obtain ⟨name, hs'⟩ := constraints?_eq_some_iff.mp hc
      exact absurd hs' (hs name c)

/-- From a type that is no array, no type parameter and no definition no step
leads on. -/
theorem not_rises {R : Term → Term → Prop}
    (hs : ∀ s, t.shape? a = some s → ∃ name kind, s = .other name kind) :
    ¬H.Rises R A B := by
  have hne : ∀ {s}, (∀ name kind, s ≠ .other name kind) → t.shape? a ≠ some s := by
    intro s hother hs'
    obtain ⟨name, kind, heq⟩ := hs s hs'
    exact hother name kind heq
  rw [Hierarchy.Rises.supertype_iff
    (ha.ne_array ht fun e => hne (by simp))
    (ha.parameter?_eq_none ht fun name c => hne (by simp))]
  rintro ⟨S, hS, -⟩
  have hflat : t.denote a = .atom a := denote_flat fun s hs' => by
    obtain ⟨name, kind, rfl⟩ := hs s hs'
    rfl
  rw [← ha.denote, hflat] at hS
  obtain ⟨d, hd⟩ := named_of_supertype_atom ht hS
  exact hne (by simp) hd

end Stands

theorem Sound.admits_of_arrayDemand (ht : t.Sound foreign) {e : Handle}
    (he : t.arrayDemand h = .element e) : t.Admits foreign e := by
  rw [arrayDemand] at he
  split at he
  · next hs =>
      cases he
      exact ht.admits_part hs (List.mem_cons_self ..)
  · split at he <;> cases he
  · next d as hs =>
      cases as with
      | nil => cases he
      | cons a as =>
          dsimp only at he
          split at he
          · cases he
            exact ht.admits_part hs (by simp [Shape.parts])
          · cases he
  · cases he

/-! ## The walk -/

/-- Walks of the number of levels answer whether the source is below the
target. -/
def Walks (foreign : Handle → Prop) (H : Hierarchy) (levels : Nat) : Prop :=
  ∀ {t : Table} {a b : Handle} {A B : Term}, t.Stands foreign a A →
    t.Stands foreign b B → Reads foreign H t (assignableWithin levels a b)
      fun _ r => r = true ↔ H.Below levels A B

namespace Walks

variable {levels : Nat} {a b : Handle} {A B : Term} (ih : Walks foreign H levels)
  (ha : t.Stands foreign a A) (hb : t.Stands foreign b B)
include ih ha hb

theorem reads_array {e : Handle} (hs : t.shape? a = some (.array e)) :
    Reads foreign H t
      (match t.arrayDemand b with
        | .free => return true
        | .element e' =>
          if e = e' then return true
          else if t.isReferenceType e then assignableWithin levels e e'
          else return false
        | .impossible => return false : StateM Table Bool)
      fun _ r => r = true ↔ H.Rises (H.Below levels) A B := by
  apply Reads.of_shows
  intro ht
  obtain rfl := (ht.denote_array hs).symm.trans ha.denote
  have he := (ht.admits_part hs (List.mem_cons_self ..)).stands
  rw [Hierarchy.Rises.array_iff, hb.takesArrays_iff ht]
  simp only [hb.takesElements_iff ht]
  cases hdemand : t.arrayDemand b with
  | free => exact .of_pure (by simp)
  | impossible => exact .of_pure (by simp)
  | element e' =>
      have he' := (ht.admits_of_arrayDemand hdemand).stands
      have hfits : (ArrayDemand.element e' = .free ∨
          ∃ E', (∃ k, ArrayDemand.element e' = .element k ∧ t.denote k = E') ∧
            (t.denote e = E' ∨ (t.denote e).isReference H = true ∧
              H.Below levels (t.denote e) E')) ↔
          e = e' ∨ t.isReferenceType e = true ∧
            H.Below levels (t.denote e) (t.denote e') := by
        simp [he.eq_iff ht he', he.isReference_eq ht]
      rw [hfits]
      refine .ite (fun heq => .of_pure (by simp [heq])) fun hne => .ite ?_ ?_
      · intro hreference
        refine (ih he he').mono fun hr => ?_
        simp [hr, hne, hreference]
      · intro hreference
        exact .of_pure (by simp [hne, hreference])

theorem reads_parameter {name : String} {c : Constraints}
    (hs : t.shape? a = some (.parameter name c)) :
    Reads foreign H t
      (if c.valueType && t.tag? b = some .valueType then return true
        else c.types.anyM fun bound => assignableWithin levels bound b)
      fun _ r => r = true ↔ H.Rises (H.Below levels) A B := by
  apply Reads.of_shows
  intro ht
  obtain rfl := (denote_of_shape? hs rfl).symm.trans ha.denote
  have hp : H.parameter? a = some (t.demands c) := by
    rw [← ht.hierarchy, parameter?_hierarchy,
      constraints?_eq_some_iff.mpr ⟨name, hs⟩]
    rfl
  have hd : H.definition? a = none := by
    rw [← ht.hierarchy, definition?_hierarchy, definition?, hs]
    rfl
  rw [Hierarchy.Rises.parameter_iff hp hd, hb.tag?_eq ht, demands]
  refine .ite (fun hvalue => ?_) fun hvalue => ?_
  · rw [Bool.and_eq_true, decide_eq_true_iff] at hvalue
    exact .of_pure (iff_of_true rfl (.inl hvalue))
  · rw [Bool.and_eq_true, decide_eq_true_iff] at hvalue
    have hbounds := forall₂_stands fun bound hbound =>
      ht.admits_part hs (c := bound) hbound
    refine (Reads.anyM (interns_assignableWithin levels · b) ?_ hbounds).mono
      fun hr => hr.trans (or_iff_right hvalue).symm
    intro u h T g ht hu hh
    exact ih hh (hb.mono g ht hu)

theorem reads_supertypes (harray : ∀ e, t.shape? a ≠ some (.array e))
    (hparameter : ∀ name c, t.shape? a ≠ some (.parameter name c)) :
    Reads foreign H t
      (do
        (← supertypes a).anyM fun supertype =>
          if supertype = b then return true
          else assignableWithin levels supertype b)
      fun _ r => r = true ↔ H.Rises (H.Below levels) A B := by
  apply Reads.of_shows
  intro ht
  rw [Hierarchy.Rises.supertype_iff (ha.ne_array ht harray)
    (ha.parameter?_eq_none ht hparameter)]
  have hstep : ∀ x, Interns (if x = b then pure true
      else assignableWithin levels x b : StateM Table Bool) :=
    fun x => .ite (.of_pure _) (interns_assignableWithin levels x b)
  refine .bind (interns_supertypes a) (fun xs => .anyM hstep xs)
    (Table.reads_supertypes ha) ?_
  rintro u xs g - hu ⟨Ts, hall, hTs⟩
  have hb' := hb.mono g ht hu
  refine (Reads.anyM (R := fun S => S = B ∨ H.Below levels S B) hstep ?_
    hall).mono fun hr => ?_
  · intro v x S g' hu hv hx
    have hb'' := hb'.mono g' hu hv
    refine .ite (fun heq => ?_) fun hne => ?_
    · exact .of_pure (iff_of_true rfl (.inl ((hx.eq_iff hv hb'').mpr heq)))
    · refine (ih hx hb'').mono fun hr => hr.trans (or_iff_right ?_).symm
      exact fun heq => hne ((hx.eq_iff hv hb'').mp heq)
  · simp only [hr, hTs]

end Walks

/-- A walk that may take no step compares the handles. -/
theorem walks_zero : Walks foreign H 0 := by
  intro t a b A B ha hb
  apply Reads.of_shows
  intro ht
  refine .get_bind (.of_pure ?_)
  rw [Bool.and_eq_true, decide_eq_true_iff, Hierarchy.Below,
    ha.eq_iff ht hb, ha.known_iff ht]

/-- A walk takes one step and leaves the rest to shorter walks. -/
theorem Walks.succ {levels : Nat} (ih : Walks foreign H levels) :
    Walks foreign H (levels + 1) := by
  intro t a b A B ha hb
  apply Reads.of_shows
  intro ht
  rw [assignableWithin]
  apply Reads.get_bind
  by_cases hab : a = b
  · rw [if_pos hab]
    refine .of_pure ?_
    rw [Hierarchy.Below, ha.eq_iff ht hb, ha.known_iff ht,
      ha.meets_iff ht hb]
    constructor
    · exact fun hk => .inl ⟨hab, hk⟩
    · rintro (⟨-, hk⟩ | ⟨hmeets, -⟩)
      · exact hk
      · -- A type that is not known has an inert kind.
        refine knows_of_kind_ne_unknown fun hunknown => hmeets ?_
        rw [hunknown]
        rfl
  rw [if_neg hab]
  have hne : A ≠ B := fun heq => hab ((ha.eq_iff ht hb).mp heq)
  by_cases hinert :
      (isInertSource (t.kind a) || isInertTarget (t.kind b)) = true
  · rw [if_pos hinert]
    refine .of_pure ⟨by simp, ?_⟩
    rintro (⟨heq, -⟩ | ⟨hmeets, -⟩)
    · exact absurd heq hne
    · exact absurd hinert ((ha.meets_iff ht hb).mp hmeets)
  rw [if_neg hinert]
  have hmeets := (ha.meets_iff ht hb).mpr hinert
  by_cases hobject : t.tag? b = some .object
  · rw [if_pos hobject]
    refine .of_pure (iff_of_true rfl (.inr ⟨hmeets, .inl ?_⟩))
    rw [hb.tag?_eq ht, hobject]
  rw [if_neg hobject]
  have hbelow : H.Below (levels + 1) A B ↔
      H.Rises (H.Below levels) A B := by
    simp [Hierarchy.Below, hne, hmeets, hb.tag?_eq ht, hobject]
  rw [hbelow]
  split
  · next e hs => exact ih.reads_array ha hb hs
  · next hs => exact ih.reads_parameter ha hb hs
  · next hs => exact ih.reads_supertypes ha hb (by simp [hs]) (by simp [hs])
  · next hs => exact ih.reads_supertypes ha hb (by simp [hs]) (by simp [hs])
  · next hs =>
      exact .of_pure (by simpa using ha.not_rises ht (by simp [hs]))
  · next hs =>
      exact .of_pure (by simpa using ha.not_rises ht (by simp [hs]))

theorem walks (foreign : Handle → Prop) (H : Hierarchy) (levels : Nat) :
    Walks foreign H levels := by
  induction levels with
  | zero => exact walks_zero
  | succ levels ih => exact ih.succ

/-- A walk answers whether the type of the source, written out, is below that
of the target. -/
theorem Sound.assignableWithin_iff (ht : t.Sound foreign) {levels : Nat}
    {a b : Handle} (ha : t.Admits foreign a) (hb : t.Admits foreign b)
    (havoids : (assignableWithin levels a b t).2.Avoids foreign) :
    (assignableWithin levels a b t).1 = true ↔
      t.hierarchy.Below levels (t.denote a) (t.denote b) :=
  (walks foreign t.hierarchy levels ha.stands hb.stands ht.shows havoids).2

end Verdicts.Table
