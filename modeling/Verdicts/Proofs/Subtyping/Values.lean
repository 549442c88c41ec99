import Verdicts.Proofs.Subtyping.Extension

/-!
# Nothing but a value type is assignable to it

Where definitions state classes and interfaces as their supertypes and the types
on top of the hierarchy are such as well, every step up from a type leads to a
class or to an interface.  Structures and enumerations are then below other
types only, never above them.
-/

namespace Verdicts

namespace Kind

/-- Types of the kind stand above other types. -/
def IsUpper (k : Kind) : Prop :=
  k = .classType ∨ k = .interface

/-- Types of the kind are stored by value. -/
def IsValue (k : Kind) : Prop :=
  k = .struct ∨ k = .enum

instance (k : Kind) : Decidable k.IsUpper :=
  inferInstanceAs (Decidable (_ ∨ _))

instance (k : Kind) : Decidable k.IsValue :=
  inferInstanceAs (Decidable (_ ∨ _))

variable {k : Kind}

theorem IsValue.not_isUpper (h : k.IsValue) : ¬ k.IsUpper := by
  rcases h with rfl | rfl <;> decide

theorem IsUpper.ne_typeParameter (h : k.IsUpper) : k ≠ .typeParameter := by
  rcases h with rfl | rfl <;> decide

theorem IsUpper.ne_array (h : k.IsUpper) : k ≠ .array := by
  rcases h with rfl | rfl <;> decide

theorem IsValue.ne_typeParameter (h : k.IsValue) : k ≠ .typeParameter := by
  rcases h with rfl | rfl <;> decide

theorem IsValue.ne_array (h : k.IsValue) : k ≠ .array := by
  rcases h with rfl | rfl <;> decide

theorem IsValue.ne_unknown (h : k.IsValue) : k ≠ .unknown := by
  rcases h with rfl | rfl <;> decide

end Kind

/-! ## Going up -/

namespace Hierarchy

variable {H : Hierarchy} {A B S T : Term}

/-- Definitions state classes and interfaces only, and type parameters are of
their own kind. -/
structure Grounded (H : Hierarchy) : Prop where
  interface : ∀ {h d S}, H.definition? h = some d → S ∈ d.interfaces →
    (S.kind H).IsUpper
  base : ∀ {h d S}, H.definition? h = some d → d.base? = some S →
    (S.kind H).IsUpper
  owned : ∀ {h d p}, H.definition? h = some d → p ∈ d.parameters →
    H.kind p = .typeParameter
  parameter : ∀ {p c}, H.parameter? p = some c → H.kind p = .typeParameter

theorem kind_apply (D : Term) (as : List Term) :
    (Term.apply H D as).kind H = D.kind H := by
  rw [Term.apply]
  split
  · rfl
  · rfl

/-- Replacing type parameters leaves the kind of a class or an interface. -/
theorem kind_subst {σ : List (Handle × Term)}
    (hσ : ∀ e ∈ σ, H.kind e.1 = .typeParameter) (hT : (T.kind H).IsUpper) :
    (T.subst H σ).kind H = T.kind H := by
  rw [Term.subst]
  split
  · rfl
  · cases T with
    | atom h =>
        rw [Term.substWithin]
        cases hl : σ.lookup h with
        | none => rfl
        | some image =>
            obtain ⟨l₁, l₂, heq, -⟩ := List.lookup_eq_some_iff.mp hl
            have hparameter := hσ (h, image) (by simp [heq])
            exact absurd hparameter hT.ne_typeParameter
    | array => rfl
    | applied D as => rw [Term.substWithin, kind_apply, Term.kind]

namespace Grounded

variable (hg : H.Grounded)
include hg

theorem isUpper_of_states {h : Handle} {d : Nominal}
    (hd : H.definition? h = some d) (hS : States d A S) :
    (S.kind H).IsUpper :=
  hS.elim (hg.interface hd) fun hS => hg.base hd hS.1

theorem isUpper_of_supertype (hS : H.Supertype A S) :
    (S.kind H).IsUpper := by
  cases hS with
  | named hd hS => exact hg.isUpper_of_states hd hS
  | @applied h d as S hd hS =>
      have hupper := hg.isUpper_of_states hd hS
      rw [kind_subst (fun e he => ?_) hupper]
      · exact hupper
      · exact hg.owned hd (List.of_mem_zip he).1

/-- Going up from a value type, a class or an interface leads to no value type
but the first one. -/
theorem eq_of_below {levels : Nat} (h : H.Below levels A B)
    (hA : (A.kind H).IsValue ∨ (A.kind H).IsUpper) (hB : (B.kind H).IsValue)
    (hobject : B.tag? H ≠ some .object) : A = B := by
  induction levels generalizing A with
  | zero => exact h.1
  | succ levels ih =>
      rcases h with h | ⟨-, h | h⟩
      · exact h.1
      · exact absurd h hobject
      have hparameter : A.kind H ≠ .typeParameter :=
        hA.elim Kind.IsValue.ne_typeParameter Kind.IsUpper.ne_typeParameter
      have harray : A.kind H ≠ .array :=
        hA.elim Kind.IsValue.ne_array Kind.IsUpper.ne_array
      cases h with
      | taken | same | element => exact absurd rfl harray
      | valueType hp | bound hp => exact absurd (hg.parameter hp) hparameter
      | direct hS => exact absurd (hg.isUpper_of_supertype hS) hB.not_isUpper
      | supertype hS h =>
          have hupper := hg.isUpper_of_supertype hS
          obtain rfl := ih h (.inr hupper)
          exact absurd hupper hB.not_isUpper

end Grounded

end Hierarchy

/-! ## Tables -/

namespace Table

variable {foreign : Handle → Prop} {t : Table} {s d h : Handle}

/-- Definitions state classes and interfaces only. -/
def StatesUpper (t : Table) : Prop :=
  ∀ {h d}, t.shape? h = some (.named d) →
    ∀ k ∈ d.base.toList ++ d.interfaces, (t.kind k).IsUpper

/-- The types that a kind implies as bases are classes or interfaces, and
nullable types are structures. -/
structure KeepsKinds (t : Table) : Prop where
  upper : ∀ {h b}, t.tag? h = some b → b ∈ [BuiltIn.object, .valueType, .enum] →
    (t.kind h).IsUpper
  nullable : ∀ {h}, t.tag? h = some .nullableT → t.kind h = .struct

theorem statesUpper_iff : t.StatesUpper ↔
    ∀ h ∈ t.handles, ∀ d ∈ t.definition? h,
      ∀ k ∈ d.base.toList ++ d.interfaces, (t.kind k).IsUpper := by
  constructor
  · intro hstates h _ d hd
    exact hstates (definition?_eq_some_iff.mp hd)
  · intro hall h d hd
    exact hall h (mem_handles_of_knows (knows_of_shape? hd)) d
      (definition?_eq_some_iff.mpr hd)

theorem keepsKinds_iff : t.KeepsKinds ↔ ∀ h ∈ t.handles,
    (∀ b ∈ [BuiltIn.object, .valueType, .enum], t.tag? h = some b →
      (t.kind h).IsUpper) ∧
    (t.tag? h = some .nullableT → t.kind h = .struct) := by
  constructor
  · exact fun hk h _ => ⟨fun b hb htag => hk.upper htag hb, hk.nullable⟩
  · intro hall
    have hmem : ∀ {h b}, t.tag? h = some b → h ∈ t.handles :=
      fun htag => mem_handles_of_knows (knows_of_tag? htag)
    exact ⟨fun htag hb => (hall _ (hmem htag)).1 _ hb htag,
      fun htag => (hall _ (hmem htag)).2 htag⟩

instance (t : Table) : Decidable t.StatesUpper :=
  decidable_of_iff _ statesUpper_iff.symm

instance (t : Table) : Decidable t.KeepsKinds :=
  decidable_of_iff _ keepsKinds_iff.symm

theorem tag?_of_builtIn? {b : BuiltIn} (hh : t.builtIn? b = some h) :
    t.tag? h = some b := by
  obtain ⟨d, hd, hb⟩ := definition?_of_builtIn? hh
  rw [tag?, definition?_eq_some_iff.mpr hd]
  exact hb

theorem KeepsKinds.isUpper_of_impliedBase? (hk : t.KeepsKinds) {k : Kind}
    (hh : t.impliedBase? k = some h) : (t.kind h).IsUpper := by
  have himplied : ∃ b ∈ [BuiltIn.object, .valueType, .enum],
      t.builtIn? b = some h := by
    unfold impliedBase? at hh
    split at hh
    · exact ⟨_, by simp, hh⟩
    · exact ⟨_, by simp, hh⟩
    · exact ⟨_, by simp, hh⟩
    · exact ⟨_, by simp, hh⟩
    · cases hh
  obtain ⟨b, hb, hh⟩ := himplied
  exact hk.upper (tag?_of_builtIn? hh) hb

theorem kind_hierarchy_of_parameter {name : String} {c : Constraints}
    (hs : t.shape? h = some (.parameter name c)) :
    t.hierarchy.kind h = .typeParameter := by
  unfold hierarchy
  dsimp only
  rw [flat?_of_shape? hs rfl]

theorem Sound.grounded (ht : t.Sound foreign) (hstates : t.StatesUpper)
    (hk : t.KeepsKinds) : t.hierarchy.Grounded where
  interface {h n S} hn hS := by
    obtain ⟨d, hd, rfl⟩ := Option.map_eq_some_iff.mp hn
    obtain ⟨k, hmem, rfl⟩ := List.mem_map.mp hS
    rw [kind_denote ht]
    exact hstates (definition?_eq_some_iff.mp hd) k
      (List.mem_append_right _ hmem)
  base {h n S} hn hS := by
    obtain ⟨d, hd, rfl⟩ := Option.map_eq_some_iff.mp hn
    obtain ⟨k, hbase, rfl⟩ := Option.map_eq_some_iff.mp hS
    rw [kind_denote ht]
    cases hd' : d.base with
    | some b =>
        rw [hd'] at hbase
        obtain rfl := Option.some.inj hbase
        exact hstates (definition?_eq_some_iff.mp hd) b (by simp [hd'])
    | none =>
        rw [hd'] at hbase
        exact hk.isUpper_of_impliedBase? hbase
  owned {h n p} hn hp := by
    obtain ⟨d, hd, rfl⟩ := Option.map_eq_some_iff.mp hn
    obtain ⟨name, c, hs⟩ :=
      (ht.wellFormed.owned (definition?_eq_some_iff.mp hd)).parameter p hp
    exact kind_hierarchy_of_parameter hs
  parameter {p c} hp := by
    obtain ⟨c, hc, rfl⟩ := Option.map_eq_some_iff.mp hp
    obtain ⟨name, hs⟩ := constraints?_eq_some_iff.mp hc
    exact kind_hierarchy_of_parameter hs

/-- A value type is assignable to no other one. -/
theorem Sound.not_assignable_of_isValue (ht : t.Sound foreign)
    (hstates : t.StatesUpper) (hk : t.KeepsKinds) (hs : (t.kind s).IsValue)
    (hd : (t.kind d).IsValue) (hne : s ≠ d)
    (havoids : (assignable s d t).2.Avoids foreign) :
    (assignable s d t).1 = false := by
  have hs' : t.Admits foreign s := .inl (knows_of_kind_ne_unknown hs.ne_unknown)
  have hd' : t.Admits foreign d := .inl (knows_of_kind_ne_unknown hd.ne_unknown)
  rw [← Bool.not_eq_true, ht.assignable_iff hs' hd' havoids]
  intro h
  refine hne (ht.denote_injective hs' hd' ?_)
  refine (ht.grounded hstates hk).eq_of_below h (.inl ?_) ?_ ?_
  · rwa [kind_denote ht]
  · rwa [kind_denote ht]
  · rw [tag?_denote ht]
    intro htag
    exact hd.not_isUpper (hk.upper htag (by simp))

end Table

end Verdicts
