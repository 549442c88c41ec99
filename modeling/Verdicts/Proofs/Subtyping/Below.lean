import Verdicts.Proofs.Subtyping.Term

/-!
# Being below a type

The relation that the walk of assignability decides.  A type is below another
within a number of levels when they are the same, or when one step leads from it
to a type that is below the other within one level less.  The relation is stated
on terms over a hierarchy, where nothing has to be stored.
-/

namespace Verdicts.Hierarchy

variable {H : Hierarchy} {A B C S : Term} {R R' : Term → Term → Prop}
  {D : Handle → Prop}

/-- The definition states the supertype for a type made from it: an interface,
or the base unless that is the type itself. -/
def States (d : Nominal) (A S : Term) : Prop :=
  S ∈ d.interfaces ∨ d.base? = some S ∧ S ≠ A

/-- The direct supertypes of definitions and of their applications. -/
inductive Supertype (H : Hierarchy) : Term → Term → Prop where
  | named {h : Handle} {d : Nominal} {S : Term}
      (hd : H.definition? h = some d) (hS : States d (.atom h) S) :
      Supertype H (.atom h) S
  | applied {h : Handle} {d : Nominal} {arguments : List Term} {S : Term}
      (hd : H.definition? h = some d)
      (hS : States d (.applied (.atom h) arguments) S) :
      Supertype H (.applied (.atom h) arguments)
        (S.subst H (d.parameters.zip arguments))

theorem supertype_atom_iff {h : Handle} : H.Supertype (.atom h) S ↔
    ∃ d, H.definition? h = some d ∧ States d (.atom h) S := by
  constructor
  · rintro ⟨hd, hS⟩
    exact ⟨_, hd, hS⟩
  · rintro ⟨d, hd, hS⟩
    exact .named hd hS

theorem supertype_applied_iff {D : Term} {arguments : List Term} :
    H.Supertype (.applied D arguments) S ↔
      ∃ h d, D = .atom h ∧ H.definition? h = some d ∧
        ∃ S', States d (.applied D arguments) S' ∧
          S'.subst H (d.parameters.zip arguments) = S := by
  constructor
  · intro h
    cases h with
    | applied hd hS => exact ⟨_, _, rfl, hd, _, hS, rfl⟩
  · rintro ⟨h, d, rfl, hd, S', hS, rfl⟩
    exact .applied hd hS

/-- Whether the kinds of a source and of a target leave room for more than
identity. -/
structure Meets (H : Hierarchy) (A B : Term) : Prop where
  source : Table.isInertSource (A.kind H) = false
  target : Table.isInertTarget (B.kind H) = false

/-- One step of the walk leads from the source to a type of which the relation
says that it is below the target, or right to the target. -/
inductive Rises (H : Hierarchy) (R : Term → Term → Prop) : Term → Term → Prop where
  | taken {element B : Term} (hB : B.TakesArrays H) : Rises H R (.array element) B
  | same {element B : Term} (hB : B.TakesElements H element) :
      Rises H R (.array element) B
  | element {element element' B : Term} (hB : B.TakesElements H element')
      (hreference : element.isReference H = true) (h : R element element') :
      Rises H R (.array element) B
  | valueType {p : Handle} {demands : Demands} {B : Term}
      (hp : H.parameter? p = some demands) (hvalue : demands.valueType = true)
      (hB : B.tag? H = some .valueType) : Rises H R (.atom p) B
  | bound {p : Handle} {demands : Demands} {bound B : Term}
      (hp : H.parameter? p = some demands) (hmem : bound ∈ demands.bounds)
      (h : R bound B) : Rises H R (.atom p) B
  | direct {A S : Term} (hS : H.Supertype A S) : Rises H R A S
  | supertype {A S B : Term} (hS : H.Supertype A S) (h : R S B) : Rises H R A B

namespace Rises

theorem array_iff {E : Term} : H.Rises R (.array E) B ↔
    B.TakesArrays H ∨ ∃ E', B.TakesElements H E' ∧
      (E = E' ∨ E.isReference H = true ∧ R E E') := by
  constructor
  · intro h
    cases h with
    | taken hB => exact .inl hB
    | same hB => exact .inr ⟨E, hB, .inl rfl⟩
    | element hB hreference h => exact .inr ⟨_, hB, .inr ⟨hreference, h⟩⟩
    | direct hS => cases hS
    | supertype hS => cases hS
  · rintro (hB | ⟨E', hB, rfl | ⟨hreference, h⟩⟩)
    · exact .taken hB
    · exact .same hB
    · exact .element hB hreference h

theorem parameter_iff {p : Handle} {demands : Demands}
    (hp : H.parameter? p = some demands) (hd : H.definition? p = none) :
    H.Rises R (.atom p) B ↔
      (demands.valueType = true ∧ B.tag? H = some .valueType) ∨
        ∃ bound ∈ demands.bounds, R bound B := by
  have hsuper : ∀ S, ¬H.Supertype (.atom p) S := by
    rintro S ⟨hd', -⟩
    simp [hd] at hd'
  constructor
  · intro h
    cases h with
    | valueType hp' hvalue hB =>
        obtain rfl := Option.some.inj (hp.symm.trans hp')
        exact .inl ⟨hvalue, hB⟩
    | bound hp' hmem h =>
        obtain rfl := Option.some.inj (hp.symm.trans hp')
        exact .inr ⟨_, hmem, h⟩
    | direct hS => exact absurd hS (hsuper _)
    | supertype hS => exact absurd hS (hsuper _)
  · rintro (⟨hvalue, hB⟩ | ⟨bound, hmem, h⟩)
    · exact .valueType hp hvalue hB
    · exact .bound hp hmem h

/-- A type that is neither an array nor a type parameter rises to its
supertypes. -/
theorem supertype_iff (harray : ∀ E, A ≠ .array E)
    (hparameter : ∀ p, A = .atom p → H.parameter? p = none) :
    H.Rises R A B ↔ ∃ S, H.Supertype A S ∧ (S = B ∨ R S B) := by
  constructor
  · intro h
    cases h with
    | taken | same | element => exact absurd rfl (harray _)
    | valueType hp => simp [hparameter _ rfl] at hp
    | bound hp => simp [hparameter _ rfl] at hp
    | direct hS => exact ⟨B, hS, .inl rfl⟩
    | supertype hS h => exact ⟨_, hS, .inr h⟩
  · rintro ⟨S, hS, rfl | h⟩
    · exact .direct hS
    · exact .supertype hS h

theorem mono (hR : ∀ {A B}, R A B → R' A B) (h : H.Rises R A B) :
    H.Rises R' A B := by
  cases h with
  | taken hB => exact .taken hB
  | same hB => exact .same hB
  | element hB hreference h => exact .element hB hreference (hR h)
  | valueType hp hvalue hB => exact .valueType hp hvalue hB
  | bound hp hmem h => exact .bound hp hmem (hR h)
  | direct hS => exact .direct hS
  | supertype hS h => exact .supertype hS (hR h)

end Rises

/-- The source is below the target, where a walk goes up at most the given
number of levels. -/
def Below (H : Hierarchy) : Nat → Term → Term → Prop
  | 0, A, B => A = B ∧ A.Known H
  | levels + 1, A, B => (A = B ∧ A.Known H) ∨
      H.Meets A B ∧ (B.tag? H = some .object ∨ H.Rises (Below H levels) A B)

namespace Below

theorem refl {levels : Nat} (hA : A.Known H) : H.Below levels A A := by
  cases levels with
  | zero => exact ⟨rfl, hA⟩
  | succ levels => exact .inl ⟨rfl, hA⟩

theorem succ {levels : Nat} (h : H.Below levels A B) :
    H.Below (levels + 1) A B := by
  induction levels generalizing A B with
  | zero => exact .inl h
  | succ levels ih =>
      rcases h with h | ⟨hmeets, h⟩
      · exact .inl h
      · exact .inr ⟨hmeets, h.imp_right (Rises.mono ih)⟩

theorem mono {m n : Nat} (hmn : m ≤ n) (h : H.Below m A B) :
    H.Below n A B := by
  induction hmn with
  | refl => exact h
  | step _ ih => exact ih.succ

/-- Whatever is above a type is the type itself or of a known kind. -/
theorem eq_or_target {levels : Nat} (h : H.Below levels A B) :
    A = B ∨ Table.isInertTarget (B.kind H) = false := by
  cases levels with
  | zero => exact .inl h.1
  | succ levels => exact h.imp And.left fun h => h.1.target

end Below

/-! ## Transitivity -/

/-- Every flat type in the term is bound. -/
abbrev Bound (H : Hierarchy) : Term → Prop :=
  Term.Over fun h => H.parameter? h = none

theorem Bound.of_takesElements {E : Term} (hB : H.Bound B)
    (h : B.TakesElements H E) : H.Bound E := by
  cases h with
  | array => exact Term.over_array_iff.mp hB
  | collection => exact (Term.over_applied_iff.mp hB).2 E (by simp)

/-- What stands at the top of a hierarchy.  The object type is above the types
above which no array stands, and the collections that arrays provide have none
but such collections over the same element type above them. -/
structure Topped (H : Hierarchy) : Prop where
  bound : ∀ {h b}, H.tag? h = some b → H.parameter? h = none
  object : ∀ {h S}, H.tag? h = some .object → ¬H.Supertype (.atom h) S
  sequence : ∀ {h S}, H.tag? h = some .iEnumerable → ¬H.Supertype (.atom h) S
  array : ∀ {h S}, H.tag? h = some .array → H.Supertype (.atom h) S →
    S.tag? H = some .object ∨ S.tag? H = some .iEnumerable
  valueType : ∀ {h S}, H.tag? h = some .valueType →
    H.Supertype (.atom h) S → S.tag? H = some .object
  collection : ∀ {h element rest S},
    Table.isArrayCollection (H.tag? h) = true → H.Bound element →
    H.Supertype (.applied (.atom h) (element :: rest)) S →
    S.tag? H = some .iEnumerable ∨
      ∃ k, Table.isArrayCollection (H.tag? k) = true ∧
        S = .applied (.atom k) [element]

theorem exists_atom_of_tag? {b : BuiltIn} (h : A.tag? H = some b) :
    ∃ k, A = .atom k ∧ H.tag? k = some b := by
  cases A with
  | atom k => exact ⟨k, rfl, h⟩
  | array | applied => cases h

namespace Topped

variable (hH : H.Topped)
include hH

/-- One step from a flat type that stands for a built-in type is one to a
supertype. -/
theorem supertype_of_rises {h : Handle} {b : BuiltIn}
    (hb : H.tag? h = some b) (hr : H.Rises R (.atom h) B) :
    ∃ S, H.Supertype (.atom h) S ∧ (S = B ∨ R S B) := by
  refine (Rises.supertype_iff (by simp) ?_).mp hr
  rintro _ ⟨⟩
  exact hH.bound hb

theorem tag?_of_below_object {levels : Nat} (hA : A.tag? H = some .object)
    (h : H.Below levels A B) : B.tag? H = some .object := by
  obtain ⟨k, rfl, hk⟩ := exists_atom_of_tag? hA
  cases levels with
  | zero => rwa [← h.1]
  | succ levels =>
      rcases h with h | ⟨-, h | h⟩
      · rwa [← h.1]
      · exact h
      · obtain ⟨S, hS, -⟩ := hH.supertype_of_rises hk h
        exact absurd hS (hH.object hk)

/-- Above the types that take every array stand only such types and the object
type. -/
theorem takesArrays_of_below {levels : Nat} (hA : A.TakesArrays H)
    (h : H.Below levels A B) : B.tag? H = some .object ∨ B.TakesArrays H := by
  induction levels generalizing A with
  | zero => exact .inr (h.1 ▸ hA)
  | succ levels ih =>
      rcases h with h | ⟨-, h | h⟩
      · exact .inr (h.1 ▸ hA)
      · exact .inl h
      · have hstep : ∀ S, S.tag? H = some .object ∨ S.tag? H = some .iEnumerable →
            S = B ∨ H.Below levels S B →
            B.tag? H = some .object ∨ B.TakesArrays H := by
          rintro S (hS | hS) (rfl | h)
          · exact .inl hS
          · exact .inl (hH.tag?_of_below_object hS h)
          · exact .inr (.inr hS)
          · exact ih (.inr hS) h
        rcases hA with hA | hA
        · obtain ⟨k, rfl, hk⟩ := exists_atom_of_tag? hA
          obtain ⟨S, hS, h⟩ := hH.supertype_of_rises hk h
          exact hstep S (hH.array hk hS) h
        · obtain ⟨k, rfl, hk⟩ := exists_atom_of_tag? hA
          obtain ⟨S, hS, -⟩ := hH.supertype_of_rises hk h
          exact absurd hS (hH.sequence hk)

theorem valueType_of_below {levels : Nat} (hA : A.tag? H = some .valueType)
    (h : H.Below levels A B) :
    B.tag? H = some .object ∨ B.tag? H = some .valueType := by
  obtain ⟨k, rfl, hk⟩ := exists_atom_of_tag? hA
  cases levels with
  | zero => exact .inr (h.1 ▸ hA)
  | succ levels =>
      rcases h with h | ⟨-, h | h⟩
      · exact .inr (h.1 ▸ hA)
      · exact .inl h
      · obtain ⟨S, hS, rfl | h⟩ := hH.supertype_of_rises hk h
        · exact .inl (hH.valueType hk hS)
        · exact .inl (hH.tag?_of_below_object (hH.valueType hk hS) h)

/-- Above a collection over an element type stand only collections over the same
element type and the types that take every array. -/
theorem takesElements_of_below {levels : Nat} {h : Handle} {E : Term}
    {rest : List Term} (hh : Table.isArrayCollection (H.tag? h) = true)
    (hE : H.Bound E)
    (hb : H.Below levels (.applied (.atom h) (E :: rest)) B) :
    B.tag? H = some .object ∨ B.TakesArrays H ∨ B.TakesElements H E := by
  induction levels generalizing h rest with
  | zero => exact .inr (.inr (hb.1 ▸ .collection hh))
  | succ levels ih =>
      rcases hb with hb | ⟨-, hb | hb⟩
      · exact .inr (.inr (hb.1 ▸ .collection hh))
      · exact .inl hb
      · cases hb with
        | direct hS =>
            rcases hH.collection hh hE hS with hS | ⟨k, hk, rfl⟩
            · exact .inr (.inl (.inr hS))
            · exact .inr (.inr (.collection hk))
        | supertype hS hb =>
            rcases hH.collection hh hE hS with hS | ⟨k, hk, rfl⟩
            · exact (hH.takesArrays_of_below (.inr hS) hb).imp_right .inl
            · exact ih hk hb

/-- Whatever is above a type to which arrays of some element type are assignable
is the object type, or takes arrays of the same or of a higher element type. -/
theorem takesElements_or_of_below {levels : Nat} {E : Term}
    (hB : B.TakesElements H E) (hE : H.Bound E) (h : H.Below levels B C) :
    C.tag? H = some .object ∨ C.TakesArrays H ∨ ∃ E', C.TakesElements H E' ∧
      (E = E' ∨ E.isReference H = true ∧ H.Below levels E E') := by
  cases hB with
  | collection hd =>
      rename_i definition rest
      cases definition with
      | array | applied => cases hd
      | atom k =>
          exact (hH.takesElements_of_below hd hE h).imp_right fun h =>
            h.imp_right fun hC => ⟨E, hC, .inl rfl⟩
  | array =>
      cases levels with
      | zero => exact .inr (.inr ⟨E, h.1 ▸ .array, .inl rfl⟩)
      | succ levels =>
          rcases h with h | ⟨-, h | h⟩
          · exact .inr (.inr ⟨E, h.1 ▸ .array, .inl rfl⟩)
          · exact .inl h
          · cases h with
            | taken hC => exact .inr (.inl hC)
            | same hC => exact .inr (.inr ⟨E, hC, .inl rfl⟩)
            | element hC hreference h =>
                exact .inr (.inr ⟨_, hC, .inr ⟨hreference, h.succ⟩⟩)
            | direct hS => cases hS
            | supertype hS => cases hS

end Topped

theorem Meets.trans_below {levels : Nat} (hAB : H.Meets A B)
    (hBC : H.Below levels B C) : H.Meets A C :=
  ⟨hAB.source, hBC.eq_or_target.elim (fun h => h ▸ hAB.target) id⟩

/-- Being below is transitive when the types above are bound. -/
theorem Below.trans (hH : H.Topped) {m n : Nat} (hB : H.Bound B)
    (hC : H.Bound C) (hAB : H.Below m A B) (hBC : H.Below n B C) :
    H.Below (m + n) A C := by
  -- The induction is on the levels of the walk from A, which is also the one
  -- that starts the walk from A to C; only arrays make it look into the other.
  induction m generalizing n A B C with
  | zero =>
      obtain ⟨rfl, -⟩ := hAB
      exact hBC.mono (by omega)
  | succ m ih =>
      rcases hAB with ⟨rfl, -⟩ | ⟨hmeets, hAB⟩
      · exact hBC.mono (by omega)
      rw [show m + 1 + n = m + n + 1 by omega]
      have hrises : C.tag? H = some .object ∨ H.Rises (H.Below (m + n)) A C := by
        rcases hAB with hB | hAB
        · exact .inl (hH.tag?_of_below_object hB hBC)
        cases hAB with
        | taken hB => exact (hH.takesArrays_of_below hB hBC).imp_right .taken
        | @same E _ htakes =>
            rcases hH.takesElements_or_of_below htakes (hB.of_takesElements htakes)
              hBC with h | h | ⟨E', h, rfl | ⟨hreference, he⟩⟩
            · exact .inl h
            · exact .inr (.taken h)
            · exact .inr (.same h)
            · exact .inr (.element h hreference (he.mono (by omega)))
        | @element E E' _ htakes hreference hE =>
            have hE' := hB.of_takesElements htakes
            rcases hH.takesElements_or_of_below htakes hE' hBC with
              h | h | ⟨E'', h, rfl | ⟨-, he⟩⟩
            · exact .inl h
            · exact .inr (.taken h)
            · exact .inr (.element h hreference (hE.mono (by omega)))
            · exact .inr (.element h hreference
                (ih hE' (hC.of_takesElements h) hE he))
        | valueType hp hvalue hB =>
            exact (hH.valueType_of_below hB hBC).imp_right (.valueType hp hvalue)
        | bound hp hmem h => exact .inr (.bound hp hmem (ih hB hC h hBC))
        | direct hS => exact .inr (.supertype hS (hBC.mono (by omega)))
        | supertype hS h => exact .inr (.supertype hS (ih hB hC h hBC))
      exact .inr ⟨hmeets.trans_below hBC, hrises⟩

end Verdicts.Hierarchy
