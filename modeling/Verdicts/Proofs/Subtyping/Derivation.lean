import Verdicts.Proofs.Subtyping.Walk

/-!
# Derivations of being below a type

The subtype relation of the language, by its rules: a derivation ends in one of
them and has a derivation for another pair of types above it, or none.  The
relation knows no limit; supertypes, interfaces and constraints may be cyclic,
and those of a generic type may go on growing.

The walk of assignability is bounded.  What it accepts has a derivation, and it
finds every derivation of at most as many levels as it may go up.
-/

namespace Verdicts

namespace Hierarchy

variable {H : Hierarchy} {A B : Term} {n : Nat}

/-- Both types are known, and their kinds leave room for more than identity. -/
structure Comparable (H : Hierarchy) (A B : Term) : Prop
    extends H.Meets A B where
  known_source : A.Known H
  known_target : B.Known H

/-- The source is below the target, by a derivation of the given height. -/
inductive Derivation (H : Hierarchy) : Nat → Term → Term → Prop where
  /-- A known type is below itself. -/
  | refl {A : Term} (hA : A.Known H) : Derivation H 0 A A
  /-- Everything is below the object type. -/
  | object {A B : Term} (hAB : H.Comparable A B)
      (hB : B.tag? H = some .object) : Derivation H 0 A B
  /-- A type is below its direct supertypes, ... -/
  | direct {A B : Term} (hAB : H.Comparable A B) (hS : H.Supertype A B) :
      Derivation H 0 A B
  /-- ... and below what these are below. -/
  | supertype {n : Nat} {A S B : Term} (hAB : H.Comparable A B)
      (hS : H.Supertype A S) (h : Derivation H n S B) :
      Derivation H (n + 1) A B
  /-- Every array is below the types that take all of them, ... -/
  | array {E B : Term} (hAB : H.Comparable (.array E) B)
      (hB : B.TakesArrays H) : Derivation H 0 (.array E) B
  /-- ... below the arrays and collections of its element type, ... -/
  | element {E B : Term} (hAB : H.Comparable (.array E) B)
      (hB : B.TakesElements H E) : Derivation H 0 (.array E) B
  /-- ... and, if the elements are references, below those of a type that the
  element type is below. -/
  | covariant {n : Nat} {E E' B : Term} (hAB : H.Comparable (.array E) B)
      (hB : B.TakesElements H E') (hE : E.isReference H = true)
      (h : Derivation H n E E') : Derivation H (n + 1) (.array E) B
  /-- A type parameter for value types is below the type of these. -/
  | valueType {p : Handle} {demands : Demands} {B : Term}
      (hAB : H.Comparable (.atom p) B) (hp : H.parameter? p = some demands)
      (hvalue : demands.valueType = true) (hB : B.tag? H = some .valueType) :
      Derivation H 0 (.atom p) B
  /-- A type parameter is below what one of its constraint types is below. -/
  | bound {n : Nat} {p : Handle} {demands : Demands} {bound B : Term}
      (hAB : H.Comparable (.atom p) B) (hp : H.parameter? p = some demands)
      (hbound : bound ∈ demands.bounds) (h : Derivation H n bound B) :
      Derivation H (n + 1) (.atom p) B

/-- What has a derivation is found within one level more than its height, since
the last rule takes a level itself. -/
theorem below_of_derivation (h : H.Derivation n A B) : H.Below (n + 1) A B := by
  induction h with
  | refl hA => exact .refl hA
  | object hAB hB => exact .inr ⟨hAB.toMeets, .inl hB⟩
  | direct hAB hS => exact .inr ⟨hAB.toMeets, .inr (.direct hS)⟩
  | supertype hAB hS _ ih => exact .inr ⟨hAB.toMeets, .inr (.supertype hS ih)⟩
  | array hAB hB => exact .inr ⟨hAB.toMeets, .inr (.taken hB)⟩
  | element hAB hB => exact .inr ⟨hAB.toMeets, .inr (.same hB)⟩
  | covariant hAB hB hE _ ih =>
      exact .inr ⟨hAB.toMeets, .inr (.element hB hE ih)⟩
  | valueType hAB hp hvalue hB =>
      exact .inr ⟨hAB.toMeets, .inr (.valueType hp hvalue hB)⟩
  | bound hAB hp hbound _ ih =>
      exact .inr ⟨hAB.toMeets, .inr (.bound hp hbound ih)⟩

theorem known_of_derivation (h : H.Derivation n A B) :
    A.Known H ∧ B.Known H := by
  cases h with
  | refl hA => exact ⟨hA, hA⟩
  | object hAB | direct hAB | supertype hAB | array hAB | element hAB
    | covariant hAB | valueType hAB | bound hAB =>
      exact ⟨hAB.known_source, hAB.known_target⟩

/-- Flat types that are not known are of unknown kind. -/
def KnowsKinds (H : Hierarchy) : Prop :=
  ∀ h, H.kind h ≠ .unknown → H.knows h = true

theorem KnowsKinds.known (hH : H.KnowsKinds) (hA : A.kind H ≠ .unknown) :
    A.Known H := by
  cases A with
  | atom h => exact hH h hA
  | array | applied => trivial

theorem KnowsKinds.comparable (hH : H.KnowsKinds) (hAB : H.Meets A B) :
    H.Comparable A B where
  toMeets := hAB
  known_source := hH.known fun hA => by
    have hsource := hAB.source
    rw [hA] at hsource
    cases hsource
  known_target := hH.known fun hB => by
    have htarget := hAB.target
    rw [hB] at htarget
    cases htarget

/-- What is below a type within some levels has a derivation of at most that
height. -/
theorem exists_derivation (hH : H.KnowsKinds) (h : H.Below n A B) :
    ∃ m, m ≤ n ∧ H.Derivation m A B := by
  induction n generalizing A B with
  | zero =>
      obtain ⟨rfl, hA⟩ := h
      exact ⟨0, le_rfl, .refl hA⟩
  | succ n ih =>
      rcases h with ⟨rfl, hA⟩ | ⟨hmeets, hB | hrises⟩
      · exact ⟨0, n.succ.zero_le, .refl hA⟩
      · exact ⟨0, n.succ.zero_le, .object (hH.comparable hmeets) hB⟩
      have hAB := hH.comparable hmeets
      cases hrises with
      | taken hB => exact ⟨0, n.succ.zero_le, .array hAB hB⟩
      | same hB => exact ⟨0, n.succ.zero_le, .element hAB hB⟩
      | element hB hE h =>
          obtain ⟨m, hm, h⟩ := ih h
          exact ⟨m + 1, Nat.succ_le_succ hm, .covariant hAB hB hE h⟩
      | valueType hp hvalue hB =>
          exact ⟨0, n.succ.zero_le, .valueType hAB hp hvalue hB⟩
      | bound hp hbound h =>
          obtain ⟨m, hm, h⟩ := ih h
          exact ⟨m + 1, Nat.succ_le_succ hm, .bound hAB hp hbound h⟩
      | direct hS => exact ⟨0, n.succ.zero_le, .direct hAB hS⟩
      | supertype hS h =>
          obtain ⟨m, hm, h⟩ := ih h
          exact ⟨m + 1, Nat.succ_le_succ hm, .supertype hAB hS h⟩

end Hierarchy

namespace Table

variable {foreign : Handle → Prop} {t : Table} {a b : Handle}

theorem knowsKinds_hierarchy (t : Table) : t.hierarchy.KnowsKinds := by
  intro h hkind
  change (t.flat? h).isSome = true
  by_contra hnone
  rw [Bool.not_eq_true, Option.isSome_eq_false_iff, Option.isNone_iff_eq_none]
    at hnone
  apply hkind
  unfold hierarchy
  dsimp only
  rw [hnone]

/-- Only known types take part in assignability. -/
theorem knows_of_assignable (h : (assignable a b t).1 = true) :
    t.knows a = true ∧ t.knows b = true := by
  by_cases heq : a = b
  · rw [← heq, assignable, assignableWithin_self] at h
    exact heq ▸ ⟨h, h⟩
  by_contra hnot
  have hinert :
      (isInertSource (t.kind a) || isInertTarget (t.kind b)) = true := by
    rw [not_and_or, Bool.not_eq_true, Bool.not_eq_true] at hnot
    rcases hnot with ha | hb
    · rw [kind_of_unknown (knows_eq_false_iff.mp ha)]
      rfl
    · rw [kind_of_unknown (knows_eq_false_iff.mp hb), Bool.or_eq_true]
      exact .inr rfl
  rw [assignable, assignableWithin, bind_apply, get_apply] at h
  dsimp only at h
  rw [if_neg heq, if_pos hinert] at h
  cases h

/-- The walk of assignability decides the subtype relation up to its limit: what
it accepts has a derivation, and it accepts whatever has a derivation of a
height up to the limit. -/
theorem Reachable.assignable_decides (hr : t.Reachable foreign)
    (havoids : (assignable a b t).2.Avoids foreign) :
    ((assignable a b t).1 = true →
      ∃ n, t.hierarchy.Derivation n (t.denote a) (t.denote b)) ∧
    ∀ n ≤ depthLimit, t.hierarchy.Derivation n (t.denote a) (t.denote b) →
      (assignable a b t).1 = true := by
  have ht : t.Sound foreign := ⟨hr.wellFormed, hr.avoids⟩
  have hiff : t.knows a = true → t.knows b = true →
      ((assignable a b t).1 = true ↔
        t.hierarchy.Below (depthLimit + 1) (t.denote a) (t.denote b)) :=
    fun ha hb => ht.assignableWithin_iff (.inl ha) (.inl hb) havoids
  constructor
  · intro h
    obtain ⟨ha, hb⟩ := knows_of_assignable h
    obtain ⟨n, -, hn⟩ := Hierarchy.exists_derivation t.knowsKinds_hierarchy
      ((hiff ha hb).mp h)
    exact ⟨n, hn⟩
  · intro n hle hn
    have hknown := Hierarchy.known_of_derivation hn
    rw [known_denote_iff ht, known_denote_iff ht] at hknown
    rw [hiff hknown.1 hknown.2]
    exact (Hierarchy.below_of_derivation hn).mono (Nat.succ_le_succ hle)

/-- Handles that are all the table's own may be handed to an operation. -/
theorem Operation.Permitted.of_all {op : Operation}
    (h : (op.handed ++ op.visible).all t.knows = true) :
    op.Permitted foreign t := by
  rw [List.all_append, Bool.and_eq_true, List.all_eq_true, List.all_eq_true] at h
  exact ⟨fun c hc => .inl (h.1 c hc), h.2⟩

/-- Each operation is handed handles that the table has given out by then. -/
def takesOwn (t : Table) : List Operation → Bool
  | [] => true
  | op :: rest =>
      (op.handed ++ op.visible).all t.knows && takesOwn (op.run t).2 rest

theorem run_of_takesOwn {operations : List Operation}
    (h : t.takesOwn operations = true) :
    Run foreign t (operations.foldl (fun t op => (op.run t).2) t) := by
  induction operations generalizing t with
  | nil => exact .refl _
  | cons op rest ih =>
      rw [takesOwn, Bool.and_eq_true] at h
      exact .step op (.of_all h.1) (ih h.2)

/-- A generic interface over `T` that extends itself over `T[]` has ever larger
supertypes; the one over `T[][]` is found. -/
theorem Reachable.assignable_decides_growing :
    let grow : Declaration :=
      { name := "Grow`1", kind := .interface, parameters := [("T", .none)] }
    let operations : List Operation :=
      [.declare grow,
        .arrayOf ⟨1⟩, .construct ⟨2⟩ [⟨3⟩], .addInterface ⟨2⟩ ⟨4⟩,
        .arrayOf ⟨3⟩, .construct ⟨2⟩ [⟨5⟩]]
    let t := operations.foldl (fun t op => (op.run t).2) empty
    t.Reachable (fun h => h.index = 0) ∧ (assignable ⟨2⟩ ⟨6⟩ t).1 = true ∧
      ∃ n, t.hierarchy.Derivation n (t.denote ⟨2⟩) (t.denote ⟨6⟩) := by
  intro grow operations t
  have hrun : Run (fun h => h.index = 0) empty t :=
    .step _ (.of_all (by decide +kernel))
      (.step _ (.of_all (by decide +kernel))
        (.step _ (.of_all (by decide +kernel))
          (.step _ (.of_all (by decide +kernel))
            (.step _ (.of_all (by decide +kernel))
              (.step _ (.of_all (by decide +kernel)) (.refl t))))))
  have hr : t.Reachable fun h => h.index = 0 := ⟨.inl hrun, avoids_zero t⟩
  have hassignable : (assignable ⟨2⟩ ⟨6⟩ t).1 = true := by decide +kernel
  have hdecides := Reachable.assignable_decides hr (a := ⟨2⟩) (b := ⟨6⟩)
    (avoids_zero _)
  exact ⟨hr, hassignable, hdecides.1 hassignable⟩

end Table

end Verdicts
