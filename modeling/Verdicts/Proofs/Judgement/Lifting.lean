import Verdicts.Proofs.Judgement.Interference
import Verdicts.Proofs.Judgement.Snapshots
import Verdicts.Proofs.Subtyping.Values

/-!
# Value types and the nullable types over them

Data of a value type binds to another one by a conversion between numbers only,
and to or from a nullable type by the conversion of what underlies it.  So a
verdict on two value types does not change when either is made nullable.  The
only exception are floating-point numbers, which the framework does not convert
to characters, but does convert to nullable ones.
-/

namespace Verdicts

theorem BuiltIn.isNumeric_of_isFloating {b : BuiltIn}
    (h : b.isFloating = true) : b.isNumeric = true := by
  rw [isNumeric, h, Bool.or_true]
  rfl

namespace Table

variable {foreign : Handle → Prop} {t : Table} {s d s' d' a : Handle}

/-! ## Conversions between value types -/

theorem kind_of_parameter {name : String} {c : Constraints}
    (hs : t.shape? s = some (.parameter name c)) :
    t.kind s = .typeParameter := by
  rw [kind, head_of_not_constructed (by simp [hs]), hs]

theorem isReferenceType_of_isValue (hs : (t.kind s).IsValue) :
    t.isReferenceType s = false := by
  unfold isReferenceType
  split
  · next hshape => exact absurd (kind_of_parameter hshape) hs.ne_typeParameter
  · rcases hs with hs | hs <;> rw [hs]
  · rfl

theorem explicitConversion_of_isValue (hs : (t.kind s).IsValue)
    (hdefined : t.conversion? s d = none) :
    (explicitConversion s d t).1 =
      if t.areNumeric s d then some ⟨.explicit, .numeric⟩
      else if t.convertsEnum s d then some ⟨.explicit, .enumeration⟩
      else if t.unlifts s d then some ⟨.explicit, .nullable⟩
      else none := by
  have hreference := isReferenceType_of_isValue hs
  have hunboxes : t.unboxes s d = pure false := by
    rw [unboxes, hreference, Bool.and_false]
    rfl
  have hrefers : t.refers s d = pure false := by
    rw [refers, hreference, Bool.false_and]
    rfl
  rw [explicitConversion_apply, hunboxes, hrefers, hdefined]
  simp only [pure_apply, Option.isSome_none, Bool.false_eq_true, if_false]
  split_ifs <;> rfl

/-- The rules that apply between different value types of which the one is not
assignable to the other. -/
theorem conversion_of_isValue (hs : (t.kind s).IsValue)
    (hd : (t.kind d).IsValue) (hne : s ≠ d)
    (hassignable : (assignable s d t).1 = false)
    (hdefined : t.conversion? s d = none) :
    (conversion s d t).1 =
      if t.widens s d then some ⟨.implicit, .numeric⟩
      else if t.lifts s d then some ⟨.implicit, .nullable⟩
      else if t.areNumeric s d then some ⟨.explicit, .numeric⟩
      else if t.convertsEnum s d then some ⟨.explicit, .enumeration⟩
      else if t.unlifts s d then some ⟨.explicit, .nullable⟩
      else none := by
  have himplicit := implicitConversion_apply s d t
  have g : t.GrowsTo (implicitConversion s d t).2 :=
    interns_implicitConversion s d t
  rw [hassignable, hdefined] at himplicit
  rw [conversion_apply hs.ne_unknown hd.ne_unknown hne]
  rcases hrun : implicitConversion s d t with ⟨c, u⟩
  rw [hrun] at himplicit g
  dsimp only at himplicit g
  subst himplicit
  by_cases hwidens : t.widens s d = true
  · rw [if_pos hwidens, if_pos hwidens]
  by_cases hlifts : t.lifts s d = true
  · rw [if_neg hwidens, if_pos hlifts, if_neg hwidens, if_pos hlifts]
  rw [if_neg hwidens, if_neg hlifts, if_neg hwidens, if_neg hlifts]
  -- What the explicit rules read has not changed meanwhile.
  have hks := knows_of_kind_ne_unknown hs.ne_unknown
  have hkd := knows_of_kind_ne_unknown hd.ne_unknown
  have hkind := g.kind_eq hs.ne_unknown
  have hkind' := g.kind_eq hd.ne_unknown
  have hnumeric : u.areNumeric = t.areNumeric := by
    funext a b
    rw [areNumeric, areNumeric, g.tag?_eq, g.tag?_eq]
  have henum : u.convertsEnum s d = t.convertsEnum s d := by
    simp only [convertsEnum, hkind, hkind', g.tag?_eq]
  have hunlifts : u.unlifts s d = t.unlifts s d := by
    rw [unlifts, unlifts, g.nullableUnderlying?_eq hks,
      g.nullableUnderlying?_eq hkd, hnumeric]
  have hexplicit : (explicitConversion s d u).1 = _ :=
    explicitConversion_of_isValue (hkind ▸ hs)
      ((g.conversion?_eq s d).trans hdefined)
  rw [hnumeric, henum, hunlifts] at hexplicit
  exact hexplicit

/-! ## Nullable types -/

/-- The type without its nullable layer, if it has one. -/
def bare (t : Table) (h : Handle) : Handle :=
  (t.nullableUnderlying? h).getD h

theorem bare_of_none (ha : t.nullableUnderlying? a = none) : t.bare a = a := by
  rw [bare, ha, Option.getD_none]

theorem bare_of_some (hs : t.nullableUnderlying? s = some a) : t.bare s = a := by
  rw [bare, hs, Option.getD_some]

theorem shape?_of_nullableUnderlying? (hs : t.nullableUnderlying? s = some a) :
    ∃ definition rest, t.shape? s = some (.constructed definition (a :: rest)) ∧
      t.tag? definition = some .nullableT := by
  unfold nullableUnderlying? at hs
  split at hs
  · next definition arguments hshape =>
      split at hs
      · next htag =>
          obtain ⟨rest, rfl⟩ := List.head?_eq_some_iff.mp hs
          exact ⟨definition, rest, hshape, htag⟩
      · cases hs
  · cases hs

theorem tag?_of_nullableUnderlying? (hs : t.nullableUnderlying? s = some a) :
    t.tag? s = none := by
  obtain ⟨definition, rest, hshape, -⟩ := shape?_of_nullableUnderlying? hs
  rw [tag?, definition?, hshape]
  rfl

/-- A value type made nullable is a nullable type over it. -/
theorem nullableUnderlying?_nullableOf (w : t.WellFormed foreign)
    (ha : (t.kind a).IsValue) (hs : (nullableOf a t).1 = some s) :
    (nullableOf a t).2.nullableUnderlying? s = some a := by
  unfold nullableOf at hs ⊢
  rw [bind_apply, get_apply] at hs ⊢
  cases hd : t.builtIn? .nullableT with
  | none =>
      simp only [hd, pure_apply] at hs
      cases hs
  | some definition =>
      simp only [hd, map_apply] at hs ⊢
      obtain rfl := Option.some.inj hs
      rcases construct_cases definition [a] t with ⟨hown, -⟩ | hshape
      · -- The definition itself is not over a value type.
        obtain ⟨d, hd, hparameters⟩ := ownsAll_iff.mp hown
        obtain ⟨name, c, hparameter⟩ :=
          (w.owned hd).parameter a (by simp [hparameters])
        exact absurd (kind_of_parameter hparameter) ha.ne_typeParameter
      · have g : t.GrowsTo (construct definition [a] t).2 :=
          interns_construct definition [a] t
        have htag := (g.tag?_eq definition).trans (tag?_of_builtIn? hd)
        rw [nullableUnderlying?, hshape]
        simp only [htag, if_true, List.head?_cons]

/-- Where the table has it already, it is so before it is asked for again. -/
theorem nullableUnderlying?_of_nullableOf (w : t.WellFormed foreign)
    (ha : (t.kind a).IsValue) (hs : (nullableOf a t).1 = some s)
    (hk : t.knows s = true) : t.nullableUnderlying? s = some a := by
  have g : t.GrowsTo (nullableOf a t).2 := interns_nullableOf a t
  rw [← g.nullableUnderlying?_eq hk]
  exact nullableUnderlying?_nullableOf w ha hs

theorem KeepsKinds.kind_of_nullableUnderlying? (hk : t.KeepsKinds)
    (ht : t.Sound foreign) (hs : t.nullableUnderlying? s = some a) :
    t.kind s = .struct := by
  obtain ⟨definition, rest, hshape, htag⟩ := shape?_of_nullableUnderlying? hs
  rw [kind_of_constructed ht.wellFormed ht.avoids hshape]
  exact hk.nullable htag

/-- A named type is not nullable. -/
theorem not_isTemporal_of_nullableUnderlying?
    (hs : t.nullableUnderlying? s = some a) : ¬ t.IsTemporal s := by
  obtain ⟨definition, rest, hshape, -⟩ := shape?_of_nullableUnderlying? hs
  have hunnamed : ∀ name, t.named? name ≠ some s := by
    intro name h
    obtain ⟨e, he, -⟩ := definition?_of_named? h
    cases hshape.symm.trans he
  exact fun h => h.elim (hunnamed _) (hunnamed _)

/-- Two value types that are not nullable, of which the target takes more than
strings, and the nullable types over them. -/
structure Lifting (t : Table) (s d s' d' : Handle) : Prop where
  source : (t.kind s).IsValue
  target : (t.kind d).IsValue
  plainSource : t.nullableUnderlying? s = none
  plainTarget : t.nullableUnderlying? d = none
  tag : t.tag? d ≠ some .dateTime
  notTemporal : ¬ t.IsTemporal d
  overSource : t.nullableUnderlying? s' = some s
  overTarget : t.nullableUnderlying? d' = some d

/-- Two value types that are not nullable, of which the target takes more than
strings, and what the table stores when it makes them nullable. -/
def Lifted (t : Table) (s d s' d' : Handle) : Prop :=
  ((t.kind s).IsValue ∧ (t.kind d).IsValue) ∧
    (t.nullableUnderlying? s = none ∧ t.nullableUnderlying? d = none) ∧
    (t.tag? d ≠ some .dateTime ∧ ¬ t.IsTemporal d) ∧
    ((nullableOf s t).1 = some s' ∧ (nullableOf d t).1 = some d') ∧
    t.knows s' = true ∧ t.knows d' = true

theorem Lifted.lifting (w : t.WellFormed foreign) (h : t.Lifted s d s' d') :
    t.Lifting s d s' d' := by
  obtain ⟨⟨hs, hd⟩, ⟨hplain, hplain'⟩, ⟨htag, htemporal⟩, ⟨hover, hover'⟩,
    hknown, hknown'⟩ := h
  exact ⟨hs, hd, hplain, hplain', htag, htemporal,
    nullableUnderlying?_of_nullableOf w hs hover hknown,
    nullableUnderlying?_of_nullableOf w hd hover' hknown'⟩

instance (t : Table) (d : Handle) : Decidable (t.IsTemporal d) :=
  inferInstanceAs (Decidable (_ ∨ _))

instance (t : Table) (s d s' d' : Handle) : Decidable (t.Lifted s d s' d') :=
  inferInstanceAs (Decidable (_ ∧ _))

/-- One of the types is nullable. -/
def HasNullable (t : Table) (s d : Handle) : Prop :=
  t.nullableUnderlying? s ≠ none ∨ t.nullableUnderlying? d ≠ none

/-- Where a nullable type takes part, the types without their nullable layers
are the same, or there is a conversion between numbers. -/
theorem lifts_or_unlifts (h : t.HasNullable s d) :
    (t.lifts s d || t.unlifts s d) =
      (t.bare s = t.bare d || t.areNumeric (t.bare s) (t.bare d)) := by
  have hunlifts : t.unlifts s d =
      (t.bare s = t.bare d || t.areNumeric (t.bare s) (t.bare d)) := by
    have hsome : ((t.nullableUnderlying? s).isSome ||
        (t.nullableUnderlying? d).isSome) = true := by
      rw [Bool.or_eq_true, ← Option.ne_none_iff_isSome,
        ← Option.ne_none_iff_isSome]
      exact h
    rw [unlifts, hsome, Bool.true_and]
    rfl
  have hlifts : t.lifts s d = true → t.unlifts s d = true := by
    intro hlifts
    rw [hunlifts, Bool.or_eq_true]
    unfold lifts at hlifts
    split at hlifts
    · next underlying hd =>
        rw [bare_of_some hd]
        exact (Bool.or_eq_true_iff.mp hlifts).imp id areNumeric_of_widens
    · cases hlifts
  rw [← hunlifts]
  cases hl : t.lifts s d with
  | false => rfl
  | true => rw [hlifts hl, Bool.or_true]

/-- The only conversions to or from a nullable type are those of what underlies
it. -/
theorem HasNullable.inert (h : t.HasNullable s d) (hk : t.KeepsKinds)
    (ht : t.Sound foreign) :
    t.areNumeric s d = false ∧ t.convertsEnum s d = false := by
  rcases h with h | h
  all_goals
    obtain ⟨a, ha⟩ := Option.ne_none_iff_exists'.mp h
    have hkind := hk.kind_of_nullableUnderlying? ht ha
    have htag := tag?_of_nullableUnderlying? ha
    simp [areNumeric, convertsEnum, hkind, htag]

end Table

/-! ## Binding -/

namespace Inquiry

variable {foreign : Handle → Prop} {q : Inquiry} {s d s' d' : Handle}

theorem Faithful.takesStringsOnly_eq_false (hq : q.Faithful)
    (htag : q.program.table.tag? d ≠ some .dateTime)
    (htemporal : ¬ q.program.table.IsTemporal d) :
    (takesStringsOnly d q).1 = false := by
  rw [← Bool.not_eq_true, takesStringsOnly_iff, ConvertsStringsTo]
  rintro (h | ⟨-, h | h⟩)
  · exact htag h
  · exact htemporal (.inl (hq _ _ h))
  · exact htemporal (.inr (hq _ _ h))

theorem unboundParameter?_of_isValue {p : Program}
    (hd : (p.table.kind d).IsValue) : p.unboundParameter? d = none := by
  rcases hd with hd | hd <;> rw [Program.unboundParameter?, hd]

section

variable (hd : (q.program.table.kind d).IsValue)
  (hstrings : (takesStringsOnly d q).1 = false)
include hd hstrings

theorem convertible_self_of_isValue : (convertible d d q).1 = true := by
  rw [convertible_apply_of_bound d (unboundParameter?_of_isValue hd)]
  dsimp only
  rw [Table.conversion_self hd.ne_unknown, hstrings]
  rfl

variable (hs : (q.program.table.kind s).IsValue)
  (hassignable : s ≠ d → (Table.assignable s d q.program.table).1 = false)
  (hdefined : q.program.table.conversion? s d = none)
include hs hassignable hdefined

/-- Data of a value type binds to another one where both are numeric, except
from floating-point numbers to characters. -/
theorem convertible_of_plain (hplain : ¬ q.program.table.HasNullable s d) :
    (convertible s d q).1 =
      (s = d || (q.program.table.areNumeric s d &&
        !((q.program.table.tag? s).any BuiltIn.isFloating &&
          q.program.table.tag? d = some .char))) := by
  by_cases heq : s = d
  · rw [heq, convertible_self_of_isValue hd hstrings, decide_eq_true rfl,
      Bool.true_or]
  rw [Table.HasNullable, not_or, not_not, not_not] at hplain
  rw [convertible_apply_of_bound s (unboundParameter?_of_isValue hd)]
  dsimp only
  rw [Table.conversion_of_isValue hs hd heq (hassignable heq) hdefined,
    Table.lifts_eq_false hplain.2, Table.unlifts_eq_false hplain.1 hplain.2,
    hstrings, decide_eq_false heq, Bool.false_or]
  cases hnumeric : q.program.table.areNumeric s d with
  | true =>
      cases q.program.table.widens s d with
      | true => rfl
      | false => rfl
  | false =>
      rw [Table.widens_eq_false hnumeric]
      cases q.program.table.convertsEnum s d with
      | true => rfl
      | false => rfl

/-- Where a nullable type takes part, data binds by the conversion of the types
without their nullable layers. -/
theorem convertible_of_hasNullable (hk : q.program.table.KeepsKinds)
    (ht : q.program.table.Sound foreign)
    (hnullable : q.program.table.HasNullable s d) :
    (convertible s d q).1 =
      (q.program.table.bare s = q.program.table.bare d ||
        q.program.table.areNumeric (q.program.table.bare s)
          (q.program.table.bare d)) := by
  by_cases heq : s = d
  · rw [heq, convertible_self_of_isValue hd hstrings, decide_eq_true rfl,
      Bool.true_or]
  obtain ⟨hnumeric, henum⟩ := hnullable.inert hk ht
  rw [convertible_apply_of_bound s (unboundParameter?_of_isValue hd),
    ← Table.lifts_or_unlifts hnullable]
  dsimp only
  rw [Table.conversion_of_isValue hs hd heq (hassignable heq) hdefined,
    Table.widens_eq_false hnumeric, hnumeric, henum, hstrings]
  cases q.program.table.lifts s d with
  | true => rfl
  | false =>
      cases q.program.table.unlifts s d with
      | true => rfl
      | false => rfl

end

/-- The verdicts on two types, as they are and with either or both made
nullable. -/
def liftedVerdicts (q : Inquiry) (s d s' d' : Handle) : List Bool :=
  [(convertible s d q).1, (convertible s d' q).1, (convertible s' d q).1,
    (convertible s' d' q).1]

/-- Without a nullable type, floating-point numbers do not bind to characters.
Otherwise data binds where the value types are the same or both numeric. -/
theorem liftedVerdicts_eq (ht : q.program.table.Sound foreign) (hq : q.InUse)
    (hstates : q.program.table.StatesUpper) (hk : q.program.table.KeepsKinds)
    (hdefined : ∀ a b, q.program.table.conversion? a b = none)
    (hl : q.program.table.Lifting s d s' d')
    (havoids : ∀ a ∈ [s, s'], ∀ b ∈ [d, d'],
      (Table.assignable a b q.program.table).2.Avoids foreign) :
    let binds : Bool := s = d || q.program.table.areNumeric s d
    q.liftedVerdicts s d s' d' =
      [s = d || (q.program.table.areNumeric s d &&
        !((q.program.table.tag? s).any BuiltIn.isFloating &&
          q.program.table.tag? d = some .char)), binds, binds, binds] := by
  have hvalue : (q.program.table.kind s').IsValue :=
    .inl (hk.kind_of_nullableUnderlying? ht hl.overSource)
  have hvalue' : (q.program.table.kind d').IsValue :=
    .inl (hk.kind_of_nullableUnderlying? ht hl.overTarget)
  have hstrings :=
    hq.faithful.takesStringsOnly_eq_false hl.tag hl.notTemporal
  have hstrings' : (takesStringsOnly d' q).1 = false := by
    refine hq.faithful.takesStringsOnly_eq_false ?_
      (Table.not_isTemporal_of_nullableUnderlying? hl.overTarget)
    rw [Table.tag?_of_nullableUnderlying? hl.overTarget]
    exact Option.some_ne_none _ ∘ Eq.symm
  have hassignable : ∀ a ∈ [s, s'], ∀ b ∈ [d, d'],
      (q.program.table.kind a).IsValue → (q.program.table.kind b).IsValue →
        a ≠ b → (Table.assignable a b q.program.table).1 = false :=
    fun a ha b hb hva hvb hne =>
      ht.not_assignable_of_isValue hstates hk hva hvb hne (havoids a ha b hb)
  have hplain := convertible_of_plain hl.target hstrings hl.source
    (hassignable s (by simp) d (by simp) hl.source hl.target) (hdefined s d)
    (by simp [Table.HasNullable, hl.plainSource, hl.plainTarget])
  have htarget := convertible_of_hasNullable hvalue' hstrings' hl.source
    (hassignable s (by simp) d' (by simp) hl.source hvalue') (hdefined s d') hk
    ht (by simp [Table.HasNullable, hl.overTarget])
  have hsource := convertible_of_hasNullable hl.target hstrings hvalue
    (hassignable s' (by simp) d (by simp) hvalue hl.target) (hdefined s' d) hk
    ht (by simp [Table.HasNullable, hl.overSource])
  have hboth := convertible_of_hasNullable hvalue' hstrings' hvalue
    (hassignable s' (by simp) d' (by simp) hvalue hvalue') (hdefined s' d') hk
    ht (by simp [Table.HasNullable, hl.overSource])
  rw [Table.bare_of_none hl.plainSource,
    Table.bare_of_some hl.overTarget] at htarget
  rw [Table.bare_of_some hl.overSource,
    Table.bare_of_none hl.plainTarget] at hsource
  rw [Table.bare_of_some hl.overSource,
    Table.bare_of_some hl.overTarget] at hboth
  rw [liftedVerdicts, hplain, htarget, hsource, hboth]

/-- Making value types nullable does not change whether data binds, unless
floating-point numbers are to bind to characters: these bind only where a
nullable type takes part. -/
theorem convertible_nullable (hr : q.program.table.Reachable foreign)
    (hq : q.InUse) (hstates : q.program.table.StatesUpper)
    (hk : q.program.table.KeepsKinds)
    (hdefined : ∀ a b, q.program.table.conversion? a b = none)
    (hl : q.program.table.Lifting s d s' d')
    (havoids : ∀ a ∈ [s, s'], ∀ b ∈ [d, d'],
      (Table.assignable a b q.program.table).2.Avoids foreign) :
    (¬ ((q.program.table.tag? s).any BuiltIn.isFloating = true ∧
        q.program.table.tag? d = some .char) →
      ∀ verdict ∈ q.liftedVerdicts s d s' d',
        verdict = (convertible s d q).1) ∧
      ((q.program.table.tag? s).any BuiltIn.isFloating = true ∧
          q.program.table.tag? d = some .char →
        q.liftedVerdicts s d s' d' = [false, true, true, true]) := by
  have heq := liftedVerdicts_eq ⟨hr.wellFormed, hr.avoids⟩ hq hstates hk
    hdefined hl havoids
  dsimp only at heq
  constructor
  · intro hnot
    have hkeeps : ((q.program.table.tag? s).any BuiltIn.isFloating &&
        decide (q.program.table.tag? d = some .char)) = false := by
      rw [← Bool.not_eq_true, Bool.and_eq_true, decide_eq_true_iff]
      exact hnot
    rw [hkeeps, Bool.not_false, Bool.and_true] at heq
    have hplain : (convertible s d q).1 = _ := (List.cons.inj heq).1
    rw [heq, hplain]
    simp
  · rintro ⟨hfloating, hchar⟩
    have hne : s ≠ d := by
      rintro rfl
      rw [hchar] at hfloating
      cases hfloating
    have hnumeric : q.program.table.areNumeric s d = true := by
      obtain ⟨b, hb, hfloating⟩ := (Option.any_eq_true _ _).mp hfloating
      rw [Table.areNumeric, hb, hchar, Option.any_some, Option.any_some,
        BuiltIn.isNumeric_of_isFloating hfloating]
      rfl
    rw [heq, hfloating, hchar, hnumeric]
    simp [hne]

end Inquiry

/-! ## Over the core library -/

namespace Table

/-- What the operations make of the core library, one after the other. -/
def worked (operations : List Operation) : Table :=
  operations.foldl (fun t op => (op.run t).2) coreLibrary

theorem reachable_worked {operations : List Operation}
    (hrun : Run noneForeign coreLibrary (worked operations)) :
    (worked operations).Reachable noneForeign :=
  ⟨.inr hrun, avoids_noneForeign _⟩

/-- Nullable numbers and characters. -/
def nullableNumbers : List Operation :=
  [.nullableOf ⟨20⟩, .nullableOf ⟨9⟩, .nullableOf ⟨14⟩]

/-- A structure that stands for the base of all types. -/
def objectStructure : List Operation :=
  [.declare { name := "Odd", kind := .struct, builtIn := some .object },
    .nullableOf ⟨14⟩, .nullableOf ⟨66⟩]

/-- A structure that stands for the base of the types of the kind, and a type of
the kind. -/
def baseStructure (kind : Kind) (b : BuiltIn) : List Operation :=
  [.declare { name := "Odd", kind := .struct, builtIn := some b },
    .declare { name := "X", kind := kind }, .nullableOf ⟨67⟩, .nullableOf ⟨66⟩]

/-- A class that stands for the nullable types, and a structure that derives
from it. -/
def nullableClass : List Operation :=
  [.declare
      { name := "Odd`1", kind := .classType, builtIn := some .nullableT,
        parameters := [unconstrained "T"] },
    .nullableOf ⟨14⟩,
    .declare { name := "X", kind := .struct, base := some ⟨68⟩ },
    .nullableOf ⟨69⟩]

end Table

namespace Inquiry

variable {s d s' d' : Handle} {operations : List Table.Operation}
  {verdicts : List Bool}

/-- The inquiry opened without libraries for what the operations make of the
core library. -/
def opened (operations : List Table.Operation) : Inquiry :=
  ⟨Program.ofTable (Table.worked operations),
    Capabilities.resolve [] Overrides.empty⟩

theorem table_opened :
    (opened operations).program.table = Table.worked operations := rfl

/-- The operations lead from the core library to a table without conversions
that states classes and interfaces only, and an inquiry opened for it gives the
verdicts on two value types and the nullable types over them. -/
structure Opens (operations : List Table.Operation) (s d s' d' : Handle)
    (verdicts : List Bool) : Prop where
  run : Table.Run noneForeign Table.coreLibrary (Table.worked operations)
  states : (Table.worked operations).StatesUpper
  undefined : (Table.worked operations).conversions = []
  lifting : (Table.worked operations).Lifting s d s' d'
  verdicts : (opened operations).liftedVerdicts s d s' d' = verdicts

/-- The same, in a form that is computed. -/
def Checks (operations : List Table.Operation) (s d s' d' : Handle)
    (verdicts : List Bool) : Prop :=
  Table.coreLibrary.takesOwn operations = true ∧
    (Table.worked operations).StatesUpper ∧
    (Table.worked operations).conversions = [] ∧
    (Table.worked operations).Lifted s d s' d' ∧
    (opened operations).liftedVerdicts s d s' d' = verdicts

instance (operations : List Table.Operation) (s d s' d' : Handle)
    (verdicts : List Bool) : Decidable (Checks operations s d s' d' verdicts) :=
  inferInstanceAs (Decidable (_ ∧ _))

theorem Checks.opens (h : Checks operations s d s' d' verdicts) :
    Opens operations s d s' d' verdicts := by
  obtain ⟨htakes, hstates, hnil, hlifted, hverdicts⟩ := h
  have hrun : Table.Run noneForeign Table.coreLibrary (Table.worked operations) :=
    Table.run_of_takesOwn htakes
  have w := (Table.reachable_worked hrun).wellFormed
  exact ⟨hrun, hstates, hnil, hlifted.lifting w, hverdicts⟩

theorem checks :
    (Table.worked Table.nullableNumbers).KeepsKinds ∧
      ((Table.worked Table.nullableNumbers).tag? ⟨20⟩ = some .double ∧
        (Table.worked Table.nullableNumbers).tag? ⟨14⟩ = some .int32 ∧
        (Table.worked Table.nullableNumbers).tag? ⟨9⟩ = some .char) ∧
      Checks Table.nullableNumbers ⟨20⟩ ⟨9⟩ ⟨66⟩ ⟨67⟩
        [false, true, true, true] ∧
      Checks Table.nullableNumbers ⟨14⟩ ⟨9⟩ ⟨68⟩ ⟨67⟩
        [true, true, true, true] ∧
      Checks Table.objectStructure ⟨14⟩ ⟨66⟩ ⟨67⟩ ⟨68⟩
        [true, false, true, false] ∧
      Checks (Table.baseStructure .struct .valueType) ⟨67⟩ ⟨66⟩ ⟨68⟩ ⟨69⟩
        [true, false, false, false] ∧
      Checks (Table.baseStructure .enum .enum) ⟨67⟩ ⟨66⟩ ⟨68⟩ ⟨69⟩
        [true, false, false, false] ∧
      Checks Table.nullableClass ⟨69⟩ ⟨14⟩ ⟨70⟩ ⟨68⟩
        [false, true, false, false] := by
  decide +kernel

/-- Characters take integers, nullable or not, but floating-point numbers only
where either is nullable. -/
theorem convertible_nullable_char :
    (opened Table.nullableNumbers).liftedVerdicts ⟨20⟩ ⟨9⟩ ⟨66⟩ ⟨67⟩ =
        [false, true, true, true] ∧
      ∀ verdict ∈
          (opened Table.nullableNumbers).liftedVerdicts ⟨14⟩ ⟨9⟩ ⟨68⟩ ⟨67⟩,
        verdict =
          (convertible ⟨14⟩ ⟨9⟩ (opened Table.nullableNumbers)).1 := by
  obtain ⟨hk, ⟨hdouble, hint, hchar⟩, hfloating, hinteger, -⟩ := checks
  obtain ⟨hrun, hstates, hnil, hlifting, -⟩ := hfloating.opens
  have hr := Table.reachable_worked hrun
  have hq : (opened Table.nullableNumbers).InUse :=
    inUse_resolve (Program.ofTable _) _
  have hdefined : ∀ a b,
      (Table.worked Table.nullableNumbers).conversion? a b = none := by
    intro a b
    rw [Table.conversion?, hnil]
    rfl
  rw [← table_opened] at hk hdouble hint hchar hr hstates hlifting hdefined
  constructor
  · refine (convertible_nullable hr hq hstates hk hdefined hlifting
      fun _ _ _ _ => Table.avoids_noneForeign _).2 ⟨?_, hchar⟩
    rw [hdouble]
    rfl
  · have hlifting' := hinteger.opens.lifting
    rw [← table_opened] at hlifting'
    refine (convertible_nullable hr hq hstates hk hdefined hlifting'
      fun _ _ _ _ => Table.avoids_noneForeign _).1 ?_
    rw [hint]
    rintro ⟨h, -⟩
    cases h

/-- Floating-point numbers and characters are told apart from the nullable types
over them.  So are other types where a structure stands for the base of all
types, of structures or of enumerations, or a class for the nullable types. -/
theorem lifted_verdicts_differ :
    (Table.worked Table.nullableNumbers).KeepsKinds ∧
      Opens Table.nullableNumbers ⟨20⟩ ⟨9⟩ ⟨66⟩ ⟨67⟩
        [false, true, true, true] ∧
      Opens Table.objectStructure ⟨14⟩ ⟨66⟩ ⟨67⟩ ⟨68⟩
        [true, false, true, false] ∧
      Opens (Table.baseStructure .struct .valueType) ⟨67⟩ ⟨66⟩ ⟨68⟩ ⟨69⟩
        [true, false, false, false] ∧
      Opens (Table.baseStructure .enum .enum) ⟨67⟩ ⟨66⟩ ⟨68⟩ ⟨69⟩
        [true, false, false, false] ∧
      Opens Table.nullableClass ⟨69⟩ ⟨14⟩ ⟨70⟩ ⟨68⟩
        [false, true, false, false] := by
  obtain ⟨hk, -, hnumbers, -, hobject, hvalueType, henum, hclass⟩ := checks
  exact ⟨hk, hnumbers.opens, hobject.opens, hvalueType.opens, henum.opens,
    hclass.opens⟩

end Inquiry

end Verdicts
