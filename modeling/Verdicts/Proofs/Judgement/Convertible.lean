import Verdicts.Proofs.Correspondence.Types
import Verdicts.Proofs.Judgement.Lookups
import Verdicts.Proofs.Judgement.Stability
import Verdicts.Proofs.Libraries.Features
import Verdicts.Proofs.Types.Walk

/-!
# Data that binds by assignability

A conversion is classified by the first rule that applies, and data binds to a
parameter by a rule over the classification.  Away from the types that take
strings only, whatever is assignable to a type binds to it.  Between two
reference types nothing else does, except by conversions between numbers, to
nullable types or of the program's own: a reference that may turn out to be of
the destination type does not bind.
-/

namespace Verdicts

/-- Only numeric types widen, and only to numeric types. -/
theorem BuiltIn.isNumeric_of_widensTo {a b : BuiltIn} (h : a.widensTo b = true) :
    a.isNumeric = true ∧ b.isNumeric = true := by
  have every : ∀ a ∈ all, ∀ b ∈ all, a.widensTo b = true →
      a.isNumeric = true ∧ b.isNumeric = true := by decide +kernel
  exact every a (mem_all a) b (mem_all b) h

theorem BuiltIn.not_widensTo_char (a : BuiltIn) : a.widensTo .char = false := by
  cases a <;> rfl

namespace Table

variable {t : Table} {s d : Handle} {c : Conversion}

/-! ## Classification -/

theorem areNumeric_of_widens (h : t.widens s d = true) :
    t.areNumeric s d = true := by
  unfold widens at h
  split at h
  · next hs hd =>
      obtain ⟨hns, hnd⟩ := BuiltIn.isNumeric_of_widensTo h
      rw [areNumeric, hs, hd, Option.any_some, Option.any_some, hns, hnd]
      rfl
  · cases h

theorem widens_eq_false (h : t.areNumeric s d = false) :
    t.widens s d = false := by
  cases hw : t.widens s d with
  | false => rfl
  | true => exact (areNumeric_of_widens hw).symm.trans h

theorem widens_eq_false_of_char (hd : t.tag? d = some .char) :
    t.widens s d = false := by
  rw [widens, hd]
  cases t.tag? s with
  | none => rfl
  | some a => exact a.not_widensTo_char

/-- Nothing lifts into a type that is not nullable. -/
theorem lifts_eq_false (hd : t.nullableUnderlying? d = none) :
    t.lifts s d = false := by
  rw [lifts, hd]

theorem unlifts_eq_false (hs : t.nullableUnderlying? s = none)
    (hd : t.nullableUnderlying? d = none) : t.unlifts s d = false := by
  rw [unlifts, hs, hd]
  rfl

theorem implicitConversion_apply (s d : Handle) (t : Table) :
    (implicitConversion s d t).1 =
      if t.widens s d then some ⟨.implicit, .numeric⟩
      else if t.lifts s d then some ⟨.implicit, .nullable⟩
      else if (assignable s d t).1 then
        some ⟨.implicit, if t.isValueType s then .boxing else .reference⟩
      else if t.conversion? s d = some true then some ⟨.implicit, .userDefined⟩
      else none := by
  rw [implicitConversion, bind_apply, get_apply]
  dsimp only
  by_cases hw : t.widens s d = true
  · rw [if_pos hw, if_pos hw]
    rfl
  by_cases hl : t.lifts s d = true
  · rw [if_neg hw, if_pos hl, if_neg hw, if_pos hl]
    rfl
  rw [if_neg hw, if_neg hl, if_neg hw, if_neg hl, bind_apply]
  split
  · rfl
  split
  · rfl
  · rfl

theorem explicitConversion_apply (s d : Handle) (t : Table) :
    explicitConversion s d t =
      if t.areNumeric s d then (some ⟨.explicit, .numeric⟩, t)
      else if t.convertsEnum s d then (some ⟨.explicit, .enumeration⟩, t)
      else
        let unboxed := t.unboxes s d t
        if unboxed.1 then (some ⟨.explicit, .unboxing⟩, unboxed.2)
        else if t.unlifts s d then (some ⟨.explicit, .nullable⟩, unboxed.2)
        else
          let referred := t.refers s d unboxed.2
          (if referred.1 then some ⟨.explicit, .reference⟩
            else if (t.conversion? s d).isSome then some ⟨.explicit, .userDefined⟩
            else none, referred.2) := by
  rw [explicitConversion, bind_apply, get_apply]
  dsimp only
  by_cases hnumeric : t.areNumeric s d = true
  · rw [if_pos hnumeric, if_pos hnumeric]
    rfl
  by_cases henum : t.convertsEnum s d = true
  · rw [if_neg hnumeric, if_pos henum, if_neg hnumeric, if_pos henum]
    rfl
  rw [if_neg hnumeric, if_neg henum, if_neg hnumeric, if_neg henum, bind_apply]
  split
  · rfl
  split
  · rfl
  rw [bind_apply]
  split
  · rfl
  split
  · rfl
  · rfl

/-- The conversion between different types is the implicit one, or the explicit
one where there is none. -/
theorem conversion_apply (hs : t.kind s ≠ .unknown) (hd : t.kind d ≠ .unknown)
    (hne : s ≠ d) :
    conversion s d t =
      match implicitConversion s d t with
      | (some c, u) => (some c, u)
      | (none, u) => explicitConversion s d u := by
  rw [conversion, bind_apply, get_apply]
  dsimp only
  rw [if_neg (by simp [hs, hd]), if_neg hne, bind_apply]
  rcases implicitConversion s d t with ⟨_ | c, u⟩
  · rfl
  · rfl

theorem conversion_self (hs : t.kind s ≠ .unknown) :
    conversion s s t = (some ⟨.implicit, .identity⟩, t) := by
  rw [conversion, bind_apply, get_apply]
  dsimp only
  rw [if_neg (by simp [hs]), if_pos rfl]
  rfl

/-- What is assignable to a type converts to it by itself, and by a numeric
conversion only where it widens. -/
theorem conversion_of_assignable (hs : t.kind s ≠ .unknown)
    (hd : t.kind d ≠ .unknown) (h : (assignable s d t).1 = true) :
    ∃ c, (conversion s d t).1 = some c ∧ c.mode = .implicit ∧
      (c.rule = .numeric → t.widens s d = true) := by
  by_cases heq : s = d
  · rw [← heq, conversion_self hs]
    exact ⟨_, rfl, rfl, fun hrule => by cases hrule⟩
  have himplicit : ∃ c, (implicitConversion s d t).1 = some c ∧
      c.mode = .implicit ∧ (c.rule = .numeric → t.widens s d = true) := by
    rw [implicitConversion_apply]
    by_cases hw : t.widens s d = true
    · rw [if_pos hw]
      exact ⟨_, rfl, rfl, fun _ => hw⟩
    rw [if_neg hw]
    by_cases hl : t.lifts s d = true
    · rw [if_pos hl]
      exact ⟨_, rfl, rfl, fun hrule => by cases hrule⟩
    rw [if_neg hl, if_pos h]
    refine ⟨_, rfl, rfl, fun hrule => ?_⟩
    split at hrule
    · cases hrule
    · cases hrule
  obtain ⟨c, hc, hmode, hnumeric⟩ := himplicit
  refine ⟨c, ?_, hmode, hnumeric⟩
  rw [conversion_apply hs hd heq]
  rcases hrun : implicitConversion s d t with ⟨_ | c', u⟩
  · rw [hrun] at hc
    cases hc
  · rw [hrun] at hc
    exact hc

/-- A value type is not a reference type, unless it is an unbound type
parameter. -/
theorem isValueType_eq_false (hkind : t.kind d ≠ .typeParameter)
    (hd : t.isReferenceType d = true) : t.isValueType d = false := by
  unfold isReferenceType at hd
  split at hd
  · next hs =>
      refine absurd ?_ hkind
      rw [kind, head_of_not_constructed (by simp [hs]), hs]
  · next hnot hs =>
      unfold isValueType
      split
      · next hs' => exact absurd (Option.some.inj (hs.symm.trans hs')) (hnot _ _)
      · split at hd <;> simp_all
      · rfl
  · cases hd

/-- Where neither numbers nor nullable types nor conversions of the program's
own take part and the destination is no value type, an explicit conversion is
not carried out when data binds. -/
theorem not_isCoercion_of_explicitConversion
    (hc : (explicitConversion s d t).1 = some c)
    (hnumeric : t.areNumeric s d = false) (hvalue : t.isValueType d = false)
    (hsource : t.nullableUnderlying? s = none)
    (hdestination : t.nullableUnderlying? d = none)
    (hdefined : t.conversion? s d = none) :
    c.rule ≠ .numeric ∧ c.isCoercion = false := by
  have hunboxes : t.unboxes s d = pure false := by
    rw [unboxes, hdestination, Option.getD_none, hvalue]
    rfl
  rw [explicitConversion_apply, if_neg (by simp [hnumeric])] at hc
  by_cases henum : t.convertsEnum s d = true
  · rw [if_pos henum] at hc
    cases hc
    exact ⟨by decide, by decide⟩
  have hunlifts : ¬ t.unlifts s d = true := by
    rw [unlifts_eq_false hsource hdestination]
    exact Bool.false_ne_true
  rw [if_neg henum, hunboxes, pure_apply] at hc
  dsimp only at hc
  rw [if_neg Bool.false_ne_true, if_neg hunlifts, hdefined] at hc
  dsimp only at hc
  split at hc
  · cases hc
    exact ⟨by decide, by decide⟩
  · cases hc

/-- Between reference types, a conversion that is carried out when data binds
comes from assignability. -/
theorem assignable_of_conversion
    (hc : (conversion s d t).1 = some c) (hbinds : c.rule = .numeric ∨ c.isCoercion)
    (hks : t.kind s ≠ .unknown) (hkd : t.kind d ≠ .unknown)
    (hkind : t.kind d ≠ .typeParameter)
    (hd : t.isReferenceType d = true)
    (hnumeric : t.areNumeric s d = false)
    (hsource : t.nullableUnderlying? s = none)
    (hdestination : t.nullableUnderlying? d = none)
    (hdefined : t.conversion? s d = none) :
    (assignable s d t).1 = true := by
  by_cases heq : s = d
  · rw [← heq]
    exact assignable_self (knows_of_kind_ne_unknown hks)
  cases hassignable : (assignable s d t).1 with
  | true => rfl
  | false =>
  -- There is no implicit conversion then, and the table has grown meanwhile.
  have himplicit : (implicitConversion s d t).1 = none := by
    rw [implicitConversion_apply, widens_eq_false hnumeric,
      lifts_eq_false hdestination, hassignable, hdefined]
    rfl
  have g : t.GrowsTo (implicitConversion s d t).2 :=
    interns_implicitConversion s d t
  rw [conversion_apply hks hkd heq] at hc
  rcases hrun : implicitConversion s d t with ⟨_ | c', u⟩
  · rw [hrun] at hc g
    have hsource' : u.nullableUnderlying? s = none := by
      rwa [g.nullableUnderlying?_eq (knows_of_kind_ne_unknown hks)]
    have hdestination' : u.nullableUnderlying? d = none := by
      rwa [g.nullableUnderlying?_eq (knows_of_kind_ne_unknown hkd)]
    have hvalue : u.isValueType d = false := by
      rw [g.isValueType_eq hkd, isValueType_eq_false hkind hd]
    obtain ⟨hrule, hcoercion⟩ := not_isCoercion_of_explicitConversion hc
      (by rwa [areNumeric, g.tag?_eq, g.tag?_eq]) hvalue hsource' hdestination'
      (by rwa [g.conversion?_eq])
    rw [hcoercion] at hbinds
    exact hbinds.elim (fun h => absurd h hrule) fun h => Bool.noConfusion h
  · rw [hrun] at himplicit
    cases himplicit

end Table

namespace Inquiry

variable {q : Inquiry} {s d : Handle}

/-! ## Binding -/

/-- The framework converts strings to the type, which the inquiry knows as the
one of identifiers or the one of times with an offset. -/
def ConvertsStringsTo (q : Inquiry) (d : Handle) : Prop :=
  q.capabilities.supports .stringToTemporalConversion = true ∧
    (q.systemHandle? .guid = some d ∨ q.systemHandle? .dateTimeOffset = some d)

theorem takesStringsOnly_iff : (takesStringsOnly d q).1 = true ↔
    q.program.table.tag? d = some .dateTime ∨ q.ConvertsStringsTo d := by
  rw [takesStringsOnly, bind_apply, get_apply]
  dsimp only
  by_cases htag : q.program.table.tag? d = some .dateTime
  · rw [if_pos htag]
    exact iff_of_true rfl (.inl htag)
  rw [if_neg htag]
  split
  · next hsupports =>
      have htemporal := anySystemType_apply d [.dateTimeOffset, .guid] q
      refine (Bool.eq_iff_iff.mp htemporal).trans ?_
      simp [ConvertsStringsTo, hsupports, htag, or_comm]
  · next hsupports =>
      refine iff_of_false Bool.false_ne_true ?_
      simp [ConvertsStringsTo, hsupports, htag]

theorem Consulted.takesStringsOnly_eq {q' : Inquiry} (h : q.Consulted q')
    (d : Handle) : (takesStringsOnly d q').1 = (takesStringsOnly d q).1 := by
  have hsupports : q'.capabilities.supports .stringToTemporalConversion =
      q.capabilities.supports .stringToTemporalConversion :=
    Capabilities.supports_congr fun f _ => Capabilities.version?_congr h.active f
  rw [Bool.eq_iff_iff, takesStringsOnly_iff, takesStringsOnly_iff,
    ConvertsStringsTo, ConvertsStringsTo, h.table.tag?_eq, h.system, h.system,
    hsupports]

/-- Where the destination is bound, the classification of the conversion decides,
unless the destination takes strings only. -/
theorem convertible_apply_of_bound (s : Handle)
    (hbound : q.program.unboundParameter? d = none) :
    (convertible s d q).1 =
      let t := q.program.table
      let conversion := (Table.conversion s d t).1
      if conversion.any (·.rule = .numeric) then
        !((t.tag? s).any BuiltIn.isFloating && t.tag? d = some .char)
      else if (takesStringsOnly d q).1 then t.tag? s = some .string
      else conversion.any Conversion.isCoercion := by
  have htakes :=
    (Consults.onTable (Table.interns_conversion s d) q).takesStringsOnly_eq d
  rw [convertible, bind_apply, get_apply]
  dsimp only
  rw [hbound]
  dsimp only
  rw [bind_apply]
  split
  · next h => exact (if_pos h).symm
  · next h =>
      refine Eq.trans ?_ (if_neg h).symm
      rw [bind_apply, htakes]
      split
      · rfl
      · rfl

/-- Where the destination is bound and takes more than strings, the
classification of the conversion decides. -/
theorem convertible_apply (hbound : q.program.unboundParameter? d = none)
    (htag : q.program.table.tag? d ≠ some .dateTime)
    (hoffset : q.systemHandle? .dateTimeOffset ≠ some d)
    (hguid : q.systemHandle? .guid ≠ some d) :
    (convertible s d q).1 =
      let t := q.program.table
      let conversion := (Table.conversion s d t).1
      if conversion.any (·.rule = .numeric) then
        !((t.tag? s).any BuiltIn.isFloating && t.tag? d = some .char)
      else conversion.any Conversion.isCoercion := by
  have htakes : (takesStringsOnly d q).1 = false := by
    rw [← Bool.not_eq_true, takesStringsOnly_iff, ConvertsStringsTo]
    simp [htag, hoffset, hguid]
  rw [convertible_apply_of_bound s hbound, htakes]
  rfl

theorem unboundParameter?_eq_none (p : Program) {d : Handle}
    (hparameter : p.table.kind d ≠ .typeParameter)
    (helement : ∀ e, p.element? d = some e → p.table.kind e ≠ .typeParameter) :
    p.unboundParameter? d = none := by
  unfold Program.unboundParameter?
  split
  · next h => exact absurd h hparameter
  · rw [Option.filter_eq_none_iff]
    intro e he
    simpa using helement e he
  · rfl

/-- Whatever is assignable to a type of known kind binds to it, unless the type
is an unbound type parameter or an array of one, or takes strings only.  If it
is a reference type, and the two types are not both numeric, neither is nullable
and the program defines no conversion between them, then nothing else binds: no
downcast and no cast to or from an interface. -/
theorem convertible_agrees (q : Inquiry) {s d : Handle}
    (hs : q.program.table.kind s ≠ .unknown)
    (hd : q.program.table.kind d ≠ .unknown)
    (hparameter : q.program.table.kind d ≠ .typeParameter)
    (helement : ∀ e, q.program.element? d = some e →
      q.program.table.kind e ≠ .typeParameter)
    (htag : q.program.table.tag? d ≠ some .dateTime)
    (hoffset : q.systemHandle? .dateTimeOffset ≠ some d)
    (hguid : q.systemHandle? .guid ≠ some d) :
    let t := q.program.table
    ((Table.assignable s d t).1 = true → (convertible s d q).1 = true) ∧
    (t.isReferenceType d = true → t.areNumeric s d = false →
      t.nullableUnderlying? s = none → t.nullableUnderlying? d = none →
      t.conversion? s d = none →
      ((convertible s d q).1 = true ↔ (Table.assignable s d t).1 = true)) := by
  intro t
  have hbound := unboundParameter?_eq_none q.program hparameter helement
  have happly := convertible_apply (s := s) hbound htag hoffset hguid
  have hbinds : (Table.assignable s d t).1 = true →
      (convertible s d q).1 = true := by
    intro h
    obtain ⟨c, hc, hmode, hwidens⟩ := Table.conversion_of_assignable hs hd h
    rw [happly]
    dsimp only
    rw [hc, Option.any_some, Option.any_some]
    by_cases hrule : c.rule = .numeric
    · have hchar : t.tag? d ≠ some .char := by
        intro hchar
        have hnot := Table.widens_eq_false_of_char (s := s) hchar
        exact Bool.false_ne_true (hnot.symm.trans (hwidens hrule))
      simp [hrule, hchar, t]
    · simp [hrule, Conversion.isCoercion, hmode]
  refine ⟨hbinds, fun href hnumeric hsource hdestination hdefined =>
    ⟨fun h => ?_, hbinds⟩⟩
  rw [happly] at h
  dsimp only at h
  cases hc : (Table.conversion s d t).1 with
  | none => simp [t, hc] at h
  | some c =>
      refine Table.assignable_of_conversion hc ?_ hs hd hparameter href hnumeric
        hsource hdestination hdefined
      by_cases hrule : c.rule = .numeric
      · exact .inl hrule
      · exact .inr (by simpa [t, hc, hrule] using h)

/-- A class that implements an interface binds to it, and what is known by the
interface does not bind to the class. -/
theorem convertible_agrees_interface :
    let shape : Shape := .named ⟨"IShape", .interface, none, false, none, [], []⟩
    let circle : Shape :=
      .named ⟨"Circle", .classType, none, false, none, [⟨1⟩], []⟩
    let q := Inquiry.ofTable ⟨#[shape, circle], []⟩
    (convertible ⟨2⟩ ⟨1⟩ q).1 = true ∧ (convertible ⟨1⟩ ⟨2⟩ q).1 = false := by
  intro shape circle q
  have hshape : q.program.element? ⟨1⟩ = none := by decide +kernel
  have hcircle : q.program.element? ⟨2⟩ = none := by decide +kernel
  have hup := convertible_agrees q (s := ⟨2⟩) (d := ⟨1⟩) (by decide +kernel)
    (by decide +kernel) (by decide +kernel)
    (fun e he => by rw [hshape] at he; cases he) (by decide +kernel)
    (by decide +kernel) (by decide +kernel)
  have hdown := convertible_agrees q (s := ⟨1⟩) (d := ⟨2⟩) (by decide +kernel)
    (by decide +kernel) (by decide +kernel)
    (fun e he => by rw [hcircle] at he; cases he) (by decide +kernel)
    (by decide +kernel) (by decide +kernel)
  refine ⟨hup.1 (by decide +kernel), ?_⟩
  rw [← Bool.not_eq_true, hdown.2 (by decide +kernel) (by decide +kernel)
    (by decide +kernel) (by decide +kernel) (by decide +kernel)]
  decide +kernel

end Inquiry

end Verdicts
