import Verdicts.Proofs.Judgement.Convertible
import Verdicts.Proofs.Judgement.Use

/-!
# What a verdict learns from the libraries of a program

Whether data binds depends on the types, and on the libraries of the program in
one respect only: where the framework converts strings to identifiers and to
times with an offset, these types take strings and nothing else.  Two inquiries
into the same types therefore agree on every other verdict, and where they
differ, either verdict is the one of its own rule.

The libraries alone do not say which rule that is.  An inquiry looks a library
type up once, and one that looked before the type was declared goes on to
overlook it: to such an inquiry the type is one like any other.
-/

namespace Verdicts

namespace SystemType

theorem mem_all (y : SystemType) : y ∈ all := by
  cases y <;> decide

theorem qualifiedName_injective : Function.Injective qualifiedName := by
  have every : ∀ y ∈ all, ∀ y' ∈ all,
      y.qualifiedName = y'.qualifiedName → y = y' := by decide +kernel
  exact fun y y' => every y y.mem_all y' y'.mem_all

end SystemType

namespace Conversion

theorem isCoercion_iff {c : Conversion} : c.isCoercion = true ↔
    c.mode = .implicit ∨ c.rule = .unboxing ∨
      c.mode = .explicit ∧ (c.rule = .userDefined ∨ c.rule = .nullable) := by
  rcases c with ⟨mode, rule⟩
  cases mode <;> cases rule <;> decide

end Conversion

namespace Table

/-- The conversion from one type to another is implicit, or by unboxing, or an
explicit one that the program defines or that concerns nullable types. -/
def Coerces (t : Table) (s d : Handle) : Prop :=
  ∃ c, (conversion s d t).1 = some c ∧
    (c.mode = .implicit ∨ c.rule = .unboxing ∨
      c.mode = .explicit ∧ (c.rule = .userDefined ∨ c.rule = .nullable))

theorem coerces_iff {t : Table} {s d : Handle} :
    t.Coerces s d ↔ (conversion s d t).1.any Conversion.isCoercion = true := by
  simp [Coerces, ← Conversion.isCoercion_iff, Option.any_eq_true]

/-- The type is the one of identifiers or the one of times with an offset. -/
def IsTemporal (t : Table) (d : Handle) : Prop :=
  t.named? "System.Guid" = some d ∨ t.named? "System.DateTimeOffset" = some d

end Table

namespace Inquiry

variable {q : Inquiry} {s d : Handle}

/-! ## The verdict of a rule -/

/-- Either a verdict is the same whatever the libraries, or these choose between
two rules. -/
theorem convertible_cases (p : Program) (s d : Handle) :
    (∃ verdict, ∀ c, (convertible s d ⟨p, c⟩).1 = verdict) ∨
    ∀ c, (ConvertsStringsTo ⟨p, c⟩ d →
        ((convertible s d ⟨p, c⟩).1 = true ↔ p.table.tag? s = some .string)) ∧
      (¬ ConvertsStringsTo ⟨p, c⟩ d →
        ((convertible s d ⟨p, c⟩).1 = true ↔ p.table.Coerces s d)) := by
  cases hbound : p.unboundParameter? d with
  | some parameter =>
      let constraints := (p.table.constraints? parameter).getD Constraints.none
      refine .inl ⟨(Table.satisfies s constraints p.table).1, fun c => ?_⟩
      rw [convertible, bind_apply, get_apply]
      dsimp only
      rw [hbound]
      rfl
  | none =>
  have happly (c : Capabilities) :=
    convertible_apply_of_bound (q := ⟨p, c⟩) s hbound
  dsimp only at happly
  by_cases hnumeric :
      (Table.conversion s d p.table).1.any (·.rule = .numeric) = true
  · exact .inl ⟨_, fun c => (happly c).trans (if_pos hnumeric)⟩
  by_cases htag : p.table.tag? d = some .dateTime
  · refine .inl ⟨decide (p.table.tag? s = some .string), fun c => ?_⟩
    rw [happly, if_neg hnumeric, if_pos (takesStringsOnly_iff.mpr (.inl htag))]
  · refine .inr fun c => ⟨fun hstrings => ?_, fun hstrings => ?_⟩
    · have htakes : (takesStringsOnly d ⟨p, c⟩).1 = true :=
        takesStringsOnly_iff.mpr (.inr hstrings)
      rw [happly, if_neg hnumeric, if_pos htakes, decide_eq_true_iff]
    · have htakes : ¬ (takesStringsOnly d ⟨p, c⟩).1 = true := by
        simp [takesStringsOnly_iff, htag, hstrings]
      rw [happly, if_neg hnumeric, if_neg htakes, Table.coerces_iff]

/-! ## Types that are overlooked -/

/-- The type is a library type of which the inquiry keeps that there is none: it
looked before the type was declared. -/
def Overlooks (q : Inquiry) (d : Handle) : Prop :=
  ∃ y, q.program.table.named? y.qualifiedName = some d ∧
    q.capabilities.systemTypes.lookup y = some none

/-- The framework of the inquiry converts strings to library types, and the
inquiry does not overlook this one. -/
def TakesStrings (q : Inquiry) (d : Handle) : Prop :=
  q.capabilities.supports .stringToTemporalConversion = true ∧ ¬ q.Overlooks d

theorem InUse.convertsStringsTo_iff (hq : q.InUse) :
    q.ConvertsStringsTo d ↔
      q.program.table.IsTemporal d ∧ q.TakesStrings d := by
  have hhandle (y : SystemType) :=
    hq.faithful.systemHandle?_eq_some_iff (y := y) (h := d)
  constructor
  · rintro ⟨hsupports, hknown⟩
    -- No other library type has the handle, so none can be overlooked.
    have hseen : ∀ y, q.systemHandle? y = some d → ¬ q.Overlooks d := by
      rintro y hy ⟨y', hnamed, hkeeps⟩
      obtain ⟨hnamed', hlooked⟩ := (hhandle y).mp hy
      have heq := SystemType.qualifiedName_injective
        (Table.name_unique_of_named? hnamed hnamed')
      exact hlooked (heq ▸ hkeeps)
    refine ⟨hknown.imp (fun h => ?_) fun h => ?_, hsupports,
      hknown.elim (hseen _) (hseen _)⟩
    · exact ((hhandle .guid).mp h).1
    · exact ((hhandle .dateTimeOffset).mp h).1
  · rintro ⟨htemporal, hsupports, hseen⟩
    refine ⟨hsupports, htemporal.imp (fun hnamed => ?_) fun hnamed => ?_⟩
    · exact (hhandle .guid).mpr
        ⟨hnamed, fun hkeeps => hseen ⟨.guid, hnamed, hkeeps⟩⟩
    · exact (hhandle .dateTimeOffset).mpr
        ⟨hnamed, fun hkeeps => hseen ⟨.dateTimeOffset, hnamed, hkeeps⟩⟩

/-- Where two inquiries into the same types differ in whether data binds, the
destination is temporal, and one of them takes strings for it: there, strings
bind and nothing else, and for the other one the conversion decides. -/
theorem convertible_differs (p : Program) (c c' : Capabilities) {s d : Handle}
    (hc : InUse ⟨p, c⟩) (hc' : InUse ⟨p, c'⟩)
    (hdiffers : (convertible s d ⟨p, c⟩).1 ≠ (convertible s d ⟨p, c'⟩).1) :
    p.table.IsTemporal d ∧
    ¬ (TakesStrings ⟨p, c⟩ d ↔ TakesStrings ⟨p, c'⟩ d) ∧
    ∀ k, k = c ∨ k = c' →
      (TakesStrings ⟨p, k⟩ d →
        ((convertible s d ⟨p, k⟩).1 = true ↔
          p.table.tag? s = some .string)) ∧
      (¬ TakesStrings ⟨p, k⟩ d →
        ((convertible s d ⟨p, k⟩).1 = true ↔ p.table.Coerces s d)) := by
  obtain ⟨verdict, hsame⟩ | hrule := convertible_cases p s d
  · exact absurd ((hsame c).trans (hsame c').symm) hdiffers
  have hstrings : ¬ (ConvertsStringsTo ⟨p, c⟩ d ↔ ConvertsStringsTo ⟨p, c'⟩ d) := by
    intro hiff
    apply hdiffers
    rw [Bool.eq_iff_iff]
    by_cases h : ConvertsStringsTo ⟨p, c⟩ d
    · rw [(hrule c).1 h, (hrule c').1 (hiff.mp h)]
    · rw [(hrule c).2 h, (hrule c').2 (mt hiff.mpr h)]
  have hconverts : ∀ k, k = c ∨ k = c' → (ConvertsStringsTo ⟨p, k⟩ d ↔
      p.table.IsTemporal d ∧ TakesStrings ⟨p, k⟩ d) := by
    rintro k (rfl | rfl)
    · exact hc.convertsStringsTo_iff
    · exact hc'.convertsStringsTo_iff
  rw [hconverts c (.inl rfl), hconverts c' (.inr rfl)] at hstrings
  have htemporal : p.table.IsTemporal d := by
    by_contra hnot
    exact hstrings (by simp [hnot])
  refine ⟨htemporal, fun htakes => hstrings (by rw [htakes]), fun k hk =>
    ⟨fun hyes => ?_, fun hno => ?_⟩⟩
  · exact (hrule k).1 ((hconverts k hk).mpr ⟨htemporal, hyes⟩)
  · exact (hrule k).2 fun h => hno ((hconverts k hk).mp h).2

/-- A string binds to an identifier by the core library of version 2.4.2, and not
without the framework, since no conversion leads from strings to identifiers. -/
theorem convertible_differs_guid :
    let p := Program.ofTable Table.coreLibrary
    let c := Capabilities.resolve []
      (Overrides.empty.insert .coreV2 (.release 2 4 2))
    let c' := Capabilities.resolve [] Overrides.empty
    let string : Handle := ⟨54⟩
    let guid : Handle := ⟨26⟩
    p.table.named? "System.Guid" = some guid ∧ TakesStrings ⟨p, c⟩ guid ∧
      (convertible string guid ⟨p, c⟩).1 = true ∧
      p.table.tag? string = some .string ∧ ¬ TakesStrings ⟨p, c'⟩ guid ∧
      (convertible string guid ⟨p, c'⟩).1 = false ∧
      ¬ p.table.Coerces string guid := by
  intro p c c' string guid
  have hsupports : c.supports .stringToTemporalConversion = true ∧
      c'.supports .stringToTemporalConversion = false := by
    decide +kernel
  have hverdicts : p.table.named? "System.Guid" = some guid ∧
      (convertible string guid ⟨p, c⟩).1 = true ∧
      (convertible string guid ⟨p, c'⟩).1 = false := by
    decide +kernel
  obtain ⟨hguid, hyes, hno⟩ := hverdicts
  obtain ⟨-, -, hrules⟩ := convertible_differs p c c'
    (inUse_resolve p _) (inUse_resolve p _)
    (by rw [hyes, hno]; exact Bool.noConfusion)
  have htakes : TakesStrings ⟨p, c⟩ guid := by
    refine ⟨hsupports.1, ?_⟩
    rintro ⟨y, -, hkeeps⟩
    cases hkeeps
  have hnot : ¬ TakesStrings ⟨p, c'⟩ guid :=
    fun h => Bool.false_ne_true (hsupports.2.symm.trans h.1)
  refine ⟨hguid, htakes, hyes, ((hrules c (.inl rfl)).1 htakes).mp hyes, hnot,
    hno, fun hcoerces => ?_⟩
  have hbinds := ((hrules c' (.inr rfl)).2 hnot).mpr hcoerces
  exact Bool.false_ne_true (hno.symm.trans hbinds)

/-- The libraries are not all that counts.  An inquiry looks for identifiers
before they are declared, and another one is opened afterwards, with the same
libraries: both convert strings, and only the second one takes a string for an
identifier. -/
theorem convertible_differs_overlooked :
    let pins := Overrides.empty.insert .coreV2 (.release 2 4 2)
    let libraries := Capabilities.resolve [] pins
    let string : Table.Declaration :=
      { name := "System.String", kind := .classType, builtIn := some .string,
        isClosed := true }
    let guid : Table.Declaration := { name := "System.Guid", kind := .struct }
    let strings := Program.ofTable (Table.declare string Table.empty).2
    let early := (convertible ⟨1⟩ ⟨1⟩ ⟨strings, libraries⟩).2
    let p :=
      { early.program with table := (Table.declare guid early.program.table).2 }
    InUse ⟨p, early.capabilities⟩ ∧ InUse ⟨p, libraries⟩ ∧
      p.table.named? "System.Guid" = some ⟨2⟩ ∧
      early.capabilities.supports .stringToTemporalConversion = true ∧
      libraries.supports .stringToTemporalConversion = true ∧
      (convertible ⟨1⟩ ⟨2⟩ ⟨p, early.capabilities⟩).1 = false ∧
      (convertible ⟨1⟩ ⟨2⟩ ⟨p, libraries⟩).1 = true := by
  intro pins libraries string guid strings early p
  have hearly : early.InUse :=
    (inUse_resolve strings pins).asks (asks_convertible ⟨1⟩ ⟨1⟩)
  have hrun : Table.Run noneForeign early.program.table p.table := by
    refine .step (.declare guid) ⟨?_, ?_⟩ (.refl _)
    · intro h hh
      cases hh
    · intro h hh
      cases hh
  have hlate : InUse ⟨p, libraries⟩ := by
    have hreferences : p.references = [] := by decide +kernel
    have hopened := inUse_resolve p pins
    rwa [hreferences] at hopened
  refine ⟨hearly.run hrun, hlate, ?_⟩
  decide +kernel

end Inquiry

end Verdicts
