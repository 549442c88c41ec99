import Mathlib.Data.List.Find
import Verdicts.Capability.Capabilities
import Verdicts.Proofs.Lists

/-!
# Features and versions

A feature comes with some version of a library and stays, and the newer library
of a concern has every feature that the older one ever had.  So no feature is
lost when libraries are added or get newer versions, and only the libraries of a
feature's own concern have a say in it.
-/

namespace Verdicts

/-! ## The order of versions -/

namespace Version

/-- The versions are the same, or the first part in which they differ is smaller
in the first one. -/
def UpTo (v w : Version) : Prop :=
  v.major < w.major ∨ v.major = w.major ∧
    (v.minor < w.minor ∨ v.minor = w.minor ∧
      (v.build < w.build ∨ v.build = w.build ∧ v.revision ≤ w.revision))

instance (v w : Version) : Decidable (v.UpTo w) :=
  inferInstanceAs (Decidable (_ ∨ _))

/-- Comparing ranks compares the parts from the left. -/
theorem le_iff_upTo {v w : Version} : v ≤ w ↔ v.UpTo w := by
  obtain ⟨a, b, c, d⟩ := v
  obtain ⟨a', b', c', d'⟩ := w
  have hb := b.toNat_lt
  have hc := c.toNat_lt
  have hd := d.toNat_lt
  have hb' := b'.toNat_lt
  have hc' := c'.toNat_lt
  have hd' := d'.toNat_lt
  change rank _ ≤ rank _ ↔ _
  simp only [rank, UInt32.size, UpTo, UInt32.lt_iff_toNat_lt,
    UInt32.le_iff_toNat_le, ← UInt32.toNat_inj]
  omega

/-- The second version is known to be at least as high as the first, if that is
known at all. -/
inductive NoHigher : Option Version → Option Version → Prop where
  | unknown (w : Option Version) : NoHigher none w
  | known {v w : Version} (h : v.UpTo w) : NoHigher (some v) (some w)

end Version

/-- A library keeps its features in higher versions. -/
theorem Availability.admits_of_noHigher {a : Availability}
    {v w : Option Version} (h : Version.NoHigher v w)
    (ha : a.admits v = true) : a.admits w = true := by
  cases a with
  | never => cases ha
  | always => rfl
  | since first =>
      cases h with
      | unknown w => cases ha
      | @known v w hvw =>
          have hfirst : first ≤ v := of_decide_eq_true ha
          exact decide_eq_true
            (Nat.le_trans hfirst (Version.le_iff_upTo.mpr hvw))

/-- The newer library of a concern has what the older one has in some version. -/
theorem Flag.availability_of_newer (flag : Flag) :
    flag.concern.families.Pairwise fun newer older =>
      flag.availability older ≠ .never → flag.availability newer = .always := by
  cases flag <;> decide

namespace Capabilities

variable {c c' : Capabilities} {f g : Family} {concern : Concern} {flag : Flag}

/-! ## The family that decides -/

theorem isActive_iff : c.isActive f = true ↔ ∃ v, c.version? f = some v :=
  Option.isSome_iff_exists

theorem supports_iff : c.supports flag = true ↔
    ∃ f v, c.family? flag.concern = some f ∧ c.version? f = some v ∧
      (flag.availability f).admits v = true := by
  rw [supports]
  cases hf : c.family? flag.concern with
  | none => simp
  | some f =>
      dsimp only
      rw [familySupports]
      cases hv : c.version? f with
      | none => simp [hv]
      | some v => simp [hv]

/-- The family that decides is the given active one, or stands before it. -/
theorem exists_family?_of_pairwise {R : Family → Family → Prop}
    (hR : concern.families.Pairwise R) (hmem : g ∈ concern.families)
    (hg : c.isActive g = true) :
    ∃ f, c.family? concern = some f ∧ (g = f ∨ R f g) := by
  have hsome : (c.family? concern).isSome = true :=
    List.find?_isSome.mpr ⟨g, hmem, hg⟩
  obtain ⟨f, hf⟩ := Option.isSome_iff_exists.mp hsome
  exact ⟨f, hf, eq_or_of_find?_eq_some hR hf hmem hg⟩

/-! ## What an upgrade keeps -/

/-- The second program has each active family of the first one, in a version at
least as high. -/
def UpgradesTo (c c' : Capabilities) : Prop :=
  ∀ f v, c.version? f = some v →
    ∃ v', c'.version? f = some v' ∧ Version.NoHigher v v'

theorem UpgradesTo.supports (u : c.UpgradesTo c')
    (h : c.supports flag = true) : c'.supports flag = true := by
  obtain ⟨g, v, hg, hv, hadmits⟩ := supports_iff.mp h
  obtain ⟨v', hv', hle⟩ := u g v hv
  obtain ⟨f, hf, rfl | hnewer⟩ :=
    exists_family?_of_pairwise flag.availability_of_newer
      (List.mem_of_find?_eq_some hg) (isActive_iff.mpr ⟨v', hv'⟩)
  · exact supports_iff.mpr
      ⟨g, v', hf, hv', Availability.admits_of_noHigher hle hadmits⟩
  · -- The newer library has the feature in every version, known or not.
    have hever : flag.availability g ≠ .never := by
      intro hnever
      rw [hnever] at hadmits
      cases hadmits
    obtain ⟨w, hw⟩ := isActive_iff.mp (List.find?_some hf)
    refine supports_iff.mpr ⟨f, w, hf, hw, ?_⟩
    rw [hnewer hever]
    rfl

/-- Programs with the same families of a flag's concern, in the same versions,
agree on the flag. -/
theorem supports_congr
    (h : ∀ f ∈ flag.concern.families, c.version? f = c'.version? f) :
    c.supports flag = c'.supports flag := by
  have hfamily : c.family? flag.concern = c'.family? flag.concern := by
    apply List.find?_congr
    intro f hf
    rw [isActive, isActive, h f hf]
  rw [supports, supports, hfamily]
  cases hf : c'.family? flag.concern with
  | none => rfl
  | some f =>
      dsimp only
      rw [familySupports, familySupports, h f (List.mem_of_find?_eq_some hf)]

/-- An upgrade loses no feature, and the features of the core and those of the
assertions depend on the families of their own concern alone. -/
theorem supports_monotone_and_local (c c' : Capabilities) :
    (c.UpgradesTo c' → ∀ flag, c.supports flag = true →
      c'.supports flag = true) ∧
    (c.version? .coreV2 = c'.version? .coreV2 →
      c.version? .coreV3 = c'.version? .coreV3 →
        ∀ flag ∈ [Flag.defaultParameterValues, .parameterArrays,
          .stringToTemporalConversion, .theoryDataRow],
          c.supports flag = c'.supports flag) ∧
    (c.version? .assertV2 = c'.version? .assertV2 →
      c.version? .assertV3 = c'.version? .assertV3 →
        ∀ flag ∈ [Flag.failAssertion, .nullAssertionWithPointers,
          .inexactTypeAssertions],
          c.supports flag = c'.supports flag) := by
  have hcore : ∀ flag ∈ [Flag.defaultParameterValues, .parameterArrays,
      .stringToTemporalConversion, .theoryDataRow],
      flag.concern.families = [.coreV3, .coreV2] := by
    decide
  have hassert : ∀ flag ∈ [Flag.failAssertion, .nullAssertionWithPointers,
      .inexactTypeAssertions],
      flag.concern.families = [.assertV3, .assertV2] := by
    decide
  refine ⟨fun u flag => u.supports, fun h2 h3 flag hflag => ?_,
    fun h2 h3 flag hflag => ?_⟩
  · apply supports_congr
    rw [hcore flag hflag]
    simp [h2, h3]
  · apply supports_congr
    rw [hassert flag hflag]
    simp [h2, h3]

/-- An assertion library of unknown version is upgraded to the newer one, which
leaves the features of the core as they were; a newer core leaves those of the
assertions. -/
theorem supports_monotone_and_local_mixed :
    let c := resolve [⟨"xunit.core", some (.release 2 4 2)⟩,
      ⟨"xunit.assert", none⟩] .empty
    let asserting := resolve [⟨"xunit.v3.assert", none⟩,
      ⟨"XUNIT.Core", some (.release 2 4 2)⟩,
      ⟨"xunit.assert", some (.release 2 5 0)⟩] .empty
    let renewed := resolve [⟨"xunit.v3.core", none⟩,
      ⟨"xunit.assert", none⟩] .empty
    asserting.supports .stringToTemporalConversion = true ∧
      c.supports .theoryDataRow = asserting.supports .theoryDataRow ∧
      c.supports .failAssertion = renewed.supports .failAssertion := by
  intro c asserting renewed
  have hc : c.activation =
      { coreV2 := some (some (.release 2 4 2)), assertV2 := some none } := by
    decide +kernel
  have hasserting : asserting.activation =
      { coreV2 := some (some (.release 2 4 2)),
        assertV2 := some (some (.release 2 5 0)), assertV3 := some none } := by
    decide +kernel
  have hrenewed : renewed.activation =
      { coreV3 := some none, assertV2 := some none } := by
    decide +kernel
  have hupgrade : c.UpgradesTo asserting := by
    intro f v hv
    rw [version?, hc] at hv
    rw [version?, hasserting]
    cases f with
    | coreV2 =>
        cases hv
        exact ⟨_, rfl, .known (by decide)⟩
    | assertV2 =>
        cases hv
        exact ⟨_, rfl, .unknown _⟩
    | coreV3 | assertV3 | abstractionsV2 | commonV3 | executionV2
      | runnerUtilityV2 | runnerUtilityV3 => cases hv
  refine ⟨(supports_monotone_and_local c asserting).1 hupgrade _ ?_,
    (supports_monotone_and_local c asserting).2.1 ?_ ?_ _ (by decide),
    (supports_monotone_and_local c renewed).2.2 ?_ ?_ _ (by decide)⟩
  · decide +kernel
  · rw [version?, version?, hc, hasserting]
    rfl
  · rw [version?, version?, hc, hasserting]
    rfl
  · rw [version?, version?, hc, hrenewed]
    rfl
  · rw [version?, version?, hc, hrenewed]
    rfl

end Capabilities

end Verdicts
