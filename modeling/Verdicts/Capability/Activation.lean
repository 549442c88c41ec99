import Verdicts.Library.Family
import Verdicts.Library.Version

/-!
# Active families

A program keeps for each family a place of its own, which is empty unless the
family is active and then holds its version. The places are filled from a list
of families once, and from then on they are only read: one by one, as the list
of the active families, or for a generation.
-/

namespace Verdicts

/-- For each family the version with which it is active, if it is; the version
itself may be unknown. -/
structure Activation where
  coreV2 : Option (Option Version) := none
  coreV3 : Option (Option Version) := none
  assertV2 : Option (Option Version) := none
  assertV3 : Option (Option Version) := none
  abstractionsV2 : Option (Option Version) := none
  commonV3 : Option (Option Version) := none
  executionV2 : Option (Option Version) := none
  runnerUtilityV2 : Option (Option Version) := none
  runnerUtilityV3 : Option (Option Version) := none
  deriving DecidableEq, Repr

namespace Activation

/-- No family is active. -/
def empty : Activation := {}

/-- The version with which a family is active, if it is. -/
def version? (a : Activation) : Family → Option (Option Version)
  | .coreV2 => a.coreV2
  | .coreV3 => a.coreV3
  | .assertV2 => a.assertV2
  | .assertV3 => a.assertV3
  | .abstractionsV2 => a.abstractionsV2
  | .commonV3 => a.commonV3
  | .executionV2 => a.executionV2
  | .runnerUtilityV2 => a.runnerUtilityV2
  | .runnerUtilityV3 => a.runnerUtilityV3

/-- Make a family active in a version. -/
def insert (a : Activation) (f : Family) (v : Option Version) : Activation :=
  match f with
  | .coreV2 => { a with coreV2 := some v }
  | .coreV3 => { a with coreV3 := some v }
  | .assertV2 => { a with assertV2 := some v }
  | .assertV3 => { a with assertV3 := some v }
  | .abstractionsV2 => { a with abstractionsV2 := some v }
  | .commonV3 => { a with commonV3 := some v }
  | .executionV2 => { a with executionV2 := some v }
  | .runnerUtilityV2 => { a with runnerUtilityV2 := some v }
  | .runnerUtilityV3 => { a with runnerUtilityV3 := some v }

/-- The families of a list are active in their versions. -/
def ofList (entries : List (Family × Option Version)) : Activation :=
  entries.foldl (fun a entry => a.insert entry.1 entry.2) empty

/-- The active families with their versions, in family order. -/
def toList (a : Activation) : List (Family × Option Version) :=
  [a.coreV2.map (.coreV2, ·), a.coreV3.map (.coreV3, ·),
    a.assertV2.map (.assertV2, ·), a.assertV3.map (.assertV3, ·),
    a.abstractionsV2.map (.abstractionsV2, ·), a.commonV3.map (.commonV3, ·),
    a.executionV2.map (.executionV2, ·), a.runnerUtilityV2.map (.runnerUtilityV2, ·),
    a.runnerUtilityV3.map (.runnerUtilityV3, ·)].filterMap id

/-- Whether a family of a generation is active. -/
def has (a : Activation) : Generation → Bool
  | .v2 => a.coreV2.isSome || a.assertV2.isSome || a.abstractionsV2.isSome
      || a.executionV2.isSome || a.runnerUtilityV2.isSome
  | .v3 => a.coreV3.isSome || a.assertV3.isSome || a.commonV3.isSome
      || a.runnerUtilityV3.isSome

@[simp] theorem version?_empty (f : Family) : empty.version? f = none := by
  cases f <;> rfl

@[simp] theorem version?_insert (a : Activation) (f g : Family) (v : Option Version) :
    (a.insert f v).version? g = if g = f then some v else a.version? g := by
  cases f <;> cases g <;> rfl

/-- The list goes through the places in family order. -/
theorem toList_eq (a : Activation) :
    a.toList = Family.all.filterMap fun f => (a.version? f).map (f, ·) :=
  (List.filterMap_map (l := Family.all)
    (f := fun f => (a.version? f).map (f, ·)) (g := id)).symm

/-- A family is listed in the version with which it is active. -/
theorem mem_toList_iff {a : Activation} {f : Family} {v : Option Version} :
    (f, v) ∈ a.toList ↔ a.version? f = some v := by
  rw [toList_eq, List.mem_filterMap]
  constructor
  · rintro ⟨g, -, hg⟩
    obtain ⟨w, hw, heq⟩ := Option.map_eq_some_iff.mp hg
    cases heq
    exact hw
  · intro h
    exact ⟨f, f.mem_all, by rw [h]; rfl⟩

/-- A generation asks each of its families. -/
theorem has_eq (a : Activation) (g : Generation) :
    a.has g = Family.all.any fun f =>
      decide (f.generation = g) && (a.version? f).isSome := by
  cases g with
  | v2 => simp [has, Family.all, Family.generation, version?, Bool.or_assoc]
  | v3 => simp [has, Family.all, Family.generation, version?, Bool.or_assoc]

/-- A generation has an active family if one of its families is listed. -/
theorem has_iff {a : Activation} {g : Generation} :
    a.has g = true ↔ ∃ f v, (f, v) ∈ a.toList ∧ f.generation = g := by
  simp only [mem_toList_iff]
  rw [has_eq, List.any_eq_true]
  constructor
  · rintro ⟨f, -, hf⟩
    rw [Bool.and_eq_true, decide_eq_true_iff, Option.isSome_iff_exists] at hf
    obtain ⟨hgeneration, v, hv⟩ := hf
    exact ⟨f, v, hv, hgeneration⟩
  · rintro ⟨f, v, hv, hgeneration⟩
    exact ⟨f, f.mem_all, by simp [hv, hgeneration]⟩

end Activation

end Verdicts
