import Verdicts.Text

/-!
# Library families

The test framework ships in two incompatible generations, each split over
several libraries. A family is one such library, or a group of libraries that
differ only in a platform suffix, and is recognised by the library's name.
-/

namespace Verdicts

/-- Major generation of the framework's interface. -/
inductive Generation where
  | v2
  | v3
  deriving DecidableEq, Repr

/-- The area of the framework that a family provides. -/
inductive Concern where
  | core
  | assert
  | abstractions
  | execution
  | runnerUtility
  deriving DecidableEq, Repr

/-- How a family recognises the name of a library. -/
inductive NamePattern where
  /-- The name itself. -/
  | exact (name : String)
  /-- Any name that begins so. -/
  | startingWith (head : String)
  deriving DecidableEq, Repr

/-- Whether a library name has the pattern, without regard to ASCII case. -/
def NamePattern.admits : NamePattern → String → Bool
  | .exact expected, name => Text.sameFolded name expected
  | .startingWith head, name => Text.startsFolded name head

/-- The libraries of the test framework. -/
inductive Family where
  | coreV2
  | coreV3
  | assertV2
  | assertV3
  | abstractionsV2
  | commonV3
  | executionV2
  | runnerUtilityV2
  | runnerUtilityV3
  deriving DecidableEq, Repr

namespace Generation

/-- The name of a generation. -/
def name : Generation → String
  | .v2 => "v2"
  | .v3 => "v3"

end Generation

namespace Concern

/-- The name of a concern. -/
def name : Concern → String
  | .core => "core"
  | .assert => "assert"
  | .abstractions => "abstractions"
  | .execution => "execution"
  | .runnerUtility => "runner-utility"

/-- Every concern. -/
def all : List Concern :=
  [.core, .assert, .abstractions, .execution, .runnerUtility]

/-- The families that provide a concern, newest generation first. -/
def families : Concern → List Family
  | .core => [.coreV3, .coreV2]
  | .assert => [.assertV3, .assertV2]
  | .abstractions => [.commonV3, .abstractionsV2]
  | .execution => [.executionV2]
  | .runnerUtility => [.runnerUtilityV3, .runnerUtilityV2]

end Concern

namespace Family

/-- Every family, in the order in which reports list them. -/
def all : List Family :=
  [.coreV2, .coreV3, .assertV2, .assertV3, .abstractionsV2, .commonV3,
   .executionV2, .runnerUtilityV2, .runnerUtilityV3]

/-- The name of a family. -/
def name : Family → String
  | .coreV2 => "core-v2"
  | .coreV3 => "core-v3"
  | .assertV2 => "assert-v2"
  | .assertV3 => "assert-v3"
  | .abstractionsV2 => "abstractions-v2"
  | .commonV3 => "common-v3"
  | .executionV2 => "execution-v2"
  | .runnerUtilityV2 => "runner-utility-v2"
  | .runnerUtilityV3 => "runner-utility-v3"

/-- The pattern of the library names of a family. -/
def pattern : Family → NamePattern
  | .coreV2 => .exact "xunit.core"
  | .coreV3 => .startingWith "xunit.v3.core"
  | .assertV2 => .exact "xunit.assert"
  | .assertV3 => .exact "xunit.v3.assert"
  | .abstractionsV2 => .exact "xunit.abstractions"
  | .commonV3 => .exact "xunit.v3.common"
  | .executionV2 => .startingWith "xunit.execution."
  | .runnerUtilityV2 => .startingWith "xunit.runner.utility."
  | .runnerUtilityV3 => .startingWith "xunit.v3.runner.utility."

/-- The generation to which a family belongs. -/
def generation : Family → Generation
  | .coreV2 | .assertV2 | .abstractionsV2 | .executionV2 | .runnerUtilityV2 => .v2
  | .coreV3 | .assertV3 | .commonV3 | .runnerUtilityV3 => .v3

/-- The concern that a family provides. -/
def concern : Family → Concern
  | .coreV2 | .coreV3 => .core
  | .assertV2 | .assertV3 => .assert
  | .abstractionsV2 | .commonV3 => .abstractions
  | .executionV2 => .execution
  | .runnerUtilityV2 | .runnerUtilityV3 => .runnerUtility

/-- Whether a library of the given name belongs to the family. -/
def admits (f : Family) (library : String) : Bool :=
  f.pattern.admits library

/-- The family to which a library of the given name belongs. -/
def identify? (library : String) : Option Family :=
  all.find? fun f => f.admits library

/-- The family whose name is exactly the given text. -/
def ofName? (name : String) : Option Family :=
  all.find? fun f => f.name = name

/-- Every family is listed. -/
theorem mem_all (f : Family) : f ∈ all := by
  cases f <;> decide

end Family

/-- A text that names no family. -/
structure FamilyError where
  input : String
  deriving DecidableEq, Repr

/-- The sentence that reports an unknown family name. -/
def FamilyError.message (e : FamilyError) : String :=
  "unknown library family `" ++ e.input ++ "` (expected one of: core-v2, core-v3, "
    ++ "assert-v2, assert-v3, abstractions-v2, common-v3, execution-v2, "
    ++ "runner-utility-v2, runner-utility-v3)"

/-- Read a family name: blanks at the ends and the case of ASCII letters do
not count, and `_` may stand for `-`. -/
def Family.ofText (input : String) : Except FamilyError Family :=
  let plain := (Text.trim input.toList).map fun c => if c = '_' then '-' else c
  match Family.all.find? fun f => Text.sameFolded f.name (String.ofList plain) with
  | some f => .ok f
  | none => .error ⟨input⟩

end Verdicts
