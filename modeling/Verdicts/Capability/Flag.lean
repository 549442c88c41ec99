import Verdicts.Library.Reference

/-!
# Feature flags

Each flag says whether the framework has one feature. A family of the flag's
concern has the feature always, never, or from some version on.
-/

namespace Verdicts

/-- Since when a library has a feature. -/
inductive Availability where
  | never
  | since (version : Version)
  | always
  deriving DecidableEq, Repr

/-- Whether a library of a version, if that is known, has a feature. -/
def Availability.admits : Availability → Option Version → Bool
  | .never, _ => false
  | .always, _ => true
  | .since first, some v => first ≤ v
  | .since _, none => false

/-- A feature of the framework. -/
inductive Flag where
  /-- Theory parameters may have default values. -/
  | defaultParameterValues
  /-- The last theory parameter may collect arguments. -/
  | parameterArrays
  /-- Data strings convert to identifiers and to times with an offset. -/
  | stringToTemporalConversion
  | theoryDataRow
  | failAssertion
  | nullAssertionWithPointers
  | inexactTypeAssertions
  deriving DecidableEq, Repr

namespace Flag

/-- Every flag, in the order of reports. -/
def all : List Flag :=
  [.defaultParameterValues, .parameterArrays, .stringToTemporalConversion,
   .theoryDataRow, .failAssertion, .nullAssertionWithPointers, .inexactTypeAssertions]

/-- The name of a flag. -/
def name : Flag → String
  | .defaultParameterValues => "supports_default_parameter_values"
  | .parameterArrays => "supports_parameter_arrays"
  | .stringToTemporalConversion => "supports_string_to_temporal_conversion"
  | .theoryDataRow => "supports_theory_data_row"
  | .failAssertion => "supports_fail_assertion"
  | .nullAssertionWithPointers => "supports_null_assertion_with_pointers"
  | .inexactTypeAssertions => "supports_inexact_type_assertions"

/-- The concern whose library decides a flag. -/
def concern : Flag → Concern
  | .defaultParameterValues | .parameterArrays | .stringToTemporalConversion
  | .theoryDataRow => .core
  | .failAssertion | .nullAssertionWithPointers | .inexactTypeAssertions => .assert

/-- The flags of a concern, in the order of reports. -/
def ofConcern (c : Concern) : List Flag :=
  all.filter fun flag => flag.concern = c

/-- Since when a family has the feature of a flag. -/
def availability : Flag → Family → Availability
  | .defaultParameterValues, .coreV2 => .since (.release 2 2 0)
  | .parameterArrays, .coreV2 => .since (.release 2 2 0)
  | .stringToTemporalConversion, .coreV2 => .since (.release 2 4 2)
  | .defaultParameterValues, .coreV3 | .parameterArrays, .coreV3
  | .stringToTemporalConversion, .coreV3 | .theoryDataRow, .coreV3 => .always
  | .failAssertion, .assertV2 => .since (.release 2 5 0)
  | .nullAssertionWithPointers, .assertV2 => .since (.release 2 5 0)
  | .inexactTypeAssertions, .assertV2 => .since (.release 2 9 3)
  | .failAssertion, .assertV3 | .nullAssertionWithPointers, .assertV3
  | .inexactTypeAssertions, .assertV3 => .always
  | _, _ => .never

end Flag

end Verdicts
