import Verdicts.Judgement.Convertible
import Verdicts.Judgement.Reliability
import Verdicts.Judgement.Serializability
import Verdicts.Types.Display

/-!
# Verdict events

Each public verdict is reported as an event that names the question, the types
that it was about, the answer, and the library version that gates the coercion
of strings. Warnings about shapes that cannot be followed come before the
verdict in which they arose.
-/

namespace Verdicts

/-- A question that is reported. -/
inductive Question where
  | convertible
  | classify
  | ignore
  deriving DecidableEq, Repr

/-- The name of a question. -/
def Question.name : Question → String
  | .convertible => "is_convertible"
  | .classify => "classify"
  | .ignore => "should_ignore"

/-- Something odd about the shape of a type. -/
inductive Warning where
  | cyclicWhenClassified
  | cyclicWhenChecked
  | tooDeep
  deriving DecidableEq, Repr

/-- The sentence of a warning. -/
def Warning.message : Warning → String
  | .cyclicWhenClassified =>
    "array element chain is cyclic; classifying as possibly serializable"
  | .cyclicWhenChecked => "array element chain is cyclic; ignoring"
  | .tooDeep => "type shape exceeds depth limit; ignoring"

/-- What is reported about a verdict. -/
inductive Event where
  | warning (w : Warning)
  | verdict (question : Question) (subject answer gate : String)
  deriving DecidableEq, Repr

namespace Table

/-- How a report names a type. -/
def subject (t : Table) (h : Handle) : String :=
  match t.kind h with
  | .unknown => h.text
  | _ => t.display h

end Table

namespace Capabilities

/-- The library version that gates the coercion of strings. -/
def gate (c : Capabilities) : String :=
  match c.family? .core with
  | none => "none"
  | some f =>
    match c.version? f with
    | some (some v) => f.name ++ "@" ++ v.text
    | _ => f.name ++ "@unversioned"

end Capabilities

namespace Event

/-- The gate of a verdict that no library version decides. -/
def ungated : String := "-"

/-- The events of a verdict on a conversion. -/
def ofConvertible (q : Inquiry) (source destination : Handle) (answer : Bool) :
    List Event :=
  let t := q.program.table
  [.verdict .convertible (t.subject source ++ " -> " ++ t.subject destination)
    (if answer then "convertible" else "not_convertible") q.capabilities.gate]

/-- The events of a tier. -/
def ofTier (p : Program) (h : Handle) (answer : Tier) : List Event :=
  let warnings := match p.innermost h with
    | .cyclic => [.warning .cyclicWhenClassified]
    | _ => []
  warnings ++ [.verdict .classify (p.table.subject h) answer.name ungated]

/-- The events of the answer whether a type is ignored. -/
def ofDoubt (p : Program) (h : Handle) (answer : Option Doubt) : List Event :=
  let warnings := match answer with
    | some .cyclic => [.warning .cyclicWhenChecked]
    | some .tooDeep => [.warning .tooDeep]
    | _ => []
  warnings ++
    [.verdict .ignore (p.table.subject h) (if answer.isSome then "ignored" else "checked")
      ungated]

end Event

end Verdicts
