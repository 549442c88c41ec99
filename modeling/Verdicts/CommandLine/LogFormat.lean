import Verdicts.Text

/-!
# Log formats

The formats in which events can be logged, and the environment variables that
ask for logs and choose the format.
-/

namespace Verdicts

/-- The format of logged events. -/
inductive LogFormat where
  | text
  | tree
  | json
  deriving DecidableEq, Repr, Inhabited

namespace LogFormat

/-- Every log format. -/
def all : List LogFormat := [.text, .tree, .json]

/-- The name of a log format. -/
def name : LogFormat → String
  | .text => "text"
  | .tree => "tree"
  | .json => "json"

/-- A text as it is compared with the names of the formats: without blanks at
the ends, and with ASCII capitals made small. -/
def plain (input : String) : String :=
  String.ofList (Text.fold (Text.trim input.toList))

/-- The log format of a name. -/
def ofText? (input : String) : Option LogFormat :=
  all.find? fun f => f.name = plain input

/-- The sentence that refuses an unknown name of a log format. -/
def refusal (input : String) : String :=
  "unknown log format `" ++ plain input ++ "` (expected text, tree or json)"

/-- The log format that an environment chooses: plain lines unless it names
another format. -/
def ofEnvironment (valueOf? : String → Option String) : LogFormat :=
  ((valueOf? "XAN_LOG_FORMAT").bind ofText?).getD .text

/-- Whether an environment asks for logs. -/
def isRequested (valueOf? : String → Option String) : Bool :=
  (valueOf? "XAN_LOG").isSome || (valueOf? "RUST_LOG").isSome

end LogFormat

end Verdicts
