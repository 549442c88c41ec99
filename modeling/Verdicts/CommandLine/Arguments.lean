import Verdicts.CommandLine.LogFormat
import Verdicts.Library.Reference

/-!
# Command-line arguments

The arguments name a command, before and after which options may stand. An
option is written `--name value` or `--name=value`; those with a letter also
`-l value`, `-lvalue` or `-l=value`, and letters of options without value may
share one dash. After `--` everything is a plain argument.

The value of an option is read when it is attached to the option, else when the
next option, plain argument or the end of the arguments has come. The first
fault met in this order decides the error.
-/

namespace Verdicts

/-- The form in which a report is written. -/
inductive ReportFormat where
  | text
  | json
  deriving DecidableEq, Repr

/-- The commands. -/
inductive CommandName where
  | capabilities
  | convert
  | classify
  deriving DecidableEq, Repr

/-- Why arguments are refused. -/
inductive UsageError where
  /-- An option that is unknown here, or a plain argument too many. -/
  | unknownArgument
  /-- A plain argument where a command should stand. -/
  | unknownCommand
  /-- There are options but no command. -/
  | missingCommand
  /-- A plain argument is missing. -/
  | missingArgument
  /-- An option has no value, or not one of its fixed values. -/
  | invalidValue
  /-- The value of an option does not have its form. -/
  | refusedValue (message : String)
  /-- An option that may be given once is given again. -/
  | repeatedOption
  /-- An option that takes no value has one attached. -/
  | attachedValue
  /-- Help is asked for. -/
  | help
  /-- Nothing is given at all, so that help is shown. -/
  | helpOnNothing
  /-- The version is asked for. -/
  | version
  deriving DecidableEq, Repr

/-- What describes the program under analysis. -/
structure ProgramSource where
  manifest : Option String
  references : List Reference
  overrides : List (Family × Version)
  deriving DecidableEq, Repr

/-- What is asked about the program. -/
inductive Request where
  | capabilities
  | convert (source destination : String)
  | classify (types : List String)
  deriving DecidableEq, Repr

/-- What the arguments ask for. -/
structure Invocation where
  request : Request
  source : ProgramSource
  format : ReportFormat
  logFormat : Option LogFormat
  noColor : Bool
  deriving DecidableEq, Repr

namespace CommandName

/-- The command of a name. -/
def ofText? : String → Option CommandName
  | "capabilities" => some .capabilities
  | "convert" => some .convert
  | "classify" => some .classify
  | _ => none

/-- Whether a command takes another plain argument after some. -/
def takesAnother : CommandName → Nat → Bool
  | .capabilities, _ => false
  | .convert, given => given < 2
  | .classify, _ => true

/-- The request that a command makes with its plain arguments, if there are
enough of them. -/
def request? : CommandName → List String → Option Request
  | .capabilities, _ => some .capabilities
  | .convert, [source, destination] => some (.convert source destination)
  | .convert, _ => none
  | .classify, [] => none
  | .classify, types => some (.classify types)

end CommandName

namespace CommandLine

/-! ## Options -/

/-- The options that take a value. -/
inductive ValueOption where
  | format
  | logFormat
  | manifest
  | reference
  | override
  deriving DecidableEq, Repr

/-- The options that take none. -/
inductive PlainOption where
  | noColor
  | help
  | version
  deriving DecidableEq, Repr

/-- An option. -/
inductive CliOption where
  | valued (o : ValueOption)
  | plain (o : PlainOption)
  deriving DecidableEq, Repr

/-- Where options stand: before the command, or after it. -/
inductive Position where
  | beforeCommand
  | afterCommand
  deriving DecidableEq, Repr

/-- The option of a long name at a position. -/
def long? : Position → String → Option CliOption
  | _, "format" => some (.valued .format)
  | _, "log-format" => some (.valued .logFormat)
  | _, "no-color" => some (.plain .noColor)
  | _, "help" => some (.plain .help)
  | .beforeCommand, "version" => some (.plain .version)
  | .afterCommand, "manifest" => some (.valued .manifest)
  | .afterCommand, "reference" => some (.valued .reference)
  | .afterCommand, "override" => some (.valued .override)
  | _, _ => none

/-- The option of a letter at a position. -/
def short? : Position → Char → Option CliOption
  | _, 'h' => some (.plain .help)
  | .beforeCommand, 'V' => some (.plain .version)
  | .afterCommand, 'm' => some (.valued .manifest)
  | .afterCommand, 'r' => some (.valued .reference)
  | _, _ => none

/-! ## Values -/

/-- Cut a text at its first equals sign. -/
def cutAtEquals? (text : String) : Option (String × String) :=
  let cs := text.toList
  match cs.dropWhile (· ≠ '=') with
  | _ :: rest => some (String.ofList (cs.takeWhile (· ≠ '=')), String.ofList rest)
  | [] => none

/-- Read a report format. -/
def readFormat : String → Except UsageError ReportFormat
  | "text" => .ok .text
  | "json" => .ok .json
  | _ => .error .invalidValue

/-- Read a log format. -/
def readLogFormat (value : String) : Except UsageError LogFormat :=
  match LogFormat.ofText? value with
  | some f => .ok f
  | none => .error (.refusedValue (LogFormat.refusal value))

/-- Read the path of a manifest. -/
def readPath (value : String) : Except UsageError String :=
  if value.isEmpty then .error .invalidValue else .ok value

/-- Read a version as part of a value. -/
def readVersion (value : String) : Except UsageError Version :=
  (Version.ofText value).mapError fun e => .refusedValue e.message

/-- Read a reference: a name, and a version after an equals sign. -/
def readReference (value : String) : Except UsageError Reference := do
  let plain (name : String) := String.ofList (Text.trim name.toList)
  match cutAtEquals? value with
  | some (name, version) => return ⟨plain name, some (← readVersion version)⟩
  | none => return ⟨plain value, none⟩

/-- Read an override: a family and a version with an equals sign between. -/
def readOverride (value : String) : Except UsageError (Family × Version) := do
  match cutAtEquals? value with
  | some (family, version) =>
    let f ← (Family.ofText family).mapError fun e => .refusedValue e.message
    return (f, ← readVersion version)
  | none => .error (.refusedValue ("expected FAMILY=VERSION, got `" ++ value ++ "`"))

/-! ## Gathering -/

/-- What the arguments read so far say. -/
structure Gathered where
  format : Option ReportFormat
  logFormat : Option LogFormat
  noColor : Bool
  source : ProgramSource
  /-- The plain arguments. -/
  plain : List String
  /-- The last option that takes a value, with the value once it has come;
  the value has not been read yet. -/
  pending : Option (ValueOption × Option String)

namespace Gathered

/-- Nothing is said. -/
def nothing : Gathered := ⟨none, none, false, ⟨none, [], []⟩, [], none⟩

/-- Set an option that may be given once. -/
def once {α : Type} (before : Option α) (value : Except UsageError α) :
    Except UsageError (Option α) :=
  match before with
  | some _ => .error .repeatedOption
  | none => value.map some

/-- Read the value of an option. -/
def read (g : Gathered) (o : ValueOption) (value : String) : Except UsageError Gathered :=
  match o with
  | .format => return { g with format := ← once g.format (readFormat value) }
  | .logFormat => return { g with logFormat := ← once g.logFormat (readLogFormat value) }
  | .manifest => do
    let manifest ← once g.source.manifest (readPath value)
    return { g with source := { g.source with manifest := manifest } }
  | .reference => do
    let r ← readReference value
    return { g with source := { g.source with references := g.source.references ++ [r] } }
  | .override => do
    let pin ← readOverride value
    return { g with source := { g.source with overrides := g.source.overrides ++ [pin] } }

/-- Read the value that is pending. -/
def settle (g : Gathered) : Except UsageError Gathered :=
  match g.pending with
  | none => .ok g
  | some (_, none) => .error .invalidValue
  | some (o, some value) => { g with pending := none }.read o value

/-- Whether the next argument may be the value of an option. -/
def awaitsValue (g : Gathered) : Bool :=
  match g.pending with
  | some (_, none) => true
  | _ => false

/-- Take an option with an attached value, if there is one. -/
def takeValued (g : Gathered) (o : ValueOption) (attached : Option String) :
    Except UsageError Gathered := do
  let g ← g.settle
  match attached with
  | some value => g.read o value
  | none => return { g with pending := some (o, none) }

/-- Take an option without value. -/
def takePlain (g : Gathered) (o : PlainOption) : Except UsageError Gathered := do
  let g ← g.settle
  match o with
  | .noColor => if g.noColor then .error .repeatedOption else return { g with noColor := true }
  | .help => .error .help
  | .version => .error .version

/-- Take an option by its long name. -/
def takeLong (g : Gathered) (position : Position) (name : String)
    (attached : Option String) : Except UsageError Gathered :=
  match long? position name, attached with
  | some (.valued o), _ => g.takeValued o attached
  | some (.plain o), none => g.takePlain o
  | some (.plain _), some _ => .error .attachedValue
  | none, _ => .error .unknownArgument

/-- Take the options of letters behind one dash. What follows the letter of an
option that takes a value is the value. -/
def takeShort (position : Position) : Gathered → List Char → Except UsageError Gathered
  | g, [] => .ok g
  | g, c :: rest =>
    match short? position c with
    | some (.plain o) => do takeShort position (← g.takePlain o) rest
    | some (.valued o) =>
      match rest with
      | [] => g.takeValued o none
      | '=' :: value => g.takeValued o (some (String.ofList value))
      | value => g.takeValued o (some (String.ofList value))
    | none => .error .unknownArgument

/-- Take the value for which an option waits. -/
def takePending (g : Gathered) (value : String) : Gathered :=
  { g with pending := g.pending.map fun p => (p.1, some value) }

/-- Take a plain argument of a command. -/
def takeArgument (g : Gathered) (c : CommandName) (value : String) :
    Except UsageError Gathered := do
  if c.takesAnother g.plain.length then
    let g ← g.settle
    return { g with plain := g.plain ++ [value] }
  else
    .error .unknownArgument

end Gathered

/-! ## Arguments -/

/-- What an argument looks like before `--`. -/
inductive Look where
  /-- The argument `--`. -/
  | separator
  /-- An option by its long name, with an attached value if there is one. -/
  | long (name : String) (attached : Option String)
  /-- Options by their letters. -/
  | short (letters : List Char)
  | plain
  deriving DecidableEq, Repr

/-- What an argument looks like. -/
def look (argument : String) : Look :=
  match argument.toList with
  | ['-', '-'] => .separator
  | '-' :: '-' :: rest =>
    match cutAtEquals? (String.ofList rest) with
    | some (name, value) => .long name (some value)
    | none => .long (String.ofList rest) none
  | '-' :: c :: rest => .short (c :: rest)
  | _ => .plain

/-- Gather the arguments after a command. The flag tells whether `--` has been
seen. -/
def gatherAfter (c : CommandName) :
    Gathered → Bool → List String → Except UsageError Gathered
  | g, _, [] => g.settle
  | g, true, a :: rest => do
    gatherAfter c (← g.takeArgument c a) true rest
  | g, false, a :: rest =>
    match look a with
    | .separator => gatherAfter c g true rest
    | .long name attached => do
      gatherAfter c (← g.takeLong .afterCommand name attached) false rest
    | .short letters => do
      gatherAfter c (← Gathered.takeShort .afterCommand g letters) false rest
    | .plain =>
      if g.awaitsValue then
        gatherAfter c (g.takePending a) false rest
      else do
        gatherAfter c (← g.takeArgument c a) false rest

/-- The error after the command `help`: it may be followed by one command. -/
def helpError : List String → UsageError
  | [] => .help
  | [name] =>
    if name = "help" || (CommandName.ofText? name).isSome then .help else .unknownCommand
  | _ => .unknownCommand

/-- Gather the arguments before the command. Answers the command with the
arguments after it, if there is one. -/
def gatherBefore : Gathered → List String →
    Except UsageError (Gathered × Option (CommandName × List String))
  | g, [] => .ok (g, none)
  | g, a :: rest =>
    match look a with
    | .separator =>
      match rest with
      | [] => .ok (g, none)
      | name :: _ =>
        if name = "help" || (CommandName.ofText? name).isSome then .error .unknownArgument
        else .error .unknownCommand
    | .long name attached => do
      gatherBefore (← g.takeLong .beforeCommand name attached) rest
    | .short letters => do
      gatherBefore (← Gathered.takeShort .beforeCommand g letters) rest
    | .plain =>
      if g.awaitsValue then
        gatherBefore (g.takePending a) rest
      else if a = "help" then
        .error (helpError rest)
      else
        match CommandName.ofText? a with
        | some c => .ok (g, some (c, rest))
        | none => .error .unknownCommand

/-- Whether any option has been given. -/
def Gathered.saysSomething (g : Gathered) : Bool :=
  g.format.isSome || g.logFormat.isSome || g.noColor

end CommandLine

open CommandLine in
/-- What arguments ask for. Options that may stand on both sides of the command
count from behind it first. -/
def Invocation.ofArguments (arguments : List String) : Except UsageError Invocation := do
  let (before, command) ← gatherBefore Gathered.nothing arguments
  match command with
  | none =>
    let before ← before.settle
    .error (if before.saysSomething then .missingCommand else .helpOnNothing)
  | some (c, rest) =>
    let after ← gatherAfter c Gathered.nothing false rest
    match c.request? after.plain with
    | none => .error .missingArgument
    | some request =>
      let before ← before.settle
      return {
        request := request
        source := after.source
        format := (after.format <|> before.format).getD .text
        logFormat := after.logFormat <|> before.logFormat
        noColor := after.noColor || before.noColor }

end Verdicts
