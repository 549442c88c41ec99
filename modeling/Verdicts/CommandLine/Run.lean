import Verdicts.CommandLine.Report
import Verdicts.Manifest.Codec
import Verdicts.Manifest.Loading

/-!
# Running a command

A command loads the program, resolves its capabilities, and reports. What the
command line says about the program goes before what the manifest says: its
references come first, and its overrides replace those of the manifest.
-/

namespace Verdicts

/-- The part that a type plays in a request. -/
inductive TypeRole where
  | source
  | destination
  | subject
  deriving DecidableEq, Repr

/-- Why a command has no report. -/
inductive RunError where
  /-- The manifest cannot be read as a text. -/
  | unreadable (path : String)
  /-- The manifest is not JSON of its form. -/
  | malformed (path : String)
  /-- The manifest does not describe a program. -/
  | loading (error : LoadError)
  /-- An argument names no type. -/
  | naming (role : TypeRole) (text : String) (error : NamingError)
  deriving DecidableEq, Repr

namespace RunError

/-- The words that introduce a type by its part. -/
def roleText : TypeRole → String
  | .source => "source type"
  | .destination => "destination type"
  | .subject => "type"

/-- The sentence that reports why a command has no report. -/
def message : RunError → String
  | .unreadable path =>
    "failed to load manifest " ++ path ++ ": failed to read manifest `" ++ path ++ "`"
  | .malformed path => "failed to load manifest " ++ path
  | .loading e => "failed to build the program's types: " ++ e.message
  | .naming role text e =>
    "failed to resolve " ++ roleText role ++ " `" ++ text ++ "`: " ++ e.message

end RunError

/-- Work on an inquiry that may fail. -/
abbrev Running := ExceptT RunError (StateM Inquiry)

namespace ProgramSource

/-- Read the manifest, if one is named. -/
def readManifest (s : ProgramSource) (contents? : String → Option ByteArray) :
    Except RunError Manifest :=
  match s.manifest with
  | none => .ok Manifest.empty
  | some path =>
    match (contents? path).bind String.fromUTF8? with
    | none => .error (.unreadable path)
    | some text =>
      match Manifest.ofText? text with
      | none => .error (.malformed path)
      | some m => .ok m

/-- A manifest with what the command line says put before it. -/
def amend (s : ProgramSource) (m : Manifest) : Manifest :=
  { m with
    references := s.references ++ m.references
    overrides := m.overrides.insertAll s.overrides }

/-- The program with its capabilities. -/
def load (s : ProgramSource) (contents? : String → Option ByteArray) :
    Except RunError Inquiry := do
  let m := s.amend (← s.readManifest contents?)
  let p ← m.load.mapError .loading
  return ⟨p, Capabilities.resolve p.references m.overrides⟩

end ProgramSource

namespace Inquiry

/-- The type that an argument names. -/
def argumentType (role : TypeRole) (text : String) : Running Handle :=
  ExceptT.mk do
    let result ← onProgram (Program.onTable (Table.resolveText text).run)
    return result.mapError (.naming role text)

/-- Report what the framework offers. -/
def reportCapabilities : StateM Inquiry CapabilityReport := do
  let c := (← get).capabilities
  let frameworkTypes ← FrameworkType.all.mapM fun w => do
    let h ← frameworkType w
    let t := (← get).program.table
    return (w, h.map t.display)
  return ⟨c.active, Flag.all.map fun flag => (flag, c.supports flag), frameworkTypes⟩

/-- Report on the conversion between two types. -/
def reportConversion (source destination : String) : Running ConversionReport := do
  let s ← argumentType .source source
  let d ← argumentType .destination destination
  return ⟨source, destination, ← convertible s d⟩

/-- Report how a type serializes. -/
def reportType (c : Classifier) (name : String) : Running ClassificationEntry := do
  let h ← argumentType .subject name
  let tier ← classify c h
  return ⟨name, tier, (← get).program.ignores h⟩

/-- Report how types serialize. -/
def reportTypes (names : List String) : Running (List ClassificationEntry) := do
  let c ← classifier
  names.mapM (reportType c)

/-- Answer a request. -/
def answer : Request → Running Report
  | .capabilities => do
    let report ← reportCapabilities
    return .capabilities report
  | .convert source destination => do
    let report ← reportConversion source destination
    return .conversion report
  | .classify types => do
    let entries ← reportTypes types
    return .classification entries

end Inquiry

namespace Invocation

/-- Run a command, with the contents of files by their paths. Answers the
report as it is printed. -/
def run (i : Invocation) (contents? : String → Option ByteArray) (color : Bool) :
    Except RunError String := do
  let q ← i.source.load contents?
  let report ← ((Inquiry.answer i.request).run q).1
  return report.render i.format (color && !i.noColor)

end Invocation

end Verdicts
