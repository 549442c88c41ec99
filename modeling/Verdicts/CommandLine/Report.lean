import Verdicts.CommandLine.Arguments
import Verdicts.Judgement.Convertible
import Verdicts.Judgement.Reliability
import Verdicts.Judgement.Serializability
import Verdicts.Json.Basic
import Verdicts.Types.Display

/-!
# Reports

The reports of the three commands, as text for people, possibly in colour, and
as JSON.
-/

namespace Verdicts

/-- What a program's framework offers. -/
structure CapabilityReport where
  families : List (Family × Option Version)
  flags : List (Flag × Bool)
  /-- The display names of the framework types that the program has. -/
  frameworkTypes : List (FrameworkType × Option String)

/-- Whether data of one type binds to a parameter of another. -/
structure ConversionReport where
  source : String
  destination : String
  convertible : Bool

/-- How a type serializes. -/
structure ClassificationEntry where
  name : String
  tier : Tier
  ignored : Bool

/-- The answer of a command. -/
inductive Report where
  | capabilities (report : CapabilityReport)
  | conversion (report : ConversionReport)
  | classification (entries : List ClassificationEntry)

/-! ## Text -/

/-- How a piece of text stands out on a terminal. -/
inductive Ink where
  | bold
  | dimmed
  | red
  | green
  | yellow
  deriving DecidableEq, Repr

namespace Ink

/-- The number by which terminals know an ink. -/
def code : Ink → String
  | .bold => "1"
  | .dimmed => "2"
  | .red => "31"
  | .green => "32"
  | .yellow => "33"

/-- A text in an ink, when colour is wanted. -/
def paint (ink : Ink) (color : Bool) (text : String) : String :=
  if color then "\x1b[" ++ ink.code ++ "m" ++ text ++ "\x1b[0m" else text

end Ink

/-- A text followed by blanks up to a width. -/
def padded (width : Nat) (text : String) : String :=
  text ++ String.ofList (List.replicate (width - text.length) ' ')

/-- The line of a table: a name, padded, and a value. -/
def tableLine (width : Nat) (name value : String) : String :=
  "  " ++ padded width name ++ " " ++ value ++ "\n"

/-- A heading on its own line. -/
def headingLine (color : Bool) (text : String) : String :=
  Ink.bold.paint color text ++ "\n"

/-- The word for a truth value. -/
def yesOrNo (color answer : Bool) : String :=
  if answer then Ink.green.paint color "yes" else Ink.red.paint color "no"

/-- The ink of a tier. -/
def Tier.ink : Tier → Ink
  | .never => .red
  | .possibly => .yellow
  | .always => .green

namespace CapabilityReport

/-- The report for people. -/
def text (r : CapabilityReport) (color : Bool) : String :=
  let families := r.families.map fun (f, v) =>
    tableLine 24 f.name (match v with
      | some v => v.text
      | none => "unversioned")
  let flags := r.flags.map fun (flag, answer) =>
    tableLine 40 flag.name (yesOrNo color answer)
  let types := r.frameworkTypes.map fun (w, name) =>
    tableLine 40 w.title (name.getD (Ink.dimmed.paint color "-"))
  headingLine color "Families"
    ++ (if families.isEmpty then "  (none)\n" else String.join families)
    ++ "\n" ++ headingLine color "Flags" ++ String.join flags
    ++ "\n" ++ headingLine color "Well-known types" ++ String.join types

/-- The report for machines. -/
def toJson (r : CapabilityReport) : Json :=
  let orNull (text? : Option String) : Json := (text?.map Json.text).getD .null
  Json.record
    [("families", .array (r.families.map fun (f, v) =>
        Json.record [("family", .text f.name), ("version", orNull (v.map (·.text)))])),
      ("flags", Json.record (r.flags.map fun (flag, answer) => (flag.name, .bool answer))),
      ("well_known", Json.record (r.frameworkTypes.map fun (w, name) =>
        (w.key, orNull name)))]

end CapabilityReport

namespace ConversionReport

/-- The report for people. -/
def text (r : ConversionReport) (color : Bool) : String :=
  r.source ++ " -> " ++ r.destination ++ ": " ++ yesOrNo color r.convertible ++ "\n"

/-- The report for machines. -/
def toJson (r : ConversionReport) : Json :=
  Json.record
    [("source", .text r.source), ("destination", .text r.destination),
      ("convertible", .bool r.convertible)]

end ConversionReport

namespace ClassificationEntry

/-- The line of a type in the report for people. -/
def text (e : ClassificationEntry) (color : Bool) : String :=
  e.name ++ ": " ++ e.tier.ink.paint color e.tier.name
    ++ (if e.ignored then " " ++ Ink.dimmed.paint color "(ignored)" else "") ++ "\n"

/-- A type in the report for machines. -/
def toJson (e : ClassificationEntry) : Json :=
  Json.record
    [("type", .text e.name), ("tier", .text e.tier.name), ("ignored", .bool e.ignored)]

end ClassificationEntry

namespace Report

/-- The report for people. -/
def text (r : Report) (color : Bool) : String :=
  match r with
  | .capabilities report => report.text color
  | .conversion report => report.text color
  | .classification entries => String.join (entries.map (·.text color))

/-- The report for machines. -/
def toJson : Report → Json
  | .capabilities report => report.toJson
  | .conversion report => report.toJson
  | .classification entries =>
    Json.record [("entries", .array (entries.map ClassificationEntry.toJson))]

/-- The report in a format. -/
def render (r : Report) (format : ReportFormat) (color : Bool) : String :=
  match format with
  | .text => r.text color
  | .json => r.toJson.indentedText ++ "\n"

end Report

end Verdicts
