import Verdicts.Text
import Verdicts.Types.Supertypes

/-!
# Display names

The name under which reports show a type: the keyword of a built-in type, else
the qualified name without the number of type parameters, with type arguments
between angle brackets, `[]` after the element type of an array and `?` after
the underlying type of a nullable type. What lies deeper than
`Table.depthLimit` levels is cut short.
-/

namespace Verdicts

/-- A qualified name without the number of type parameters. -/
def plainName (name : String) : String :=
  String.ofList (name.toList.takeWhile (· ≠ '\x60'))

/-- A handle written as a number. -/
def Handle.text (h : Handle) : String :=
  "#" ++ Text.numeral h.index

/-- The name shown for a handle that names no type. -/
def Handle.unknownName (h : Handle) : String :=
  "<unknown " ++ h.text ++ ">"

namespace Table

/-- A name with type arguments. -/
def applied (name : String) (arguments : List String) : String :=
  name ++ "<" ++ ", ".intercalate arguments ++ ">"

/-- The name of a type, down to a number of levels. -/
def displayWithin (t : Table) : Nat → Handle → String
  | 0, _ => "..."
  | levels + 1, h =>
    match t.shape? h with
    | none => h.unknownName
    | some (.named d) =>
      match d.builtIn.bind BuiltIn.keyword? with
      | some keyword => keyword
      | none =>
        if d.parameters.isEmpty then plainName d.name
        else applied (plainName d.name) (d.parameters.map (t.displayWithin levels))
    | some (.array e) => t.displayWithin levels e ++ "[]"
    | some (.constructed d as) =>
      match t.nullableUnderlying? h with
      | some underlying => t.displayWithin levels underlying ++ "?"
      | none =>
        let name := match t.definition? d with
          | some definition => plainName definition.name
          | none => d.unknownName
        applied name (as.map (t.displayWithin levels))
    | some (.parameter name _) => name
    | some (.other name _) => name

/-- The name under which a type is shown. -/
def display (t : Table) (h : Handle) : String :=
  t.displayWithin (depthLimit + 1) h

end Table

end Verdicts
