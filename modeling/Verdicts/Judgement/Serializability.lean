import Verdicts.Capability.Capabilities
import Verdicts.Judgement.Unwinding

/-!
# Whether values survive serialization

The data of a theory is serialized when test cases are found ahead of their
execution. The tier of a type says how sure it is that its values survive:
never, possibly, when the type of a value at run time may differ from the
declared one, or always.

Arrays and nullable types have the tier of what they hold.
-/

namespace Verdicts

/-- How sure it is that values of a type survive serialization. -/
inductive Tier where
  | never
  | possibly
  | always
  deriving DecidableEq, Repr

namespace Tier

/-- The name of a tier. -/
def name : Tier → String
  | .never => "never"
  | .possibly => "possibly"
  | .always => "always"

/-- The place of a tier in the order of certainty. -/
def rank : Tier → Nat
  | .never => 0
  | .possibly => 1
  | .always => 2

instance : LE Tier := ⟨fun a b => a.rank ≤ b.rank⟩

instance (a b : Tier) : Decidable (a ≤ b) :=
  inferInstanceAs (Decidable (a.rank ≤ b.rank))

end Tier

/-- The tier of a built-in type. -/
def BuiltIn.tier : BuiltIn → Tier
  | .boolean | .char | .sbyte | .byte | .int16 | .uint16 | .int32 | .uint32 | .int64
  | .uint64 | .single | .double | .decimal | .string | .dateTime => .always
  | .object | .array | .enum | .valueType | .nullableT | .iEnumerableT
  | .iDisposable => .possibly
  | _ => .never

/-- What a program says about serialization. -/
structure Classifier where
  /-- The marker interfaces of serializable types. -/
  markers : List Handle
  /-- The types with a registered serializer, each once. -/
  registered : List Handle
  deriving DecidableEq, Repr

namespace Table

/-- Whether a type is the given dictionary from a built-in type to the given
lists of that type. -/
def mapsToLists (t : Table) (dictionary list : Handle) (b : BuiltIn) (h : Handle) :
    Bool :=
  t.genericDefinition h = dictionary &&
    match t.arguments h with
    | [key, value] =>
      t.tag? key = some b && t.genericDefinition value = list &&
        match t.arguments value with
        | [item] => t.tag? item = some b
        | _ => false
    | _ => false

end Table

namespace Program

/-- What is serialized in place of a nullable type. -/
def throughNullable (p : Program) (h : Handle) : Handle :=
  (p.table.nullableUnderlying? h).getD h

/-- Where unwinding the arrays and nullable types of a type ends. -/
def innermost (p : Program) (h : Handle) : Landing :=
  p.unwind p.throughNullable (fun h => p.table.kind h ≠ .array) h

end Program

namespace Inquiry

/-- The types for which the program registers serializers: the arguments of the
registration attributes after the first one, which is the serializer. -/
def registeredTypes : StateM Inquiry (List Handle) := do
  match ← frameworkType .registerXunitSerializerAttribute with
  | some registration =>
    let attributes := (← get).program.attributes
    let registrations ← attributes.filterM fun a =>
      Program.onTable (Table.assignable a.attributeClass registration)
    return (registrations.flatMap fun a => a.arguments.drop 1).eraseDups
  | none => return []

/-- Gather what the program says about serialization. -/
def classifier : StateM Inquiry Classifier := do
  let markers ← [FrameworkType.xunitSerializable, .customXunitSerializable].filterMapM
    frameworkType
  return ⟨markers, ← registeredTypes⟩

/-- Whether a type is a dictionary from strings to lists of strings, the shape
of the traits of tests. -/
def isTraitDictionary (h : Handle) : StateM Inquiry Bool := do
  let dictionary? ← systemType .dictionary
  let list? ← systemType .list
  let t := (← get).program.table
  match dictionary?, list? with
  | some dictionary, some list => return t.mapsToLists dictionary list .string h
  | _, _ => return false

/-- Whether a type is one of the library types that always survive. -/
def isDurable (h : Handle) : StateM Inquiry Bool :=
  [SystemType.bigInteger, .dateTimeOffset, .timeSpan, .dateOnly, .timeOnly].anyM fun s => do
    return (← systemType s) = some h

/-- Whether a type is assignable to one of the given types. -/
def isAssignableToAny (h : Handle) (targets : List Handle) : StateM Inquiry Bool :=
  targets.anyM fun target => Program.onTable (Table.assignable h target)

/-- The tier of a type whose values may be of a type derived from it. -/
def openTier (t : Table) (h : Handle) : Tier :=
  match t.kind h with
  | .classType => if t.isClosed h then .never else .possibly
  | .interface | .enum => .possibly
  | _ => .never

/-- The tier of a type that is neither an array nor nullable. -/
def classifyCore (c : Classifier) (h : Handle) : StateM Inquiry Tier := do
  if ← isAssignableToAny h c.markers then
    return .always
  else if ← isTraitDictionary h then
    return .always
  else
    let t := (← get).program.table
    match t.tag? h with
    | some b => return b.tier
    | none =>
      if ← isDurable h then
        return .always
      else if ← isAssignableToAny h c.registered then
        return .always
      else
        return openTier t h

/-- The tier of a type. -/
def classify (c : Classifier) (h : Handle) : StateM Inquiry Tier := do
  let p := (← get).program
  match p.innermost h with
  | .core core => if (p.table.kind core).isData then classifyCore c core else return .never
  | .hollow => return .never
  | .cyclic => return .possibly

end Inquiry

end Verdicts
