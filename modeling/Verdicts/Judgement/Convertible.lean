import Verdicts.Capability.Capabilities

/-!
# Whether theory data binds to a parameter

The framework coerces the data of a theory to the types of its parameters when
it runs. The verdict tells whether it will attempt the coercion, not whether
every value survives it. The first rule that applies decides:

* a parameter of an unbound type, or an array of one, takes what satisfies the
  constraints of the type parameter;
* numeric conversions succeed, except from floating point to characters;
* times take strings only, and so do times with an offset and identifiers where
  the framework converts strings to them;
* else the conversion has to be implicit, unboxing, or an explicit one that the
  program defines or that concerns nullable types.
-/

namespace Verdicts

namespace Conversion

/-- Whether the framework carries a conversion out when it binds data. -/
def isCoercion (c : Conversion) : Bool :=
  c.mode = .implicit || c.rule = .unboxing || c.rule = .userDefined || c.rule = .nullable

end Conversion

namespace Program

/-- The unbound type parameter that a type is, or of which it is an array. -/
def unboundParameter? (p : Program) (h : Handle) : Option Handle :=
  match p.table.kind h with
  | .typeParameter => some h
  | .array => (p.element? h).filter fun e => p.table.kind e = .typeParameter
  | _ => none

end Program

namespace Table

/-- Whether a type satisfies constraints. -/
def satisfies (h : Handle) (c : Constraints) : StateM Table Bool := do
  let t ← get
  if c.valueType && !t.isValueType h then
    return false
  else if c.referenceType && !t.isReferenceType h then
    return false
  else
    c.types.allM fun bound => assignable h bound

end Table

namespace Inquiry

/-- Whether a type is one of the library types to which the framework converts
strings, where it does so. -/
def isTemporal (h : Handle) : StateM Inquiry Bool :=
  [SystemType.dateTimeOffset, SystemType.guid].anyM fun s => do
    return (← systemType s) = some h

/-- Whether a type takes strings only. -/
def takesStringsOnly (h : Handle) : StateM Inquiry Bool := do
  let q ← get
  if q.program.table.tag? h = some .dateTime then
    return true
  else if q.capabilities.supports .stringToTemporalConversion then
    isTemporal h
  else
    return false

/-- Whether a value of the source type can bind to a parameter of the
destination type. -/
def convertible (source destination : Handle) : StateM Inquiry Bool := do
  let p := (← get).program
  match p.unboundParameter? destination with
  | some parameter =>
    let constraints := (p.table.constraints? parameter).getD Constraints.none
    Program.onTable (Table.satisfies source constraints)
  | none =>
    let conversion ← Program.onTable (Table.conversion source destination)
    if conversion.any (·.rule = .numeric) then
      return !((p.table.tag? source).any BuiltIn.isFloating
        && p.table.tag? destination = some .char)
    else if ← takesStringsOnly destination then
      return p.table.tag? source = some .string
    else
      return conversion.any Conversion.isCoercion

end Inquiry

end Verdicts
