import Verdicts.Types.Assignability

/-!
# Conversions

The conversion from one type to another, if the language has one. Implicit
conversions are tried first, by identity, numeric widening, lifting into a
nullable type, assignability and the conversions that the program defines; then
explicit ones.
-/

namespace Verdicts

/-- Whether a conversion happens by itself or has to be written. -/
inductive ConversionMode where
  | implicit
  | explicit
  deriving DecidableEq, Repr

/-- The rule of the language that yields a conversion. -/
inductive ConversionRule where
  | identity
  | numeric
  | unboxing
  | boxing
  | reference
  | userDefined
  | nullable
  | enumeration
  deriving DecidableEq, Repr

/-- A conversion between two types. -/
structure Conversion where
  mode : ConversionMode
  rule : ConversionRule
  deriving DecidableEq, Repr

/-- The marks under which reports list a conversion, in their order. -/
inductive ConversionMark where
  | exists
  | identity
  | implicit
  | explicit
  | numeric
  | unboxing
  | boxing
  | reference
  | userDefined
  | nullable
  | enumeration
  deriving DecidableEq, Repr

namespace ConversionMark

/-- Every mark, in the order of reports. -/
def all : List ConversionMark :=
  [.exists, .identity, .implicit, .explicit, .numeric, .unboxing, .boxing,
   .reference, .userDefined, .nullable, .enumeration]

/-- The name of a mark. -/
def name : ConversionMark → String
  | .exists => "EXISTS"
  | .identity => "IDENTITY"
  | .implicit => "IMPLICIT"
  | .explicit => "EXPLICIT"
  | .numeric => "NUMERIC"
  | .unboxing => "UNBOXING"
  | .boxing => "BOXING"
  | .reference => "REFERENCE"
  | .userDefined => "USER_DEFINED"
  | .nullable => "NULLABLE"
  | .enumeration => "ENUMERATION"

end ConversionMark

namespace Conversion

/-- The mark of a mode. -/
def markOfMode : ConversionMode → ConversionMark
  | .implicit => .implicit
  | .explicit => .explicit

/-- The mark of a rule. -/
def markOfRule : ConversionRule → ConversionMark
  | .identity => .identity
  | .numeric => .numeric
  | .unboxing => .unboxing
  | .boxing => .boxing
  | .reference => .reference
  | .userDefined => .userDefined
  | .nullable => .nullable
  | .enumeration => .enumeration

/-- Whether a conversion bears a mark. -/
def bears (c : Conversion) (mark : ConversionMark) : Bool :=
  mark = .exists || mark = markOfMode c.mode || mark = markOfRule c.rule

/-- The marks of a conversion, in the order of reports. -/
def marks (c : Conversion) : List ConversionMark :=
  ConversionMark.all.filter c.bears

end Conversion

/-- Whether every value of one numeric type is carried over into another by
itself. -/
def BuiltIn.widensTo : BuiltIn → BuiltIn → Bool
  | .sbyte, .int16 | .sbyte, .int32 | .sbyte, .int64 | .sbyte, .single
  | .sbyte, .double | .sbyte, .decimal => true
  | .byte, .int16 | .byte, .uint16 | .byte, .int32 | .byte, .uint32 | .byte, .int64
  | .byte, .uint64 | .byte, .single | .byte, .double | .byte, .decimal => true
  | .int16, .int32 | .int16, .int64 | .int16, .single | .int16, .double
  | .int16, .decimal => true
  | .uint16, .int32 | .uint16, .uint32 | .uint16, .int64 | .uint16, .uint64
  | .uint16, .single | .uint16, .double | .uint16, .decimal => true
  | .int32, .int64 | .int32, .single | .int32, .double | .int32, .decimal => true
  | .uint32, .int64 | .uint32, .uint64 | .uint32, .single | .uint32, .double
  | .uint32, .decimal => true
  | .int64, .single | .int64, .double | .int64, .decimal => true
  | .uint64, .single | .uint64, .double | .uint64, .decimal => true
  | .char, .uint16 | .char, .int32 | .char, .uint32 | .char, .int64 | .char, .uint64
  | .char, .single | .char, .double | .char, .decimal => true
  | .single, .double => true
  | _, _ => false

namespace Table

/-- Whether both types stand for built-in types between which numeric
conversions exist. -/
def areNumeric (t : Table) (source destination : Handle) : Bool :=
  (t.tag? source).any BuiltIn.isNumeric && (t.tag? destination).any BuiltIn.isNumeric

/-- Whether the one type widens to the other. -/
def widens (t : Table) (source destination : Handle) : Bool :=
  match t.tag? source, t.tag? destination with
  | some s, some d => s.widensTo d
  | _, _ => false

/-- Whether a value becomes nullable by itself: the destination is nullable
over the type of the value, or over one to which that type widens. -/
def lifts (t : Table) (source destination : Handle) : Bool :=
  match t.nullableUnderlying? destination with
  | some underlying =>
    let plain := (t.nullableUnderlying? source).getD source
    plain = underlying || t.widens plain underlying
  | none => false

/-- The implicit conversion between different types. -/
def implicitConversion (source destination : Handle) :
    StateM Table (Option Conversion) := do
  let t ← get
  if t.widens source destination then
    return some ⟨.implicit, .numeric⟩
  else if t.lifts source destination then
    return some ⟨.implicit, .nullable⟩
  else if ← assignable source destination then
    return some ⟨.implicit, if t.isValueType source then .boxing else .reference⟩
  else if t.conversion? source destination = some true then
    return some ⟨.implicit, .userDefined⟩
  else
    return none

/-- Whether an enumeration converts between itself and another enumeration or
a number. -/
def convertsEnum (t : Table) (source destination : Handle) : Bool :=
  let numeric (h : Handle) : Bool := (t.tag? h).any BuiltIn.isNumeric
  (t.kind source = .enum && (t.kind destination = .enum || numeric destination))
    || (t.kind destination = .enum && numeric source)

/-- Whether a nullable type takes part and the underlying types are the same or
both numeric. -/
def unlifts (t : Table) (source destination : Handle) : Bool :=
  let from? := t.nullableUnderlying? source
  let to? := t.nullableUnderlying? destination
  let plainSource := from?.getD source
  let plainDestination := to?.getD destination
  (from?.isSome || to?.isSome)
    && (plainSource = plainDestination || t.areNumeric plainSource plainDestination)

/-- Whether an interface on one side leaves room for a common subtype. -/
def crossesInterface (t : Table) (source destination : Handle) : Bool :=
  (t.kind source = .interface
      && (t.kind destination = .interface || !t.isClosed destination))
    || (t.kind destination = .interface && !t.isClosed source)

/-- Whether a reference may hold a boxed value of the destination, or of the
type that underlies it. -/
def unboxes (t : Table) (source destination : Handle) : StateM Table Bool :=
  let plain := (t.nullableUnderlying? destination).getD destination
  if t.isValueType plain && t.isReferenceType source then
    assignable plain source
  else
    return false

/-- Whether a reference of the source type may turn out to be one of the
destination type. -/
def refers (t : Table) (source destination : Handle) : StateM Table Bool :=
  if t.isReferenceType source && t.isReferenceType destination then
    (· || t.crossesInterface source destination) <$> assignable destination source
  else
    return false

/-- The explicit conversion between different types, when there is no implicit
one. -/
def explicitConversion (source destination : Handle) :
    StateM Table (Option Conversion) := do
  let t ← get
  if t.areNumeric source destination then
    return some ⟨.explicit, .numeric⟩
  else if t.convertsEnum source destination then
    return some ⟨.explicit, .enumeration⟩
  else if ← t.unboxes source destination then
    return some ⟨.explicit, .unboxing⟩
  else if t.unlifts source destination then
    return some ⟨.explicit, .nullable⟩
  else if ← t.refers source destination then
    return some ⟨.explicit, .reference⟩
  else if (t.conversion? source destination).isSome then
    return some ⟨.explicit, .userDefined⟩
  else
    return none

/-- The conversion from one type to another. Types of unknown kind have
none. -/
def conversion (source destination : Handle) : StateM Table (Option Conversion) := do
  let t ← get
  if t.kind source = .unknown || t.kind destination = .unknown then
    return none
  else if source = destination then
    return some ⟨.implicit, .identity⟩
  else
    match ← implicitConversion source destination with
    | some c => return some c
    | none => explicitConversion source destination

end Table

end Verdicts
