import Verdicts.Types.Supertypes

/-!
# The core library

The part of the language's core library about which verdicts are given: the
built-in types, the structures for times and identifiers, the big integers, and
the generic collections.

The declarations are listed in the order in which they get their handles.
-/

namespace Verdicts.Table

/-- The primitive structures, by name. -/
def primitives : List (String × BuiltIn) :=
  [("System.Boolean", .boolean), ("System.Char", .char), ("System.SByte", .sbyte),
   ("System.Byte", .byte), ("System.Int16", .int16), ("System.UInt16", .uint16),
   ("System.Int32", .int32), ("System.UInt32", .uint32), ("System.Int64", .int64),
   ("System.UInt64", .uint64), ("System.Decimal", .decimal), ("System.Single", .single),
   ("System.Double", .double), ("System.IntPtr", .intPtr), ("System.UIntPtr", .uintPtr),
   ("System.DateTime", .dateTime)]

/-- The library structures that are no built-in types. -/
def plainStructures : List String :=
  ["System.DateTimeOffset", "System.TimeSpan", "System.Guid", "System.DateOnly",
   "System.TimeOnly", "System.Numerics.BigInteger"]

/-- The demands of a parameter without any. -/
def unconstrained (name : String) : String × Constraints :=
  (name, Constraints.none)

/-- Declare an interface. -/
def declareInterface (name : String) : StateM Table Handle :=
  declare { name := name, kind := .interface }

/-- Declare a generic interface with one parameter that extends the given
generic interfaces over the same parameter. -/
def declareCollection (name : String) (b : BuiltIn) (bases : List Handle) :
    StateM Table Handle := do
  let h ← declare
    { name := name, kind := .interface, builtIn := some b, parameters := [unconstrained "T"] }
  let parameters := (← get).arguments h
  bases.forM fun base => do
    addInterface h (← construct base parameters)
  return h

/-- Declare the roots of the type hierarchy. Answers the object type and the
base of the value types. -/
def declareRoots : StateM Table (Handle × Handle) := do
  let object ← declare
    { name := "System.Object", kind := .classType, builtIn := some .object }
  let valueType ← declare
    { name := "System.ValueType", kind := .classType, builtIn := some .valueType,
      base := some object }
  let _ ← declare
    { name := "System.Enum", kind := .classType, builtIn := some .enum,
      base := some valueType }
  let _ ← declare { name := "System.Void", kind := .struct, builtIn := some .void }
  return (object, valueType)

/-- Declare the structures, each comparable, and each but the truth values and
the pointers formattable. -/
def declareStructures (valueType comparable formattable : Handle) : StateM Table Unit := do
  primitives.forM fun (name, b) => do
    let formats := b.isNumeric || b = .dateTime
    let _ ← declare
      { name := name, kind := .struct, builtIn := some b, base := some valueType,
        interfaces := comparable :: if formats then [formattable] else [] }
  plainStructures.forM fun name => do
    let _ ← declare
      { name := name, kind := .struct, base := some valueType,
        interfaces := [comparable, formattable] }

/-- Declare the collections. Answers the plain and the generic interface of
what can be enumerated. -/
def declareCollections (object disposable : Handle) : StateM Table (Handle × Handle) := do
  let enumerable ← declare
    { name := "System.Collections.IEnumerable", kind := .interface,
      builtIn := some .iEnumerable }
  let _ ← declare
    { name := "System.Collections.Generic.IEnumerator`1", kind := .interface,
      builtIn := some .iEnumeratorT, interfaces := [disposable],
      parameters := [unconstrained "T"] }
  let enumerableOf ←
    declareCollection "System.Collections.Generic.IEnumerable`1" .iEnumerableT []
  addInterface enumerableOf enumerable
  let readOnlyCollectionOf ←
    declareCollection "System.Collections.Generic.IReadOnlyCollection`1"
      .iReadOnlyCollectionT [enumerableOf]
  let readOnlyListOf ←
    declareCollection "System.Collections.Generic.IReadOnlyList`1"
      .iReadOnlyListT [readOnlyCollectionOf]
  let collectionOf ←
    declareCollection "System.Collections.Generic.ICollection`1"
      .iCollectionT [enumerableOf]
  let listInterfaceOf ←
    declareCollection "System.Collections.Generic.IList`1" .iListT [collectionOf]
  let list ← declare
    { name := "System.Collections.Generic.List`1", kind := .classType,
      base := some object, parameters := [unconstrained "T"] }
  let item := (← get).arguments list
  addInterface list (← construct listInterfaceOf item)
  addInterface list (← construct readOnlyListOf item)
  let dictionary ← declare
    { name := "System.Collections.Generic.Dictionary`2", kind := .classType,
      base := some object, parameters := [unconstrained "TKey", unconstrained "TValue"] }
  addInterface dictionary enumerable
  return (enumerable, enumerableOf)

/-- Declare the classes that are not collections, and the nullable types. -/
def declareClasses (object valueType comparable enumerable enumerableOf : Handle) :
    StateM Table Unit := do
  let string ← declare
    { name := "System.String", kind := .classType, builtIn := some .string,
      isClosed := true, base := some object, interfaces := [comparable] }
  match (← get).builtIn? .char with
  | some char => addInterface string (← construct enumerableOf [char])
  | none => pure ()
  let _ ← declare
    { name := "System.Array", kind := .classType, builtIn := some .array,
      base := some object, interfaces := [enumerable] }
  let delegate ← declare
    { name := "System.Delegate", kind := .classType, builtIn := some .delegate,
      base := some object }
  let _ ← declare
    { name := "System.MulticastDelegate", kind := .classType,
      builtIn := some .multicastDelegate, base := some delegate }
  let _ ← declare
    { name := "System.Nullable`1", kind := .struct, builtIn := some .nullableT,
      base := some valueType,
      parameters := [("T", { Constraints.none with valueType := true })] }
  ["System.Attribute", "System.Type", "System.Exception", "System.Uri"].forM fun name => do
    let _ ← declare { name := name, kind := .classType, base := some object }
  let _ ← declare
    { name := "System.Version", kind := .classType, isClosed := true, base := some object,
      interfaces := [comparable] }

/-- Declare the core library. -/
def declareCoreLibrary : StateM Table Unit := do
  let (object, valueType) ← declareRoots
  let comparable ← declareInterface "System.IComparable"
  let formattable ← declareInterface "System.IFormattable"
  let disposable ← declare
    { name := "System.IDisposable", kind := .interface, builtIn := some .iDisposable }
  declareStructures valueType comparable formattable
  let (enumerable, enumerableOf) ← declareCollections object disposable
  declareClasses object valueType comparable enumerable enumerableOf

/-- The table that holds the core library. -/
def coreLibrary : Table :=
  (declareCoreLibrary empty).2

end Verdicts.Table
