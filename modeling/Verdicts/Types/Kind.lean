/-!
# Kinds and built-in types

What a type is structurally, and which of the built-in types of the language a
named type stands for.
-/

namespace Verdicts

/-- The structural kind of a type. -/
inductive Kind where
  /-- The host could not tell. -/
  | unknown
  | array
  | classType
  | delegate
  | dynamic
  | enum
  /-- A type that does not resolve. -/
  | error
  | interface
  | moduleType
  | pointer
  | struct
  /-- An unbound generic type parameter. -/
  | typeParameter
  /-- The type of a script submission. -/
  | submission
  deriving DecidableEq, Repr, Inhabited

namespace Kind

/-- Every kind. -/
def all : List Kind :=
  [.unknown, .array, .classType, .delegate, .dynamic, .enum, .error, .interface,
   .moduleType, .pointer, .struct, .typeParameter, .submission]

/-- The name of a kind. -/
def name : Kind → String
  | .unknown => "unknown"
  | .array => "array"
  | .classType => "class"
  | .delegate => "delegate"
  | .dynamic => "dynamic"
  | .enum => "enum"
  | .error => "error"
  | .interface => "interface"
  | .moduleType => "module"
  | .pointer => "pointer"
  | .struct => "struct"
  | .typeParameter => "type_parameter"
  | .submission => "submission"

/-- The kind with the given name. -/
def ofName? (name : String) : Option Kind :=
  all.find? fun k => k.name = name

/-- Whether values of the kind can be data that users see. -/
def isData : Kind → Bool
  | .array | .classType | .enum | .interface | .struct => true
  | _ => false

end Kind

/-- The types that the language knows by identity rather than by name. A
constructed generic type is none of them; its definition may be. -/
inductive BuiltIn where
  | object
  | enum
  | valueType
  | void
  | boolean
  | char
  | sbyte
  | byte
  | int16
  | uint16
  | int32
  | uint32
  | int64
  | uint64
  | decimal
  | single
  | double
  | string
  | intPtr
  | uintPtr
  | array
  | delegate
  | multicastDelegate
  | iEnumerable
  | iEnumerableT
  | iCollectionT
  | iListT
  | iReadOnlyCollectionT
  | iReadOnlyListT
  | iEnumeratorT
  | nullableT
  | dateTime
  | iDisposable
  deriving DecidableEq, Repr

namespace BuiltIn

/-- Every built-in type. -/
def all : List BuiltIn :=
  [.object, .enum, .valueType, .void, .boolean, .char, .sbyte, .byte, .int16,
   .uint16, .int32, .uint32, .int64, .uint64, .decimal, .single, .double, .string,
   .intPtr, .uintPtr, .array, .delegate, .multicastDelegate, .iEnumerable,
   .iEnumerableT, .iCollectionT, .iListT, .iReadOnlyCollectionT, .iReadOnlyListT,
   .iEnumeratorT, .nullableT, .dateTime, .iDisposable]

/-- The name of a built-in type. -/
def name : BuiltIn → String
  | .object => "Object"
  | .enum => "Enum"
  | .valueType => "ValueType"
  | .void => "Void"
  | .boolean => "Boolean"
  | .char => "Char"
  | .sbyte => "SByte"
  | .byte => "Byte"
  | .int16 => "Int16"
  | .uint16 => "UInt16"
  | .int32 => "Int32"
  | .uint32 => "UInt32"
  | .int64 => "Int64"
  | .uint64 => "UInt64"
  | .decimal => "Decimal"
  | .single => "Single"
  | .double => "Double"
  | .string => "String"
  | .intPtr => "IntPtr"
  | .uintPtr => "UIntPtr"
  | .array => "Array"
  | .delegate => "Delegate"
  | .multicastDelegate => "MulticastDelegate"
  | .iEnumerable => "IEnumerable"
  | .iEnumerableT => "IEnumerableT"
  | .iCollectionT => "ICollectionT"
  | .iListT => "IListT"
  | .iReadOnlyCollectionT => "IReadOnlyCollectionT"
  | .iReadOnlyListT => "IReadOnlyListT"
  | .iEnumeratorT => "IEnumeratorT"
  | .nullableT => "NullableT"
  | .dateTime => "DateTime"
  | .iDisposable => "IDisposable"

/-- The built-in type with the given name. -/
def ofName? (name : String) : Option BuiltIn :=
  all.find? fun b => b.name = name

/-- The keyword of the language for a built-in type. -/
def keyword? : BuiltIn → Option String
  | .object => some "object"
  | .void => some "void"
  | .boolean => some "bool"
  | .char => some "char"
  | .sbyte => some "sbyte"
  | .byte => some "byte"
  | .int16 => some "short"
  | .uint16 => some "ushort"
  | .int32 => some "int"
  | .uint32 => some "uint"
  | .int64 => some "long"
  | .uint64 => some "ulong"
  | .decimal => some "decimal"
  | .single => some "float"
  | .double => some "double"
  | .string => some "string"
  | .intPtr => some "nint"
  | .uintPtr => some "nuint"
  | _ => none

/-- The built-in type for which a keyword stands. -/
def ofKeyword? (keyword : String) : Option BuiltIn :=
  all.find? fun b => b.keyword? = some keyword

/-- The integer types of fixed width. -/
def isIntegral : BuiltIn → Bool
  | .sbyte | .byte | .int16 | .uint16 | .int32 | .uint32 | .int64 | .uint64 => true
  | _ => false

/-- The binary floating-point types. -/
def isFloating : BuiltIn → Bool
  | .single | .double => true
  | _ => false

/-- The types between which numeric conversions exist, `char` among them. -/
def isNumeric (b : BuiltIn) : Bool :=
  b.isIntegral || b.isFloating || b = .char || b = .decimal

/-- Every built-in type is listed. -/
theorem mem_all (b : BuiltIn) : b ∈ all := by
  cases b <;> decide

/-- No two built-in types share a keyword. -/
theorem keyword?_injective {a b : BuiltIn} {keyword : String}
    (ha : a.keyword? = some keyword) (hb : b.keyword? = some keyword) : a = b := by
  have distinct : ∀ a ∈ all, ∀ b ∈ all,
      a.keyword?.isSome = true → a.keyword? = b.keyword? → a = b := by
    decide
  exact distinct a (mem_all a) b (mem_all b) (by simp [ha]) (ha.trans hb.symm)

end BuiltIn

end Verdicts
