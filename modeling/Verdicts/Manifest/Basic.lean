import Verdicts.Library.Reference
import Verdicts.Types.Kind

/-!
# Program manifests

A manifest describes what has to be known of a program: the libraries that it
references, the types that it declares, the serializers and conversions that it
provides, and versions to assume for families of the framework. Types are
written as type expressions.
-/

namespace Verdicts

/-- The kinds of types that a manifest can declare. -/
inductive DeclaredKind where
  | classType
  | struct
  | interface
  | enum
  deriving DecidableEq, Repr

namespace DeclaredKind

/-- The kinds that a manifest can declare, by name. -/
def byName : List (String × DeclaredKind) :=
  [("class", .classType), ("struct", .struct), ("interface", .interface), ("enum", .enum)]

/-- The name of a declared kind. -/
def name : DeclaredKind → String
  | .classType => "class"
  | .struct => "struct"
  | .interface => "interface"
  | .enum => "enum"

/-- The kind of the declared type. -/
def kind : DeclaredKind → Kind
  | .classType => .classType
  | .struct => .struct
  | .interface => .interface
  | .enum => .enum

/-- The base of a declared type that names none. -/
def impliedBase? : DeclaredKind → Option BuiltIn
  | .classType => some .object
  | .struct => some .valueType
  | .enum => some .enum
  | .interface => none

end DeclaredKind

/-- What a declared type parameter may demand of its arguments. -/
inductive ParameterConstraint where
  | struct
  | classType
  deriving DecidableEq, Repr

namespace ParameterConstraint

/-- The demands, by name. -/
def byName : List (String × ParameterConstraint) :=
  [("struct", .struct), ("class", .classType)]

/-- The name of a demand. -/
def name : ParameterConstraint → String
  | .struct => "struct"
  | .classType => "class"

end ParameterConstraint

/-- A type parameter of a declared type. -/
structure ParameterDeclaration where
  name : String
  constraint : Option ParameterConstraint
  constraintTypes : List String
  deriving DecidableEq, Repr

/-- A declared type. -/
structure TypeDeclaration where
  /-- The qualified name, without the number of type parameters. -/
  name : String
  kind : DeclaredKind
  /-- Whether nothing may derive from the type, when that is stated. -/
  isClosed : Option Bool
  base : Option String
  interfaces : List String
  parameters : List ParameterDeclaration
  deriving DecidableEq, Repr

/-- A serializer and the types that it supports. -/
structure SerializerRegistration where
  serializer : String
  types : List String
  deriving DecidableEq, Repr

/-- A conversion that the program defines. -/
structure ConversionDeclaration where
  source : String
  destination : String
  implicit : Bool
  deriving DecidableEq, Repr

/-- A program manifest. -/
@[ext] structure Manifest where
  references : List Reference
  types : List TypeDeclaration
  serializers : List SerializerRegistration
  conversions : List ConversionDeclaration
  overrides : Overrides

/-- The manifest that says nothing. -/
def Manifest.empty : Manifest := ⟨[], [], [], [], Overrides.empty⟩

instance : Inhabited Manifest := ⟨Manifest.empty⟩

namespace TypeDeclaration

/-- The name under which a declared type is stored: a generic type's name is
followed by a backtick and the number of its type parameters. -/
def storedName (d : TypeDeclaration) : String :=
  if d.parameters.isEmpty then d.name
  else d.name ++ "`" ++ Text.numeral d.parameters.length

end TypeDeclaration

end Verdicts
