import Verdicts.Json.Reader
import Verdicts.Manifest.Basic

/-!
# Manifests as JSON

How the records of a manifest are read from JSON and written to it. A record is
an object, or an array of its fields in their order, of which the last ones may
be left off when they have a default. A field may be given only once, and a name
that is no field is refused, except in library references, where it is ignored.
-/

namespace Verdicts.Json

/-! ## Reading records -/

/-- The text of a string. -/
def text? : Json → Option String
  | .string s => s
  | _ => none

/-- A truth value. -/
def bool? : Json → Option Bool
  | .bool b => some b
  | _ => none

/-- A list of values of one sort. -/
def list? {α : Type} (read : Json → Option α) : Json → Option (List α)
  | .array items => items.mapM read
  | _ => none

/-- A value that may be absent, as `null` also says. -/
def optional? {α : Type} (read : Json → Option α) : Json → Option (Option α)
  | .null => some none
  | value => (read value).map some

/-- One of several named choices: its name, or an object that holds its name
and nothing else. -/
def choice? {α : Type} (choices : List (String × α)) : Json → Option α
  | .string (some name) => choices.lookup name
  | .object [(some name, .null)] => choices.lookup name
  | _ => none

/-- The names of the members of an object, if each of them is a text. -/
def memberNames? (members : List (Option String × Json)) : Option (List String) :=
  members.mapM (·.1)

/-- The fields of a record with the given field names, in their order; absent
ones are missing. Unknown names are refused when the record is strict. -/
def fields? (names : List String) (strict : Bool) : Json → Option (List (Option Json))
  | .array items =>
    if items.length ≤ names.length then
      some (items.map some ++ List.replicate (names.length - items.length) none)
    else
      none
  | .object members => do
    let given ← memberNames? members
    if names.any fun name => given.count name > 1 then
      none
    else if strict && given.any fun name => !names.contains name then
      none
    else
      return names.map fun name => members.lookup (some name)
  | _ => none

/-- A field that has to be there. -/
def required? {α : Type} (read : Json → Option α) (field : Option Json) : Option α :=
  field.bind read

/-- A field with a default. -/
def withDefault? {α : Type} (default : α) (read : Json → Option α) :
    Option Json → Option α
  | none => some default
  | some value => read value

/-! ## Writing records -/

/-- A list of values of one sort. -/
def ofList {α : Type} (write : α → Json) (items : List α) : Json :=
  .array (items.map write)

/-- A member that is always written. -/
def member (name : String) (value : Json) : List (String × Json) :=
  [(name, value)]

/-- A member that is written unless its value is absent. -/
def memberIfSome {α : Type} (name : String) (write : α → Json) (value : Option α) :
    List (String × Json) :=
  (value.map fun a => (name, write a)).toList

/-- A list member that is written unless the list is empty. -/
def memberIfAny {α : Type} (name : String) (write : α → Json) (items : List α) :
    List (String × Json) :=
  if items.isEmpty then [] else [(name, ofList write items)]

end Verdicts.Json

namespace Verdicts

/-! ## Versions and references -/

/-- Read a version. -/
def Version.ofJson? (value : Json) : Option Version := do
  (Version.ofText (← value.text?)).toOption

/-- Write a version. -/
def Version.toJson (v : Version) : Json :=
  Json.text v.text

namespace Reference

/-- The fields of a library reference. -/
def fieldNames : List String := ["name", "version"]

/-- Read a library reference. -/
def ofJson? (value : Json) : Option Reference := do
  match ← value.fields? fieldNames false with
  | [name, version] =>
    return ⟨← Json.required? Json.text? name,
      ← Json.withDefault? none (Json.optional? Version.ofJson?) version⟩
  | _ => none

/-- Write a library reference. -/
def toJson (r : Reference) : Json :=
  Json.record (Json.member "name" (.text r.name)
    ++ Json.memberIfSome "version" Version.toJson r.version)

end Reference

namespace Overrides

/-- Read overrides: an object with family names. Of a repeated name the last
one stays. -/
def ofJson? : Json → Option Overrides
  | .object members => do
    let pins ← members.mapM fun m => do
      return (← Family.ofName? (← m.1), ← Version.ofJson? m.2)
    return empty.insertAll pins
  | _ => none

/-- Write overrides. -/
def toJson (o : Overrides) : Json :=
  Json.record (o.entries.map fun e => (e.1.name, e.2.toJson))

end Overrides

/-! ## Declarations -/

namespace ParameterDeclaration

/-- The fields of a type parameter. -/
def fieldNames : List String := ["name", "constraint", "constraint_types"]

/-- Read a type parameter. -/
def ofJson? (value : Json) : Option ParameterDeclaration := do
  match ← value.fields? fieldNames true with
  | [name, constraint, constraintTypes] =>
    return ⟨← Json.required? Json.text? name,
      ← Json.withDefault? none
        (Json.optional? (Json.choice? ParameterConstraint.byName)) constraint,
      ← Json.withDefault? [] (Json.list? Json.text?) constraintTypes⟩
  | _ => none

/-- Write a type parameter. -/
def toJson (d : ParameterDeclaration) : Json :=
  Json.record (Json.member "name" (.text d.name)
    ++ Json.memberIfSome "constraint" (fun c => .text c.name) d.constraint
    ++ Json.memberIfAny "constraint_types" Json.text d.constraintTypes)

end ParameterDeclaration

namespace TypeDeclaration

/-- The fields of a declared type. -/
def fieldNames : List String :=
  ["name", "kind", "sealed", "base", "interfaces", "type_parameters"]

/-- Read a declared type. -/
def ofJson? (value : Json) : Option TypeDeclaration := do
  match ← value.fields? fieldNames true with
  | [name, kind, isClosed, base, interfaces, parameters] =>
    return ⟨← Json.required? Json.text? name,
      ← Json.required? (Json.choice? DeclaredKind.byName) kind,
      ← Json.withDefault? none (Json.optional? Json.bool?) isClosed,
      ← Json.withDefault? none (Json.optional? Json.text?) base,
      ← Json.withDefault? [] (Json.list? Json.text?) interfaces,
      ← Json.withDefault? [] (Json.list? ParameterDeclaration.ofJson?) parameters⟩
  | _ => none

/-- Write a declared type. -/
def toJson (d : TypeDeclaration) : Json :=
  Json.record (Json.member "name" (.text d.name)
    ++ Json.member "kind" (.text d.kind.name)
    ++ Json.memberIfSome "sealed" Json.bool d.isClosed
    ++ Json.memberIfSome "base" Json.text d.base
    ++ Json.memberIfAny "interfaces" Json.text d.interfaces
    ++ Json.memberIfAny "type_parameters" ParameterDeclaration.toJson d.parameters)

end TypeDeclaration

namespace SerializerRegistration

/-- The fields of a serializer registration. -/
def fieldNames : List String := ["serializer", "types"]

/-- Read a serializer registration. -/
def ofJson? (value : Json) : Option SerializerRegistration := do
  match ← value.fields? fieldNames true with
  | [serializer, types] =>
    return ⟨← Json.required? Json.text? serializer,
      ← Json.required? (Json.list? Json.text?) types⟩
  | _ => none

/-- Write a serializer registration. -/
def toJson (r : SerializerRegistration) : Json :=
  Json.record (Json.member "serializer" (.text r.serializer)
    ++ Json.member "types" (Json.ofList Json.text r.types))

end SerializerRegistration

namespace ConversionDeclaration

/-- The fields of a conversion. -/
def fieldNames : List String := ["source", "destination", "implicit"]

/-- Read a conversion. -/
def ofJson? (value : Json) : Option ConversionDeclaration := do
  match ← value.fields? fieldNames true with
  | [source, destination, implicit] =>
    return ⟨← Json.required? Json.text? source,
      ← Json.required? Json.text? destination,
      ← Json.withDefault? false Json.bool? implicit⟩
  | _ => none

/-- Write a conversion. -/
def toJson (d : ConversionDeclaration) : Json :=
  Json.record (Json.member "source" (.text d.source)
    ++ Json.member "destination" (.text d.destination)
    ++ Json.member "implicit" (.bool d.implicit))

end ConversionDeclaration

/-! ## Manifests -/

namespace Manifest

/-- The fields of a manifest. -/
def fieldNames : List String :=
  ["references", "types", "serializers", "conversions", "overrides"]

/-- Read a manifest from a JSON value. -/
def ofJson? (value : Json) : Option Manifest := do
  match ← value.fields? fieldNames true with
  | [references, types, serializers, conversions, overrides] =>
    return ⟨← Json.withDefault? [] (Json.list? Reference.ofJson?) references,
      ← Json.withDefault? [] (Json.list? TypeDeclaration.ofJson?) types,
      ← Json.withDefault? [] (Json.list? SerializerRegistration.ofJson?) serializers,
      ← Json.withDefault? [] (Json.list? ConversionDeclaration.ofJson?) conversions,
      ← Json.withDefault? Overrides.empty Overrides.ofJson? overrides⟩
  | _ => none

/-- Write a manifest as a JSON value. -/
def toJson (m : Manifest) : Json :=
  Json.record (Json.member "references" (Json.ofList Reference.toJson m.references)
    ++ Json.member "types" (Json.ofList TypeDeclaration.toJson m.types)
    ++ Json.member "serializers" (Json.ofList SerializerRegistration.toJson m.serializers)
    ++ Json.member "conversions" (Json.ofList ConversionDeclaration.toJson m.conversions)
    ++ if m.overrides.entries.isEmpty then []
      else Json.member "overrides" m.overrides.toJson)

/-- Read a manifest from a text. -/
def ofText? (text : String) : Option Manifest := do
  ofJson? (← Json.ofText? text)

/-- The text of a manifest. -/
def text (m : Manifest) : String :=
  m.toJson.compactText

end Manifest

end Verdicts
