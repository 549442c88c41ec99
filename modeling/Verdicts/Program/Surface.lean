import Verdicts.Program.Basic

/-!
# What the libraries of the framework declare

A reference to a library of a known family brings the public types of that
family into the program, so that look-ups by name find them.
-/

namespace Verdicts.Program

/-- The attribute class by which a program registers serializers. -/
def registrationName : String :=
  "Xunit.Sdk.RegisterXunitSerializerAttribute"

/-- The base class of a library type. -/
inductive LibraryBase where
  | none
  /-- A built-in type, if the program has that. -/
  | builtIn (b : BuiltIn)
  /-- The type of a qualified name, if the program has that. -/
  | named (name : String)
  deriving DecidableEq, Repr

/-- A public type of a library. -/
structure LibraryType where
  name : String
  kind : Kind
  isClosed : Bool
  base : LibraryBase
  /-- The interfaces that the type extends, so far as the program has them. -/
  interfaces : List String
  parameters : List String
  deriving DecidableEq, Repr

namespace LibraryBase

/-- The base class in a table. -/
def find? (t : Table) : LibraryBase → Option Handle
  | .none => Option.none
  | .builtIn b => t.builtIn? b
  | .named name => t.named? name

end LibraryBase

namespace LibraryType

/-- A class under the object type. -/
def ofClass (name : String) (isClosed : Bool) : LibraryType :=
  ⟨name, .classType, isClosed, .builtIn .object, [], []⟩

/-- An attribute class under the given base. -/
def ofAttribute (name : String) (isClosed : Bool)
    (base : String := "System.Attribute") : LibraryType :=
  ⟨name, .classType, isClosed, .named base, [], []⟩

/-- An interface that extends the given ones. -/
def ofInterface (name : String) (interfaces : List String) : LibraryType :=
  ⟨name, .interface, false, .none, interfaces, []⟩

/-- A generic fixture interface. -/
def ofFixture (name : String) : LibraryType :=
  ⟨name, .interface, false, .none, [], ["TFixture"]⟩

/-- The declaration of a library type for a table. -/
def declaration (l : LibraryType) (t : Table) : Table.Declaration :=
  { name := l.name, kind := l.kind, isClosed := l.isClosed, base := l.base.find? t,
    interfaces := l.interfaces.filterMap t.named?,
    parameters := l.parameters.map (·, Constraints.none) }

/-- Declare a library type. -/
def declare (l : LibraryType) : StateM Table Handle := do
  Table.declare (l.declaration (← get))

end LibraryType

/-- What the core libraries of both generations share, with the base class of
the data attributes under its own name. -/
def coreSurface (dataAttribute : String) : List LibraryType :=
  [.ofAttribute "Xunit.FactAttribute" false,
   .ofAttribute "Xunit.TheoryAttribute" false "Xunit.FactAttribute",
   .ofAttribute dataAttribute false,
   .ofAttribute "Xunit.InlineDataAttribute" true dataAttribute,
   .ofAttribute "Xunit.MemberDataAttribute" true dataAttribute,
   .ofAttribute "Xunit.ClassDataAttribute" true dataAttribute,
   .ofAttribute "Xunit.CollectionAttribute" true,
   .ofAttribute "Xunit.CollectionDefinitionAttribute" true,
   .ofFixture "Xunit.IClassFixture`1",
   .ofFixture "Xunit.ICollectionFixture`1"]

/-- The public types of a family, in the order in which they are declared. -/
def surface : Family → List LibraryType
  | .coreV2 => coreSurface "Xunit.Sdk.DataAttribute"
  | .coreV3 =>
    coreSurface "Xunit.v3.DataAttribute" ++
      [.ofClass "Xunit.TheoryDataRow" false, .ofAttribute registrationName true]
  | .assertV2 | .assertV3 => [.ofClass "Xunit.Assert" true]
  | .abstractionsV2 =>
    [.ofInterface "Xunit.Abstractions.IXunitSerializable" [],
     .ofInterface "Xunit.Abstractions.ITestOutputHelper" [],
     .ofInterface "Xunit.Abstractions.IMessageSink" [],
     .ofInterface "Xunit.Abstractions.ITestCase" ["Xunit.Abstractions.IXunitSerializable"]]
  | .commonV3 =>
    [.ofInterface "Xunit.Sdk.IXunitSerializable" [],
     .ofInterface "Xunit.Sdk.IXunitSerializer" [],
     .ofInterface "Xunit.Sdk.IMessageSink" [],
     .ofInterface "Xunit.ITestOutputHelper" []]
  | .executionV2 =>
    [.ofClass "Xunit.LongLivedMarshalByRefObject" false,
     { LibraryType.ofClass "Xunit.Sdk.XunitTestCase" false with
       interfaces := ["Xunit.Abstractions.ITestCase"] }]
  | .runnerUtilityV2 | .runnerUtilityV3 =>
    [.ofClass "Xunit.Sdk.LongLivedMarshalByRefObject" false]

/-- Declare the public types of a family. -/
def declareSurface (f : Family) : StateM Table Unit :=
  (surface f).forM fun l => do
    let _ ← l.declare

/-- Add a reference and declare the types of the family to which the library
belongs. Answers that family. -/
def declareReference (r : Reference) : StateM Program (Option Family) := do
  addReference r
  match r.family? with
  | some f => declareSurface f
  | none => pure ()
  return r.family?

/-- Register a serializer for types by an attribute of the assembly. Answers
whether the program has the attribute class. -/
def registerSerializer (serializer : Handle) (supported : List Handle) :
    StateM Program Bool := do
  match (← get).table.named? registrationName with
  | some attributeClass =>
    addAttribute ⟨attributeClass, serializer :: supported⟩
    return true
  | none => return false

end Verdicts.Program
