import Verdicts.Manifest.Basic
import Verdicts.Manifest.Naming
import Verdicts.Program.Surface
import Verdicts.Types.CoreLibrary

/-!
# Loading manifests

A manifest is loaded over the core library: first the references with the types
that they bring, then all declared types, so that bases and interfaces may refer
forward, then bases and interfaces, conversions, and serializers.
-/

namespace Verdicts

/-- Why a manifest does not describe a program. -/
inductive LoadError where
  /-- An expression in it names no type. -/
  | naming (error : NamingError)
  /-- Two types have the same name. -/
  | duplicateType (name : String)
  /-- A serializer is registered, but no reference brings the attribute that
  does so. -/
  | registrationUnavailable (serializer : String)
  deriving DecidableEq, Repr

/-- The sentence that reports why a manifest does not describe a program. -/
def LoadError.message : LoadError → String
  | .naming e => e.message
  | .duplicateType name => "type `" ++ name ++ "` is declared twice"
  | .registrationUnavailable serializer =>
    "serializer `" ++ serializer ++ "` needs a reference to xunit.v3.core"

/-- Work on a program that may fail. -/
abbrev Loading := ExceptT LoadError (StateM Program)

namespace Loading

/-- Work on the types of the program. -/
def naming {α : Type} (work : Naming α) : Loading α :=
  ExceptT.mk do
    let result ← Program.onTable work.run
    return result.mapError .naming

end Loading

namespace ParameterConstraint

/-- The demands that a type parameter states, apart from constraint types. -/
def demands : Option ParameterConstraint → Constraints
  | some .struct => { Constraints.none with valueType := true }
  | some .classType => { Constraints.none with referenceType := true }
  | none => Constraints.none

end ParameterConstraint

namespace ParameterDeclaration

/-- The demands of a type parameter. -/
def constraints (d : ParameterDeclaration) : Naming Constraints := do
  let types ← d.constraintTypes.mapM Table.resolveText
  return { ParameterConstraint.demands d.constraint with types := types }

end ParameterDeclaration

namespace TypeDeclaration

/-- The type parameters with their demands. -/
def resolveParameters (d : TypeDeclaration) : Naming (List (String × Constraints)) :=
  d.parameters.mapM fun p => do return (p.name, ← p.constraints)

/-- The declaration of a type under a base, without interfaces. -/
def declaration (d : TypeDeclaration) (base : Option Handle)
    (parameters : List (String × Constraints)) : Table.Declaration :=
  let kind := d.kind.kind
  { name := d.storedName, kind := kind,
    isClosed := d.isClosed.getD (kind = .struct || kind = .enum),
    base := base, parameters := parameters }

/-- Declare a type under its implied base, without interfaces. -/
def declare (d : TypeDeclaration) : Loading Handle := do
  let t := (← get).table
  if (t.named? d.storedName).isSome then
    throw (.duplicateType d.storedName)
  else
    let parameters ← Loading.naming d.resolveParameters
    let declaration := d.declaration (d.kind.impliedBase?.bind t.builtIn?) parameters
    let declared : StateM Program Handle := Program.onTable (Table.declare declaration)
    declared

/-- The type parameters of a declared type, by name. -/
def scope (d : TypeDeclaration) (t : Table) (h : Handle) : Scope :=
  (d.parameters.map (·.name)).zip (t.arguments h)

/-- Give a declared type the base that it states, if it states one. -/
def connectBase (d : TypeDeclaration) (scope : Scope) (h : Handle) : Naming Unit := do
  match d.base with
  | some base =>
    let base ← Table.resolveTextIn scope base
    Table.setBase h base
  | none => return ()

/-- Give a declared type the interfaces that it states. -/
def connectInterfaces (d : TypeDeclaration) (scope : Scope) (h : Handle) : Naming Unit :=
  d.interfaces.forM fun interface => do
    let interface ← Table.resolveTextIn scope interface
    Table.addInterface h interface

/-- Give a declared type the base and the interfaces that it states, in which
its type parameters are in scope. -/
def connect (d : TypeDeclaration) (h : Handle) : Loading Unit :=
  Loading.naming do
    let scope := d.scope (← get) h
    d.connectBase scope h
    d.connectInterfaces scope h

end TypeDeclaration

namespace ConversionDeclaration

/-- Define a conversion. -/
def load (d : ConversionDeclaration) : Loading Unit :=
  Loading.naming do
    let source ← Table.resolveText d.source
    let destination ← Table.resolveText d.destination
    Table.addConversion source destination d.implicit

end ConversionDeclaration

namespace SerializerRegistration

/-- Register a serializer. -/
def load (r : SerializerRegistration) : Loading Unit := do
  let serializer ← Loading.naming (Table.resolveText r.serializer)
  let types ← Loading.naming (r.types.mapM Table.resolveText)
  if ← Program.registerSerializer serializer types then
    return ()
  else
    throw (.registrationUnavailable r.serializer)

end SerializerRegistration

namespace Manifest

/-- Declare the types of a manifest, and give them their bases and interfaces
once all are declared. -/
def loadTypes (m : Manifest) : Loading Unit := do
  let handles ← m.types.mapM TypeDeclaration.declare
  (m.types.zip handles).forM fun (d, h) => d.connect h

/-- Load what a manifest says of the program itself. -/
def loadContents (m : Manifest) : Loading Unit := do
  m.loadTypes
  m.conversions.forM ConversionDeclaration.load
  m.serializers.forM SerializerRegistration.load

/-- Load a manifest into a program. -/
def loadInto (m : Manifest) : Loading Unit := do
  m.references.forM fun r => do
    let _ ← Program.declareReference r
  m.loadContents

/-- The program that a manifest describes. -/
def load (m : Manifest) : Except LoadError Program :=
  match (loadInto m).run (Program.ofTable Table.coreLibrary) with
  | (.ok (), p) => .ok p
  | (.error e, _) => .error e

end Manifest

end Verdicts
