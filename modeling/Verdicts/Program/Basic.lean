import Verdicts.Library.Reference
import Verdicts.Types.Conversion

/-!
# Programs under analysis

A program is a table of types together with the libraries that it references
and the attributes of its assembly. A host may describe its arrays in its own
way, so the element type of a type can be redirected; and the number of look-ups
by qualified name is counted, because hosts pay for them.
-/

namespace Verdicts

/-- An attribute of the assembly, whose arguments are types. -/
structure Attribute where
  attributeClass : Handle
  arguments : List Handle
  deriving DecidableEq, Repr

/-- A program under analysis. -/
structure Program where
  table : Table
  /-- The referenced libraries, in the order of the references. -/
  references : List Reference
  /-- The attributes of the assembly, in the order in which they were added. -/
  attributes : List Attribute
  /-- The redirected element types, latest first. -/
  wiring : List (Handle × Option Handle)
  /-- The number of look-ups by qualified name. -/
  lookups : Nat

namespace Program

/-- The program with the given types and nothing else. -/
def ofTable (t : Table) : Program := ⟨t, [], [], [], 0⟩

instance : Inhabited Program := ⟨ofTable Table.empty⟩

/-- Work on the types of a program. -/
def onTable {α : Type} (work : StateM Table α) : StateM Program α := fun p =>
  let (a, t) := work p.table
  (a, { p with table := t })

instance : MonadLift (StateM Table) (StateM Program) := ⟨onTable⟩

/-- The element type of an array, as the host describes it. -/
def element? (p : Program) (h : Handle) : Option Handle :=
  match p.wiring.lookup h with
  | some element => element
  | none => p.table.element? h

/-- Redirect the element type of a type. -/
def rewire (h : Handle) (element : Option Handle) : StateM Program Unit :=
  modify fun p => { p with wiring := (h, element) :: p.wiring }

/-- Look a type up by its qualified name. -/
def resolve (name : String) : StateM Program (Option Handle) :=
  modifyGet fun p => (p.table.named? name, { p with lookups := p.lookups + 1 })

/-- Add a reference after the others. -/
def addReference (r : Reference) : StateM Program Unit :=
  modify fun p => { p with references := p.references ++ [r] }

/-- Add an attribute after the others. -/
def addAttribute (a : Attribute) : StateM Program Unit :=
  modify fun p => { p with attributes := p.attributes ++ [a] }

end Program

end Verdicts
