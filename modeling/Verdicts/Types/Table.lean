import Verdicts.Types.Kind

/-!
# The type table

A table holds the types of a program. A type is known by its handle, the place
of its shape in the table, counted from one. Arrays and constructed generic
types are stored once each: asking for one again answers the handle it already
has. Looking up a name, a built-in type, an array or a construction is a search
of the stored shapes from the newest to the oldest, so no index can disagree
with them.

The operations that may store a shape are state transitions of the table.
-/

namespace Verdicts

/-- A type of some table. The index zero belongs to no type. -/
structure Handle where
  index : Nat
  deriving DecidableEq, Repr, Inhabited

/-- What a generic type parameter demands of its arguments. -/
structure Constraints where
  /-- The argument is a value type. -/
  valueType : Bool
  /-- The argument is a reference type. -/
  referenceType : Bool
  /-- The argument has a constructor without parameters. -/
  constructible : Bool
  /-- The argument is assignable to each of these types. -/
  types : List Handle
  deriving DecidableEq, Repr

namespace Constraints

/-- No demands. -/
def none : Constraints := ⟨false, false, false, []⟩

/-- Whether every type meets the demands; a constructor is not one of them. -/
def isTrivial (c : Constraints) : Bool :=
  !c.valueType && !c.referenceType && c.types.isEmpty

end Constraints

/-- A type with a name of its own. -/
structure Definition where
  /-- The qualified name, with a backtick and the number of type parameters
  when it is generic. -/
  name : String
  kind : Kind
  builtIn : Option BuiltIn
  /-- Whether nothing may derive from the type. -/
  isClosed : Bool
  base : Option Handle
  interfaces : List Handle
  parameters : List Handle
  deriving DecidableEq, Repr

/-- How a type is built. -/
inductive Shape where
  | named (definition : Definition)
  | array (element : Handle)
  /-- A generic definition applied to type arguments. -/
  | constructed (definition : Handle) (arguments : List Handle)
  | parameter (name : String) (constraints : Constraints)
  /-- A type of which only the kind is known. -/
  | other (name : String) (kind : Kind)
  deriving DecidableEq, Repr

/-- The types of a program, with the conversions that it defines. -/
structure Table where
  /-- The shape of the handle `n + 1` stands at place `n`. -/
  shapes : Array Shape
  /-- The conversions that the program defines, latest first, each with the
  answer whether it is implicit. -/
  conversions : List ((Handle × Handle) × Bool)
  deriving Repr

namespace Table

/-- The table without types. -/
def empty : Table := ⟨#[], []⟩

instance : Inhabited Table := ⟨empty⟩

/-- The number of types. -/
def size (t : Table) : Nat :=
  t.shapes.size

/-- The shape of a type, unless the table does not know the handle. -/
def shape? (t : Table) : Handle → Option Shape
  | ⟨0⟩ => none
  | ⟨n + 1⟩ => t.shapes[n]?

/-- Whether a handle is one of the table's. -/
def knows (t : Table) (h : Handle) : Bool :=
  (t.shape? h).isSome

/-- Every handle of the table, oldest first. -/
def handles (t : Table) : List Handle :=
  (List.range t.size).map fun n => ⟨n + 1⟩

/-! ## Searching -/

/-- The newest of the first `n` types whose shape satisfies `p`. -/
def newestBelow? (t : Table) (p : Shape → Bool) : Nat → Option Handle
  | 0 => none
  | n + 1 =>
    match t.shapes[n]? with
    | some shape => if p shape then some ⟨n + 1⟩ else newestBelow? t p n
    | none => newestBelow? t p n

/-- The newest type whose shape satisfies `p`. -/
def newest? (t : Table) (p : Shape → Bool) : Option Handle :=
  t.newestBelow? p t.size

/-- The type with a qualified name. -/
def named? (t : Table) (name : String) : Option Handle :=
  t.newest? fun
    | .named d => d.name == name
    | _ => false

/-- The named type that stands for a built-in type; of several the newest. -/
def builtIn? (t : Table) (b : BuiltIn) : Option Handle :=
  t.newest? fun
    | .named d => d.builtIn == some b
    | _ => false

/-- The array of an element type, when it is stored. -/
def array? (t : Table) (element : Handle) : Option Handle :=
  t.newest? fun
    | .array e => e == element
    | _ => false

/-- The application of a definition to arguments, when it is stored. -/
def constructed? (t : Table) (definition : Handle) (arguments : List Handle) :
    Option Handle :=
  t.newest? fun
    | .constructed d as => d == definition && as == arguments
    | _ => false

/-! ## Shape queries -/

/-- The definition of a named type. -/
def definition? (t : Table) (h : Handle) : Option Definition :=
  match t.shape? h with
  | some (.named d) => some d
  | _ => none

/-- What remains of a constructed type once its argument lists are stripped: a
definition is always older than the constructions made from it. -/
def head (t : Table) (h : Handle) : Handle :=
  match t.shape? h with
  | some (.constructed d _) => if d.index < h.index then t.head d else d
  | _ => h
termination_by h.index

/-- The structural kind of a type. -/
def kind (t : Table) (h : Handle) : Kind :=
  match t.shape? (t.head h) with
  | some (.named d) => d.kind
  | some (.array _) => .array
  | some (.parameter _ _) => .typeParameter
  | some (.other _ kind) => kind
  | some (.constructed _ _) | none => .unknown

/-- The built-in type for which a named type stands. -/
def tag? (t : Table) (h : Handle) : Option BuiltIn :=
  (t.definition? h).bind (·.builtIn)

/-- The element type of an array. -/
def element? (t : Table) (h : Handle) : Option Handle :=
  match t.shape? h with
  | some (.array e) => some e
  | _ => none

/-- The arguments of a constructed type, or the parameters of a definition. -/
def arguments (t : Table) (h : Handle) : List Handle :=
  match t.shape? h with
  | some (.named d) => d.parameters
  | some (.constructed _ as) => as
  | _ => []

/-- The definition of a constructed type; any other type is its own. -/
def genericDefinition (t : Table) (h : Handle) : Handle :=
  match t.shape? h with
  | some (.constructed d _) => d
  | _ => h

/-- The demands of a type parameter. -/
def constraints? (t : Table) (h : Handle) : Option Constraints :=
  match t.shape? h with
  | some (.parameter _ c) => some c
  | _ => none

/-- Whether nothing may derive from a type. -/
def isClosed (t : Table) (h : Handle) : Bool :=
  match t.shape? (t.head h) with
  | some (.named d) => d.isClosed
  | some (.array _) => true
  | _ => false

/-- Whether values of a type are stored in place. -/
def isValueType (t : Table) (h : Handle) : Bool :=
  match t.shape? h with
  | some (.parameter _ c) => c.valueType
  | some _ => t.kind h = .struct || t.kind h = .enum
  | none => false

/-- Whether a constraint type makes its parameter a reference type: a class
above which value types do not stand. -/
def forcesReference (t : Table) (h : Handle) : Bool :=
  t.kind h = .classType && t.tag? h ≠ some .object && t.tag? h ≠ some .valueType
    && t.tag? h ≠ some .enum

/-- Whether values of a type are stored by reference. -/
def isReferenceType (t : Table) (h : Handle) : Bool :=
  match t.shape? h with
  | some (.parameter _ c) => c.referenceType || c.types.any t.forcesReference
  | some _ =>
    match t.kind h with
    | .classType | .interface | .array | .delegate | .dynamic => true
    | _ => false
  | none => false

/-- The underlying type of a nullable type. -/
def nullableUnderlying? (t : Table) (h : Handle) : Option Handle :=
  match t.shape? h with
  | some (.constructed d as) => if t.tag? d = some .nullableT then as.head? else none
  | _ => none

/-- Whether the program defines a conversion, and then whether it is
implicit. -/
def conversion? (t : Table) (source destination : Handle) : Option Bool :=
  t.conversions.lookup (source, destination)

/-! ## Storing -/

/-- Store a shape under a fresh handle. -/
def store (shape : Shape) : StateM Table Handle :=
  modifyGet fun t => (⟨t.size + 1⟩, { t with shapes := t.shapes.push shape })

/-- The array of an element type. -/
def arrayOf (element : Handle) : StateM Table Handle := do
  match (← get).array? element with
  | some h => return h
  | none => store (.array element)

/-- A definition applied to arguments; applied to its own parameters it is the
definition itself. -/
def construct (definition : Handle) (arguments : List Handle) : StateM Table Handle := do
  let t ← get
  if (t.definition? definition).any (·.parameters == arguments) then
    return definition
  else
    match t.constructed? definition arguments with
    | some h => return h
    | none => store (.constructed definition arguments)

/-- The nullable type over an underlying type, when the table has nullable
types at all. -/
def nullableOf (underlying : Handle) : StateM Table (Option Handle) := do
  match (← get).builtIn? .nullableT with
  | some definition => some <$> construct definition [underlying]
  | none => return none

/-- A new type parameter. -/
def parameter (name : String) (constraints : Constraints) : StateM Table Handle :=
  store (.parameter name constraints)

/-- A new type of which only the kind is known. -/
def other (name : String) (kind : Kind) : StateM Table Handle :=
  store (.other name kind)

/-! ## Declaring -/

/-- A named type about to be declared. -/
structure Declaration where
  name : String
  kind : Kind
  builtIn : Option BuiltIn := none
  /-- Structures and enumerations cannot be derived from. -/
  isClosed : Bool := kind = .struct || kind = .enum
  base : Option Handle := none
  interfaces : List Handle := []
  /-- The type parameters, by name. -/
  parameters : List (String × Constraints) := []

/-- Declare a named type. A name that is already declared answers the type that
has it, and nothing is stored. -/
def declare (d : Declaration) : StateM Table Handle := do
  match (← get).named? d.name with
  | some h => return h
  | none =>
    let parameters ← d.parameters.mapM fun p => parameter p.1 p.2
    store (.named ⟨d.name, d.kind, d.builtIn, d.isClosed, d.base, d.interfaces, parameters⟩)

/-- Declare a type whose base is a built-in type, if the table has that. -/
def declareUnder (b : BuiltIn) (d : Declaration) : StateM Table Handle := do
  declare { d with base := (← get).builtIn? b }

/-- Change the definition of a named type; other types stay as they are. -/
def redefine (h : Handle) (change : Definition → Definition) : StateM Table Unit :=
  modify fun t =>
    match h with
    | ⟨0⟩ => t
    | ⟨n + 1⟩ =>
      { t with shapes := t.shapes.modify n fun
          | .named d => .named (change d)
          | shape => shape }

/-- Give a named type another base. -/
def setBase (h base : Handle) : StateM Table Unit :=
  redefine h fun d => { d with base := some base }

/-- Let a named type implement an interface, which counts once. -/
def addInterface (h interface : Handle) : StateM Table Unit :=
  redefine h fun d =>
    if interface ∈ d.interfaces then d
    else { d with interfaces := d.interfaces ++ [interface] }

/-- Define a conversion, in place of one defined before between the types. -/
def addConversion (source destination : Handle) (implicit : Bool) : StateM Table Unit :=
  modify fun t => { t with conversions := ((source, destination), implicit) :: t.conversions }

end Table

end Verdicts
