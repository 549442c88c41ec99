import Verdicts.Types.Supertypes

/-!
# Assignability

Whether a value of one type can be stored in a place of another: the types are
the same, or an identity, reference or boxing step leads from the one to the
other. The walk goes up the supertypes and the constraints of type parameters,
and covers the element types of arrays; it stops after `Table.depthLimit`
levels.

Following the supertypes of constructed types may store new types, so the
question is a state transition of the table.
-/

namespace Verdicts.Table

/-- Whether types of the kind are assignable to nothing but themselves. -/
def isInertSource : Kind → Bool
  | .error | .unknown | .pointer => true
  | _ => false

/-- Whether nothing but the type itself is assignable to types of the kind. -/
def isInertTarget : Kind → Bool
  | .error | .unknown => true
  | _ => false

/-- The generic collections whose element type every array also provides. -/
def isArrayCollection : Option BuiltIn → Bool
  | some .iEnumerableT | some .iCollectionT | some .iListT
  | some .iReadOnlyCollectionT | some .iReadOnlyListT => true
  | _ => false

/-- What an array must do to be assignable to a type. -/
inductive ArrayDemand where
  /-- Nothing: every array is assignable to the type. -/
  | free
  /-- Its elements must fit the given element type. -/
  | element (target : Handle)
  /-- No array is assignable to the type. -/
  | impossible
  deriving DecidableEq, Repr

/-- The demand that a target type makes of arrays. -/
def arrayDemand (t : Table) (target : Handle) : ArrayDemand :=
  match t.shape? target with
  | some (.array e) => .element e
  | some (.named d) =>
    if d.builtIn = some .array || d.builtIn = some .iEnumerable then .free else .impossible
  | some (.constructed d as) =>
    match as with
    | e :: _ => if isArrayCollection (t.tag? d) then .element e else .impossible
    | [] => .impossible
  | _ => .impossible

/-- Assignability, where a walk goes up at most the given number of levels. -/
def assignableWithin : Nat → Handle → Handle → StateM Table Bool
  | 0, source, target => do
    return source = target && (← get).knows source
  | levels + 1, source, target => do
    let t ← get
    if source = target then
      return t.knows source
    else if isInertSource (t.kind source) || isInertTarget (t.kind target) then
      return false
    else if t.tag? target = some .object then
      return true
    else
      match t.shape? source with
      | some (.array e) =>
        match t.arrayDemand target with
        | .free => return true
        | .element e' =>
          if e = e' then return true
          else if t.isReferenceType e then assignableWithin levels e e'
          else return false
        | .impossible => return false
      | some (.parameter _ c) =>
        if c.valueType && t.tag? target = some .valueType then return true
        else c.types.anyM fun bound => assignableWithin levels bound target
      | some (.named _) | some (.constructed _ _) => do
        (← supertypes source).anyM fun supertype =>
          if supertype = target then return true
          else assignableWithin levels supertype target
      | some (.other _ _) | none => return false

/-- Whether a value of the source type can be stored in a place of the target
type. -/
def assignable (source target : Handle) : StateM Table Bool :=
  assignableWithin (depthLimit + 1) source target

end Verdicts.Table
