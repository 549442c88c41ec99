import Verdicts.Types.Table

/-!
# Supertypes

The direct supertypes of a named type are its base, given or implied by its
kind, and its interfaces. Those of a constructed type are the supertypes of its
definition with the type arguments put in place of the type parameters, and may
be types that the table did not store before.
-/

namespace Verdicts.Table

/-- The number of levels after which a walk over the shape of types stops. -/
def depthLimit : Nat := 64

/-- What type parameters stand for. -/
abbrev Substitution := List (Handle × Handle)

/-- Apply a substitution inside a type, down to a number of levels. -/
def substituteWithin (σ : Substitution) : Nat → Handle → StateM Table Handle
  | 0, h => return h
  | levels + 1, h =>
    match σ.lookup h with
    | some image => return image
    | none => do
      match (← get).shape? h with
      | some (.array element) =>
        arrayOf (← substituteWithin σ levels element)
      | some (.constructed definition arguments) =>
        construct definition (← arguments.mapM (substituteWithin σ levels))
      | _ => return h

/-- Apply a substitution inside a type. -/
def substitute (σ : Substitution) (h : Handle) : StateM Table Handle :=
  if σ.isEmpty then return h else substituteWithin σ (depthLimit + 1) h

/-- The base that a kind implies. -/
def impliedBase? (t : Table) : Kind → Option Handle
  | .struct => t.builtIn? .valueType
  | .enum => t.builtIn? .enum
  | .classType | .delegate => t.builtIn? .object
  | _ => none

/-- The supertypes that a definition states for a type made from it: the base,
unless that is the type itself, and the interfaces. -/
def statedSupertypes (t : Table) (h : Handle) (d : Definition) : List Handle :=
  let base := (d.base <|> t.impliedBase? d.kind).filter (· ≠ h)
  base.toList ++ d.interfaces

/-- The direct supertypes of a type. -/
def supertypes (h : Handle) : StateM Table (List Handle) := do
  let t ← get
  match t.shape? h with
  | some (.named d) => return t.statedSupertypes h d
  | some (.constructed definition arguments) =>
    match t.definition? definition with
    | some d => (t.statedSupertypes h d).mapM (substitute (d.parameters.zip arguments))
    | none => return []
  | _ => return []

end Verdicts.Table
