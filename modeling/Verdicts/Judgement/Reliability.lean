import Verdicts.Judgement.Unwinding

/-!
# Whether a verdict on serialization means anything

About some types no reasoning ahead of execution is reliable: those of unknown
kind, errors, modules, submissions, unbound type parameters, and enumerations,
whose fate depends on where their assembly is loaded from. A type that such a
type is part of, as the element of an array or as a type argument, is ignored.
-/

namespace Verdicts

/-- Why a type is ignored. -/
inductive Doubt where
  /-- A part is of a kind about which nothing can be said. -/
  | unreliable
  /-- A part is an array without element type. -/
  | hollow
  /-- Following element types comes back to an array. -/
  | cyclic
  /-- Type arguments nest too deep. -/
  | tooDeep
  deriving DecidableEq, Repr

namespace Table

/-- Whether nothing can be said about types of a kind. -/
def isElusive : Kind → Bool
  | .unknown | .error | .moduleType | .typeParameter | .submission | .enum => true
  | _ => false

/-- Whether nothing can be said about a type, whatever its parts are. -/
def isUnreliable (t : Table) (h : Handle) : Bool :=
  isElusive (t.kind h) || t.tag? h = some .enum

end Table

namespace Program

/-- Where unwinding the arrays of a type ends: at a type that is no array or
about which nothing can be said. -/
def stripped (p : Program) (h : Handle) : Landing :=
  p.unwind id (fun h => p.table.isUnreliable h || p.table.kind h ≠ .array) h

/-- The first doubt about a type, following type arguments down to a number of
levels. -/
def doubtWithin? (p : Program) : Nat → Handle → Option Doubt
  | 0, _ => some .tooDeep
  | levels + 1, h =>
    match p.stripped h with
    | .core core =>
      if p.table.isUnreliable core then some .unreliable
      else (p.table.arguments core).findSome? (p.doubtWithin? levels)
    | .hollow => some .hollow
    | .cyclic => some .cyclic

/-- The first doubt about a type. -/
def doubt? (p : Program) (h : Handle) : Option Doubt :=
  p.doubtWithin? (Table.depthLimit + 1) h

/-- Whether a type is ignored. -/
def ignores (p : Program) (h : Handle) : Bool :=
  (p.doubt? h).isSome

end Program

end Verdicts
