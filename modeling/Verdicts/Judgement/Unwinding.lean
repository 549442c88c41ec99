import Verdicts.Program.Basic

/-!
# Unwinding arrays

Verdicts about serialization follow the element types of arrays until they meet
a type at which to stop. A host may describe its arrays so that they never do;
then an array comes up a second time. The walk keeps the list of types that have
not come up yet, which gets shorter with each array, so it ends.
-/

namespace Verdicts

/-- Where following element types ends. -/
inductive Landing where
  /-- At a type at which the walk stops. -/
  | core (h : Handle)
  /-- At an array without element type. -/
  | hollow
  /-- At an array that came up before. -/
  | cyclic
  deriving DecidableEq, Repr

namespace Program

/-- Follow element types, seeing each type through `look`, until `stops`. The
list holds the types that have not come up yet. -/
def unwindFresh (p : Program) (look : Handle → Handle) (stops : Handle → Bool)
    (fresh : List Handle) (h : Handle) : Landing :=
  let h := look h
  if stops h then
    .core h
  else if h ∈ fresh then
    match p.element? h with
    | some element => p.unwindFresh look stops (fresh.erase h) element
    | none => .hollow
  else
    .cyclic
termination_by fresh.length
decreasing_by
  rename_i hmem
  rw [List.length_erase_of_mem hmem]
  have := List.length_pos_of_mem hmem
  omega

/-- Follow element types, seeing each type through `look`, until `stops`. -/
def unwind (p : Program) (look : Handle → Handle) (stops : Handle → Bool) (h : Handle) :
    Landing :=
  p.unwindFresh look stops p.table.handles h

end Program

end Verdicts
