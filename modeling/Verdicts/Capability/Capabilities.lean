import Verdicts.Capability.Activation
import Verdicts.Capability.Flag
import Verdicts.Capability.WellKnown
import Verdicts.Program.Basic

/-!
# Capabilities of a program

The capabilities of a program are the families that are active in it, each with
its version if that is known. They are resolved once from the references and
the overrides. After that they only gather the handles of the types that
verdicts ask for: each is looked up at most once, and the answer stays, also
when it is that there is no such type.

For each concern the newest active family decides.
-/

namespace Verdicts

/-- The active families of a program and the handles found so far. -/
structure Capabilities where
  activation : Activation
  /-- The framework types looked up so far, by family. -/
  frameworkTypes : List ((Family × FrameworkType) × Option Handle)
  /-- The library types looked up so far. -/
  systemTypes : List (SystemType × Option Handle)

namespace Capabilities

/-- The capabilities of a program without the framework. -/
def empty : Capabilities := ⟨.empty, [], []⟩

instance : Inhabited Capabilities := ⟨empty⟩

/-- The version with which a family is active, if it is: the version pinned for
it, else that of the first reference to it. -/
def resolveFamily? (references : List Reference) (overrides : Overrides) (f : Family) :
    Option (Option Version) :=
  match overrides.version? f with
  | some v => some (some v)
  | none => (references.find? fun r => f.admits r.name).map (·.version)

/-- The capabilities that references and overrides give a program. -/
def resolve (references : List Reference) (overrides : Overrides) : Capabilities :=
  let active := Family.all.filterMap fun f =>
    (resolveFamily? references overrides f).map (f, ·)
  { empty with activation := .ofList active }

/-- The active families with their versions, in family order. -/
def active (c : Capabilities) : List (Family × Option Version) :=
  c.activation.toList

/-- The version with which a family is active, if it is. -/
def version? (c : Capabilities) (f : Family) : Option (Option Version) :=
  c.activation.version? f

/-- Whether a family is active. -/
def isActive (c : Capabilities) (f : Family) : Bool :=
  (c.version? f).isSome

/-- Whether a family of a generation is active. -/
def has (c : Capabilities) (g : Generation) : Bool :=
  c.activation.has g

/-- Capabilities that list the same active families agree on each version. -/
theorem version?_congr {c c' : Capabilities} (h : c'.active = c.active) (f : Family) :
    c'.version? f = c.version? f := by
  apply Option.ext
  intro v
  rw [version?, version?, ← Activation.mem_toList_iff, ← Activation.mem_toList_iff]
  exact Eq.to_iff (congrArg (fun l => (f, v) ∈ l) h)

/-- The family that decides a concern: the newest active one. -/
def family? (c : Capabilities) (concern : Concern) : Option Family :=
  concern.families.find? c.isActive

/-- Whether an active family has the feature of a flag. -/
def familySupports (c : Capabilities) (f : Family) (flag : Flag) : Bool :=
  match c.version? f with
  | some v => (flag.availability f).admits v
  | none => false

/-- Whether the program has the feature of a flag. -/
def supports (c : Capabilities) (flag : Flag) : Bool :=
  match c.family? flag.concern with
  | some f => c.familySupports f flag
  | none => false

end Capabilities

/-- A program and its capabilities, between which questions go back and
forth. -/
structure Inquiry where
  program : Program
  capabilities : Capabilities

namespace Inquiry

/-- Work on the program of an inquiry. -/
def onProgram {α : Type} (work : StateM Program α) : StateM Inquiry α := fun q =>
  let (a, p) := work q.program
  (a, { q with program := p })

instance : MonadLift (StateM Program) (StateM Inquiry) := ⟨onProgram⟩

/-- Keep the answer to the look-up of a framework type. -/
def keepFrameworkType (f : Family) (w : FrameworkType) (h : Option Handle) :
    StateM Inquiry Unit :=
  modify fun q =>
    let c := q.capabilities
    { q with capabilities := { c with frameworkTypes := ((f, w), h) :: c.frameworkTypes } }

/-- Keep the answer to the look-up of a library type. -/
def keepSystemType (s : SystemType) (h : Option Handle) : StateM Inquiry Unit :=
  modify fun q =>
    let c := q.capabilities
    { q with capabilities := { c with systemTypes := (s, h) :: c.systemTypes } }

/-- The handle that an active family gives a framework type. -/
def familyType (f : Family) (w : FrameworkType) : StateM Inquiry (Option Handle) := do
  let c := (← get).capabilities
  if c.isActive f then
    match c.frameworkTypes.lookup (f, w) with
    | some kept => return kept
    | none =>
      match w.qualifiedName? f with
      | some name =>
        let h ← Program.resolve name
        keepFrameworkType f w h
        return h
      | none => return none
  else
    return none

/-- The handle of a framework type: of the active families that define the type
and have it, the newest one decides. -/
def frameworkType (w : FrameworkType) : StateM Inquiry (Option Handle) :=
  w.concern.families.findSomeM? fun f => familyType f w

/-- The handle that the deciding family of the type's concern gives a framework
type. -/
def composedType (w : FrameworkType) : StateM Inquiry (Option Handle) := do
  match (← get).capabilities.family? w.concern with
  | some f => familyType f w
  | none => return none

/-- The handle of a library type. -/
def systemType (s : SystemType) : StateM Inquiry (Option Handle) := do
  match (← get).capabilities.systemTypes.lookup s with
  | some kept => return kept
  | none =>
    let h ← Program.resolve s.qualifiedName
    keepSystemType s h
    return h

end Inquiry

end Verdicts
