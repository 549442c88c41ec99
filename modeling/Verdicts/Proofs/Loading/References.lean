import Verdicts.Manifest.Loading
import Verdicts.Proofs.Libraries.Order
import Verdicts.Proofs.Transition

/-!
# Loading references

A manifest is loaded into the program that holds the core library and the types
of the referenced libraries.  Declaring the references never fails, so the
outcome is that of loading what the manifest says of the program itself.
-/

namespace Verdicts

open Program.LibraryType (brought declareAll)

/-! ## Declaring references -/

namespace Program

theorem forM_declare (ls : List LibraryType) (t : Table) :
    (ls.forM fun l => do
      let _ ← l.declare : StateM Table Unit) t = ((), declareAll t ls) := by
  induction ls generalizing t with
  | nil => rfl
  | cons l ls ih => exact ih (l.declare t).2

/-- The program with references more, and the types that they bring. -/
def withReferences (p : Program) (references : List Reference) : Program :=
  { p with
    table := declareAll p.table
      (brought (references.filterMap Reference.family?))
    references := p.references ++ references }

theorem withReferences_nil (p : Program) : p.withReferences [] = p := by
  rw [withReferences, List.append_nil]
  rfl

theorem withReferences_cons (p : Program) (r : Reference)
    (references : List Reference) :
    p.withReferences (r :: references) =
      (p.withReferences [r]).withReferences references := by
  have hbrought : ∀ t : Table,
      declareAll t (brought ((r :: references).filterMap Reference.family?)) =
        declareAll (declareAll t (brought ([r].filterMap Reference.family?)))
          (brought (references.filterMap Reference.family?)) := by
    intro t
    rw [declareAll, declareAll, declareAll, ← List.foldl_append, brought,
      brought, brought, ← List.flatMap_append, ← List.filterMap_append,
      List.singleton_append]
  simp only [withReferences, hbrought, List.append_assoc,
    List.singleton_append]

theorem declareSurface_apply (f : Family) (t : Table) :
    declareSurface f t = ((), declareAll t (surface f)) :=
  forM_declare (surface f) t

theorem declareReference_apply (r : Reference) (p : Program) :
    (declareReference r p).2 = p.withReferences [r] := by
  rw [withReferences, List.filterMap_cons, List.filterMap_nil,
    declareReference]
  cases r.family? with
  | none => rfl
  | some f =>
      change Program.mk (declareSurface f p.table).2 _ _ _ _ = _
      rw [declareSurface_apply, brought, List.flatMap_singleton]

/-- Declaring references always succeeds. -/
theorem forM_declareReference (references : List Reference) (p : Program) :
    (references.forM fun r => do
      let _ ← declareReference r : Loading Unit) p =
      (.ok (), p.withReferences references) := by
  induction references generalizing p with
  | nil => rw [withReferences_nil]; rfl
  | cons r references ih =>
      rw [withReferences_cons, ← declareReference_apply]
      exact ih (declareReference r p).2

end Program

namespace Manifest

/-- Loading the references always succeeds. -/
theorem loadInto_apply (m : Manifest) (p : Program) :
    m.loadInto p = m.loadContents (p.withReferences m.references) := by
  rw [loadInto, bind_apply_ok (Program.forM_declareReference m.references p)]

/-- The program of a manifest, after its references. -/
theorem load_eq (m : Manifest) :
    m.load =
      let p := (Program.ofTable .coreLibrary).withReferences m.references
      (m.loadContents p).1.map fun _ => (m.loadContents p).2 := by
  rw [load, ExceptT.run, loadInto_apply]
  dsimp only
  generalize m.loadContents _ = outcome
  rcases outcome with ⟨e | _, p⟩
  · rfl
  · rfl

/-- A manifest of references and overrides alone always loads. -/
theorem load_of_nil {m : Manifest} (htypes : m.types = [])
    (hconversions : m.conversions = []) (hserializers : m.serializers = []) :
    m.load =
      .ok ((Program.ofTable .coreLibrary).withReferences m.references) := by
  rw [load_eq, loadContents, loadTypes, htypes, hconversions, hserializers]
  rfl

end Manifest

end Verdicts
