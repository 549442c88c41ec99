import Verdicts.Proofs.Loading.Programs
import Verdicts.Proofs.Naming.Display

/-!
# Where the definitions of a loaded program come from

A definition of a loaded program is one of the core library, one of a library
that the manifest references, or that of a declared type.  Its name and its
number of type parameters are what that origin gives it.
-/

namespace Verdicts

open Table
open Program.LibraryType (brought declareAll first? holds_declareAll)

variable {p : Program} {h : Handle} {e : Definition}

/-- A definition whose name holds no backtick has no type parameters. -/
def Definition.Marked (e : Definition) : Prop :=
  Unmarked e.name → e.parameters = []

/-- Every definition is marked with its number of type parameters. -/
def Table.Marked (t : Table) : Prop :=
  ∀ ⦃h e⦄, t.shape? h = some (.named e) → e.Marked

-- The parameters come first, since few definitions have any.
instance (e : Definition) : Decidable e.Marked :=
  decidable_of_iff (e.parameters = [] ∨ ¬Unmarked e.name) ⟨fun h hunmarked => h.resolve_right (not_not.mpr hunmarked),
      fun h => Decidable.or_not_of_imp h⟩

theorem Table.marked_coreLibrary : coreLibrary.Marked := by
  have hall : (coreLibrary.handles.all fun h =>
      (coreLibrary.definition? h).all fun e => decide e.Marked) = true := by
    decide +kernel
  exact fun h e he => of_decide_eq_true (of_all_definitions hall he)

theorem marked_surface : ∀ f ∈ Family.all, ∀ l ∈ Program.surface f,
    l.parameters = [] ∨ ¬Unmarked l.name := by
  decide +kernel

theorem marked_declareAll {c : Table} (w : c.WellFormed noneForeign) (hc : c.Marked)
    {ls : List Program.LibraryType}
    (hls : ∀ l ∈ ls, l.parameters = [] ∨ ¬Unmarked l.name) :
    (declareAll c ls).Marked := by
  intro h e he
  have hold := holds_declareAll w ls
  cases hk : c.knows h with
  | true =>
      obtain ⟨s, hs⟩ := exists_shape?_of_knows hk
      cases (hold.kept hs).symm.trans he
      exact hc hs
  | false =>
      obtain ⟨l, v, hl, hsource⟩ := hold.added ⟨hk, he⟩
      intro hunmarked
      have hmem : l ∈ ls := by
        rw [first?] at hl
        exact List.mem_of_find?_eq_some hl
      have hname := Program.LibraryType.name_of_first? hl
      have hnone := (hls l hmem).resolve_right (not_not.mpr (hname ▸ hunmarked))
      rw [← List.length_eq_zero_iff, hsource.parameters.length_eq, hnone]
      rfl

theorem marked_withReferences (references : List Reference) {t : Table}
    (w : t.WellFormed noneForeign) (ht : t.Marked) :
    ((Program.ofTable t).withReferences references).table.Marked := by
  refine marked_declareAll w ht fun l hl => ?_
  obtain ⟨f, -, hf⟩ := List.mem_flatMap.mp hl
  exact marked_surface f (Family.mem_all f) l hf

theorem TypeDeclaration.Stored.marked {d : TypeDeclaration} {t : Table}
    (hd : d.Stored t h e) : e.Marked := by
  intro hunmarked
  rw [hd.name, storedName] at hunmarked
  rw [← List.length_eq_zero_iff, hd.length_parameters, List.length_eq_zero_iff]
  by_contra hne
  rw [if_neg (by simpa using hne)] at hunmarked
  exact hunmarked (by simp)

theorem Table.Steady.marked {t u : Table} (q : t.Steady u) (ht : t.Marked) :
    u.Marked := by
  intro h e he
  obtain ⟨d, hd, -⟩ := q.definition he
  obtain ⟨e', he', hname, -, hparameters⟩ := q.persists.definition hd
  cases he.symm.trans he'
  rw [Definition.Marked, hname, hparameters]
  exact ht hd

/-- Every definition of a loaded program is marked with its number of type
parameters. -/
theorem Manifest.marked_of_load {m : Manifest} (hm : m.load = .ok p) :
    p.table.Marked := by
  obtain ⟨q, hs, hdeclare, -, hq, hdeclared, -⟩ :=
    loadContents_eq_ok (loadContents_of_load hm)
  have hreferences := marked_withReferences m.references
    (wellFormed_coreLibrary noneForeign) marked_coreLibrary
  refine hq.steady.marked fun h e he => ?_
  obtain hold | ⟨hh, -⟩ := TypeDeclaration.definition_of_mapM_declare hdeclare he
  · exact hreferences hold
  · obtain ⟨d, -, e', he'⟩ := exists_of_forall₂ hdeclared.flip hh
    cases he'.shape.symm.trans he
    exact he'.toStored.marked

end Verdicts
