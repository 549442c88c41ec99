import Verdicts.Proofs.Libraries.Reordering
import Verdicts.Proofs.Loading.Connecting

/-!
# Loaded programs

What holds of every program that a manifest describes: its table is well-formed,
all its definitions are of known kinds, and every declared type is connected as
its declaration writes.
-/

namespace Verdicts

open Program.LibraryType (brought declareAll)

variable {t : Table} {p : Program} {m : Manifest}

namespace Table

/-! ## Known kinds -/

theorem knownKinds_of_all (hall : (t.handles.all fun h =>
    (t.definition? h).all fun d => !isInertTarget d.kind) = true) :
    t.KnownKinds := by
  intro h d hd
  have hh := of_all_definitions hall hd
  simpa using hh

theorem knownKinds_coreLibrary : coreLibrary.KnownKinds :=
  knownKinds_of_all (by decide +kernel)

/-- The types of the libraries are of known kinds. -/
theorem isInertTarget_surface : ∀ f ∈ Family.all,
    ∀ l ∈ Program.surface f, isInertTarget l.kind = false := by
  decide +kernel

theorem retains_declareAll {ls : List Program.LibraryType}
    (hls : ∀ l ∈ ls, isInertTarget l.kind = false) (t : Table) :
    t.Retains (declareAll t ls) := by
  induction ls generalizing t with
  | nil => exact .refl t
  | cons l ls ih =>
      rw [List.forall_mem_cons] at hls
      exact (retains_declare rfl hls.1 t).trans (ih hls.2 _)

theorem retains_withReferences (references : List Reference) (t : Table) :
    t.Retains ((Program.ofTable t).withReferences references).table := by
  apply retains_declareAll
  intro l hl
  obtain ⟨f, -, hl⟩ := List.mem_flatMap.mp hl
  exact isInertTarget_surface f (Family.mem_all f) l hl

end Table

namespace Manifest

/-! ## Programs of manifests -/

/-- A program that a manifest describes corresponds to itself. -/
theorem matches_of_load (hm : m.load = .ok p) :
    ∃ ρ, p.Matches noneForeign ρ p := by
  have hself : Reference.Reordered m.references m.references :=
    ⟨⟨.refl _, fun _ => rfl⟩, rfl, rfl⟩
  have hload := m.load_reordered hself
  rw [show load { m with references := m.references } = m.load from rfl, hm]
    at hload
  cases hload with
  | ok hmatches => exact hmatches

/-- Its table is well-formed. -/
theorem wellFormed_of_load (hm : m.load = .ok p) :
    p.table.WellFormed noneForeign := by
  obtain ⟨ρ, hmatches⟩ := matches_of_load hm
  exact hmatches.table.left

theorem loadContents_of_load (hm : m.load = .ok p) :
    m.loadContents
      ((Program.ofTable .coreLibrary).withReferences m.references) =
        (.ok (), p) := by
  rw [load_eq] at hm
  dsimp only at hm
  generalize (Program.ofTable .coreLibrary).withReferences m.references = q
    at hm ⊢
  generalize m.loadContents q = outcome at hm ⊢
  rcases outcome with ⟨e | _, q⟩
  · cases hm
  · cases hm
    rfl

theorem knownKinds_of_load (hm : m.load = .ok p) : p.table.KnownKinds := by
  obtain ⟨q, hs, -, r, hq, -, -⟩ := loadContents_eq_ok (loadContents_of_load hm)
  have r' := Table.retains_withReferences m.references .coreLibrary
  have hreferences := Table.knownKinds_coreLibrary.retained r'
  exact (hreferences.retained r).steady hq.steady

/-- The libraries that the program references are those of the manifest. -/
theorem references_of_load (hm : m.load = .ok p) :
    p.references = m.references := by
  have hcontents := loadContents_of_load hm
  rw [loadContents] at hcontents
  obtain ⟨_, p₁, htypes, hrest⟩ := bind_apply_eq_ok hcontents
  obtain ⟨_, p₂, hconversions, hserializers⟩ := bind_apply_eq_ok hrest
  obtain ⟨-, -, -, -, htypes, -⟩ := loadTypes_eq_ok htypes
  have hreferences : p₁.references = m.references := by
    rw [htypes]
    rfl
  have htrans : ∀ {q q' q'' : Program}, q'.references = q.references →
      q''.references = q'.references → q''.references = q.references :=
    fun h h' => h'.trans h
  have hconversions : p₂.references = p₁.references :=
    forM_apply_ok (R := fun p p' => p'.references = p.references)
      (fun _ => rfl) htrans
      (fun _ _ _ _ h => (ConversionDeclaration.load_eq_ok h).2) hconversions
  have hserializers : p.references = p₂.references :=
    forM_apply_ok (R := fun p p' => p'.references = p.references)
      (fun _ => rfl) htrans
      (fun _ _ _ _ h => (SerializerRegistration.load_eq_ok h).2) hserializers
  rw [hserializers, hconversions, hreferences]

/-- Every type of the manifest is declared in the program, with the links that
its declaration writes. -/
theorem connected_of_load (hm : m.load = .ok p) {d : TypeDeclaration}
    (hd : d ∈ m.types) : ∃ h e, d.Connected p.table h e := by
  obtain ⟨q, hs, -, -, -, -, hall⟩ :=
    loadContents_eq_ok (loadContents_of_load hm)
  obtain ⟨h, -, e, he⟩ := exists_of_forall₂ hall hd
  exact ⟨h, e, he⟩

end Manifest

end Verdicts
