import Verdicts.CommandLine.Run
import Verdicts.Proofs.Libraries.Activation
import Verdicts.Proofs.Libraries.Pins
import Verdicts.Proofs.Loading.Programs

/-!
# What the command line says goes first

The version of a family comes from one of four sources: the overrides of the
command line, those of the manifest, the references of the command line, and
those of the manifest.  An earlier source hides the later ones.  Of several
overrides the last one counts, since it replaces the others, and of several
references the first one, since the search for a reference ends there.
-/

namespace Verdicts

namespace Capabilities

/-- The version of a family is the pinned one, or that of the first reference. -/
theorem resolveFamily?_eq_or (references : List Reference)
    (overrides : Overrides) (f : Family) :
    resolveFamily? references overrides f =
      ((overrides.version? f).map some).or
        ((references.find? fun r => f.admits r.name).map (·.version)) := by
  rw [resolveFamily?]
  cases overrides.version? f with
  | none => rfl
  | some v => rfl

end Capabilities

namespace ProgramSource

variable {s : ProgramSource} {m : Manifest} {f : Family} {v : Option Version}
  {contents? : String → Option ByteArray}

/-! ## Four sources -/

/-- The first source that says something of a family gives it the version. -/
inductive Prevails (s : ProgramSource) (m : Manifest) (f : Family) :
    Option Version → Prop where
  | pinned {before after : List (Family × Version)} {v : Version}
      (hsplit : s.overrides = before ++ (f, v) :: after)
      (hafter : ∀ pin ∈ after, pin.1 ≠ f) :
      Prevails s m f (some v)
  | assumed {v : Version} (hpins : ∀ pin ∈ s.overrides, pin.1 ≠ f)
      (h : m.overrides.version? f = some v) :
      Prevails s m f (some v)
  | referenced {before after : List Reference} {r : Reference}
      (hpins : ∀ pin ∈ s.overrides, pin.1 ≠ f)
      (hassumed : m.overrides.version? f = none)
      (hsplit : s.references = before ++ r :: after)
      (hr : f.admits r.name = true)
      (hbefore : ∀ b ∈ before, f.admits b.name = false) :
      Prevails s m f r.version
  | listed {before after : List Reference} {r : Reference}
      (hpins : ∀ pin ∈ s.overrides, pin.1 ≠ f)
      (hassumed : m.overrides.version? f = none)
      (hreferences : ∀ b ∈ s.references, f.admits b.name = false)
      (hsplit : m.references = before ++ r :: after)
      (hr : f.admits r.name = true)
      (hbefore : ∀ b ∈ before, f.admits b.name = false) :
      Prevails s m f r.version

/-- Some source says something of the family. -/
def Mentions (s : ProgramSource) (m : Manifest) (f : Family) : Prop :=
  (∃ pin ∈ s.overrides, pin.1 = f) ∨
    (∃ v, m.overrides.version? f = some v) ∨
    (∃ r ∈ s.references, f.admits r.name = true) ∨
    ∃ r ∈ m.references, f.admits r.name = true

/-- The capabilities of the amended manifest. -/
def capabilities (s : ProgramSource) (m : Manifest) : Capabilities :=
  Capabilities.resolve (s.amend m).references (s.amend m).overrides

/-- The sources are merged into one chain, in their order. -/
theorem version?_capabilities (s : ProgramSource) (m : Manifest) (f : Family) :
    (s.capabilities m).version? f =
      ((Overrides.lastPin? s.overrides f).map some).or
        (((m.overrides.version? f).map some).or
          (((s.references.find? fun r => f.admits r.name).map (·.version)).or
            ((m.references.find? fun r => f.admits r.name).map (·.version)))) := by
  rw [capabilities, Capabilities.version?_resolve,
    Capabilities.resolveFamily?_eq_or, amend]
  dsimp only
  rw [Overrides.version?_insertAll, List.find?_append, Option.map_or,
    Option.map_or, Option.or_assoc]

theorem find?_admits_eq_some_iff {references : List Reference} {r : Reference} :
    (references.find? fun r => f.admits r.name) = some r ↔
      f.admits r.name = true ∧ ∃ before after,
        references = before ++ r :: after ∧
          ∀ b ∈ before, f.admits b.name = false := by
  simp [List.find?_eq_some_iff_append]

theorem version?_capabilities_eq_some_iff :
    (s.capabilities m).version? f = some v ↔ s.Prevails m f v := by
  rw [version?_capabilities]
  simp only [Option.or_eq_some_iff, Option.map_eq_some_iff,
    Option.map_eq_none_iff, Overrides.lastPin?_eq_some_iff,
    Overrides.lastPin?_eq_none_iff, find?_admits_eq_some_iff, List.find?_eq_none,
    Bool.not_eq_true]
  constructor
  · rintro (⟨v, ⟨before, after, hsplit, hafter⟩, rfl⟩ | ⟨hpins, h⟩)
    · exact .pinned hsplit hafter
    rcases h with ⟨v, h, rfl⟩ | ⟨hassumed, h⟩
    · exact .assumed hpins h
    rcases h with ⟨r, ⟨hr, before, after, hsplit, hbefore⟩, rfl⟩ | ⟨hnone, h⟩
    · exact .referenced hpins hassumed hsplit hr hbefore
    · obtain ⟨r, ⟨hr, before, after, hsplit, hbefore⟩, rfl⟩ := h
      exact .listed hpins hassumed hnone hsplit hr hbefore
  · intro h
    cases h with
    | pinned hsplit hafter => exact .inl ⟨_, ⟨_, _, hsplit, hafter⟩, rfl⟩
    | assumed hpins h => exact .inr ⟨hpins, .inl ⟨_, h, rfl⟩⟩
    | referenced hpins hassumed hsplit hr hbefore =>
        exact .inr ⟨hpins, .inr ⟨hassumed,
          .inl ⟨_, ⟨hr, _, _, hsplit, hbefore⟩, rfl⟩⟩⟩
    | listed hpins hassumed hnone hsplit hr hbefore =>
        exact .inr ⟨hpins, .inr ⟨hassumed,
          .inr ⟨hnone, _, ⟨hr, _, _, hsplit, hbefore⟩, rfl⟩⟩⟩

theorem isActive_capabilities_iff :
    (s.capabilities m).isActive f = true ↔ s.Mentions m f := by
  have hassumed : (m.overrides.version? f).isSome = true ↔
      ∃ v, m.overrides.version? f = some v :=
    Option.isSome_iff_exists
  rw [Capabilities.isActive, version?_capabilities]
  simp only [Option.isSome_or, Option.isSome_map, Bool.or_eq_true,
    List.find?_isSome, Overrides.isSome_lastPin?_iff, hassumed, Mentions]

/-! ## Loading -/

/-- Loading the manifest that was read, amended by the command line. -/
theorem load_of_read (hread : s.readManifest contents? = .ok m) :
    s.load contents? = ((s.amend m).load.mapError .loading).map fun p =>
      ⟨p, Capabilities.resolve p.references (s.amend m).overrides⟩ := by
  rw [load, hread]
  rfl

/-- A command works with the versions that prevail: the last override of the
command line, else that of the manifest, else the first reference of the command
line, else that of the manifest. -/
theorem load_prevails {p : Program}
    (hread : s.readManifest contents? = .ok m)
    (hload : (s.amend m).load = .ok p) :
    ∃ c, s.load contents? = .ok ⟨p, c⟩ ∧
      (∀ f v, c.version? f = some v ↔ s.Prevails m f v) ∧
      ∀ f, c.isActive f = true ↔ s.Mentions m f := by
  refine ⟨s.capabilities m, ?_, fun _ _ => version?_capabilities_eq_some_iff,
    fun _ => isActive_capabilities_iff⟩
  rw [load_of_read hread, hload, capabilities,
    ← Manifest.references_of_load hload]
  rfl

/-- Two overrides of one family, and two references of which one has no
version. -/
def mixedSource : ProgramSource where
  manifest := some "program.json"
  references := [⟨"XUnit.Execution.desktop", none⟩, ⟨"xunit.assert", none⟩]
  overrides := [(.assertV2, .release 2 4 0), (.assertV2, .release 2 9 3)]

/-- A file that overrides two families and references two others. -/
def mixedContents? (path : String) : Option ByteArray :=
  if path = "program.json" then
    some ("\x7b\"references\": [[\"xunit.abstractions\", \"2.0.3\"], " ++
      "[\"xunit.execution.dotnet\", \"2.4.0\"]], \"overrides\": " ++
      "\x7b\"core-v2\": \"2.1.0\", \"assert-v2\": \"2.0.0\"\x7d\x7d").toUTF8
  else none

/-- Each of the four sources prevails for one family, and the reference without a
version hides one with a version. -/
theorem load_prevails_mixed :
    ∃ m p c, mixedSource.readManifest mixedContents? = .ok m ∧
      (mixedSource.amend m).load = .ok p ∧
      mixedSource.load mixedContents? = .ok ⟨p, c⟩ ∧
      c.version? .assertV2 = some (some (.release 2 9 3)) ∧
      c.version? .coreV2 = some (some (.release 2 1 0)) ∧
      c.version? .executionV2 = some none ∧
      c.version? .abstractionsV2 = some (some (.release 2 0 3)) := by
  have hmanifest : (mixedSource.readManifest mixedContents?).toOption.map
      (fun m => (m.references, Family.all.map m.overrides.version?,
        m.types.isEmpty, m.conversions.isEmpty, m.serializers.isEmpty)) =
      some ([⟨"xunit.abstractions", some (.release 2 0 3)⟩,
          ⟨"xunit.execution.dotnet", some (.release 2 4 0)⟩],
        [some (.release 2 1 0), none, some (.release 2 0 0), none, none, none,
          none, none, none], true, true, true) := by
    decide +kernel
  cases hread : mixedSource.readManifest mixedContents? with
  | error e =>
      rw [hread] at hmanifest
      cases hmanifest
  | ok m =>
  rw [hread] at hmanifest
  simp only [Except.toOption, Option.map_some, Option.some.injEq,
    Prod.mk.injEq, List.isEmpty_iff] at hmanifest
  obtain ⟨hreferences, hassumed, htypes, hconversions, hserializers⟩ :=
    hmanifest
  have hload := (mixedSource.amend m).load_of_nil htypes hconversions
    hserializers
  simp only [Family.all, List.map_cons, List.cons.injEq] at hassumed
  obtain ⟨hcore, -, -, -, habstractions, -, hexecution, -⟩ := hassumed
  obtain ⟨c, hc, hprevails, -⟩ := load_prevails hread hload
  refine ⟨m, _, c, rfl, hload, hc, (hprevails _ _).mpr ?_,
    (hprevails _ _).mpr ?_, (hprevails _ _).mpr ?_, (hprevails _ _).mpr ?_⟩
  · have hsplit : mixedSource.overrides =
        [(.assertV2, .release 2 4 0)] ++ (.assertV2, .release 2 9 3) :: [] := rfl
    exact .pinned hsplit (by decide)
  · exact .assumed (by decide) hcore
  · have hsplit : mixedSource.references = [] ++
        ⟨"XUnit.Execution.desktop", none⟩ :: [⟨"xunit.assert", none⟩] := rfl
    exact .referenced (by decide) hexecution hsplit (by decide +kernel)
      (by decide)
  · exact .listed (by decide) habstractions (by decide +kernel)
      (hreferences.trans (List.nil_append _).symm) (by decide +kernel)
      (by decide)

end ProgramSource

end Verdicts
