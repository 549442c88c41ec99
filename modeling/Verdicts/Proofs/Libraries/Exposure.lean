import Verdicts.Proofs.Judgement.Tiers
import Verdicts.Proofs.Libraries.Activation
import Verdicts.Proofs.Loading.References

/-!
# What references make available

Declaring a reference brings the types of its family, and the capabilities
resolved from the references look framework types up by the names that the
active families give them.  The two tables agree: whatever an active family
defines is there, and the newest family that defines a type decides.
-/

namespace Verdicts

/-! ## The tables of names -/

namespace FrameworkType

theorem mem_all (w : FrameworkType) : w ∈ all := by
  cases w <;> decide

/-- Families define types of their own concern, and bring what they define. -/
theorem mem_surface_of_qualifiedName? : ∀ f ∈ Family.all, ∀ w ∈ all,
    ∀ name ∈ w.qualifiedName? f,
      f ∈ w.concern.families ∧
        name ∈ (Program.surface f).map (·.name) := by
  decide +kernel

end FrameworkType

/-- A concern has its newer family first. -/
theorem Concern.pairwise_families (concern : Concern) :
    concern.families.Pairwise fun f g =>
      f.generation = .v3 ∧ g.generation = .v2 := by
  cases concern <;> decide

/-! ## The family that decides -/

namespace Capabilities

variable {c : Capabilities} {w : FrameworkType} {f : Family}

/-- The family is active and defines the type. -/
def Offers (c : Capabilities) (w : FrameworkType) (f : Family) : Prop :=
  c.isActive f = true ∧ (w.qualifiedName? f).isSome = true

instance : DecidablePred (c.Offers w) :=
  fun f => inferInstanceAs (Decidable (_ ∧ (w.qualifiedName? f).isSome = true))

/-- Of the active families that define the type, the family is the one of the
newest generation. -/
structure Decides (c : Capabilities) (w : FrameworkType) (f : Family) : Prop where
  offers : c.Offers w f
  newest : ∀ g, c.Offers w g →
    g = f ∨ f.generation = .v3 ∧ g.generation = .v2

theorem Offers.mem_families (h : c.Offers w f) : f ∈ w.concern.families := by
  obtain ⟨name, hname⟩ := Option.isSome_iff_exists.mp h.2
  exact (FrameworkType.mem_surface_of_qualifiedName? f f.mem_all w w.mem_all
    name hname).1

theorem decides_of_find?
    (h : w.concern.families.find? (c.Offers w ·) = some f) : c.Decides w f where
  offers := by simpa using List.find?_some h
  newest _ hg := eq_or_of_find?_eq_some w.concern.pairwise_families h
    hg.mem_families (decide_eq_true hg)

/-- The family that decides is found first in the list of its concern. -/
theorem find?_eq_some_iff_decides :
    w.concern.families.find? (c.Offers w ·) = some f ↔ c.Decides w f := by
  refine ⟨decides_of_find?, fun h => ?_⟩
  have hsome : (w.concern.families.find? (c.Offers w ·)).isSome = true :=
    List.find?_isSome.mpr ⟨f, h.offers.mem_families, decide_eq_true h.offers⟩
  obtain ⟨g, hg⟩ := Option.isSome_iff_exists.mp hsome
  have hdecides := decides_of_find? hg
  obtain rfl | ⟨hnew, -⟩ := h.newest g hdecides.offers
  · exact hg
  · obtain rfl | ⟨-, hold⟩ := hdecides.newest f h.offers
    · exact hg
    · rw [hnew] at hold
      cases hold

end Capabilities

/-! ## Asking for a framework type -/

namespace Inquiry

theorem findSomeM?_familyType_apply (w : FrameworkType) (l : List Family)
    (q : Inquiry) :
    (l.findSomeM? (fun f => familyType f w) q).1 =
      l.findSome? fun f => q.familyHandle? f w := by
  induction l generalizing q with
  | nil => rfl
  | cons f l ih =>
      obtain ⟨hanswer, hconsulted⟩ := familyType_apply f w q
      rw [List.findSomeM?_cons, List.findSome?_cons, bind_apply, hanswer]
      cases q.familyHandle? f w with
      | some h => rfl
      | none => exact (ih _).trans (by simp only [hconsulted.family])

theorem frameworkType_apply (w : FrameworkType) (q : Inquiry) :
    (frameworkType w q).1 = q.frameworkHandle? w :=
  findSomeM?_familyType_apply w w.concern.families q

theorem composedType_apply (w : FrameworkType) (q : Inquiry) :
    (composedType w q).1 =
      (q.capabilities.family? w.concern).bind fun f => q.familyHandle? f w := by
  rw [composedType, bind_apply, get_apply]
  cases q.capabilities.family? w.concern with
  | none => rfl
  | some f => exact (familyType_apply f w q).1

end Inquiry

/-! ## Programs with references -/

namespace Program

/-- The program once references have been declared, and its capabilities. -/
def referencing (p : Program) (references : List Reference) : Inquiry :=
  let p' := (references.mapM declareReference p).2
  ⟨p', Capabilities.resolve p'.references .empty⟩

theorem mapM_declareReference (references : List Reference) (p : Program) :
    (references.mapM declareReference p).2 = p.withReferences references := by
  induction references generalizing p with
  | nil => rw [withReferences_nil]; rfl
  | cons r references ih =>
      rw [List.mapM_cons, withReferences_cons, ← declareReference_apply, ← ih]
      rfl

variable {p : Program} {references : List Reference} {f : Family}
  {w : FrameworkType} {name : String} {h : Handle}

theorem program_referencing (p : Program) (references : List Reference) :
    (p.referencing references).program = p.withReferences references :=
  mapM_declareReference references p

theorem isActive_referencing (hp : p.references = []) :
    (p.referencing references).capabilities.isActive f = true ↔
      ∃ r ∈ references, r.family? = some f := by
  have hreferences : (references.mapM declareReference p).2.references =
      references := by
    rw [mapM_declareReference, withReferences, hp, List.nil_append]
  rw [referencing, hreferences, Capabilities.isActive_resolve_empty]

/-- What an active family defines is there. -/
theorem exists_named?_referencing (hp : p.references = [])
    (hf : (p.referencing references).capabilities.isActive f = true)
    (hname : w.qualifiedName? f = some name) :
    ∃ h, (p.referencing references).program.table.named? name = some h := by
  rw [isActive_referencing hp] at hf
  obtain ⟨r, hr, hfamily⟩ := hf
  refine Option.isSome_iff_exists.mp ?_
  rw [program_referencing, withReferences, LibraryType.isSome_named?_declareAll]
  right
  obtain ⟨l, hl, heq⟩ := List.mem_map.mp
    (FrameworkType.mem_surface_of_qualifiedName? f f.mem_all w w.mem_all
      name hname).2
  exact List.mem_map.mpr ⟨l, List.mem_flatMap.mpr
    ⟨f, List.mem_filterMap.mpr ⟨r, hr, hfamily⟩, hl⟩, heq⟩

theorem familyHandle?_referencing_eq_some :
    (p.referencing references).familyHandle? f w = some h ↔
      (p.referencing references).capabilities.isActive f = true ∧
        ∃ name, w.qualifiedName? f = some name ∧
          (p.referencing references).program.table.named? name = some h := by
  have hunfold : (p.referencing references).familyHandle? f w =
      if (p.referencing references).capabilities.isActive f then
        (w.qualifiedName? f).bind
          (p.referencing references).program.table.named?
      else none := rfl
  rw [hunfold]
  split
  · next hactive => simp [hactive, Option.bind_eq_some_iff]
  · next hactive => simp [hactive]

theorem isSome_familyHandle?_referencing (hp : p.references = [])
    (f : Family) :
    ((p.referencing references).familyHandle? f w).isSome =
      decide ((p.referencing references).capabilities.Offers w f) := by
  rw [Bool.eq_iff_iff, decide_eq_true_iff, Option.isSome_iff_exists]
  constructor
  · rintro ⟨h, hh⟩
    obtain ⟨hactive, name, hname, -⟩ := familyHandle?_referencing_eq_some.mp hh
    exact ⟨hactive, by rw [hname]; rfl⟩
  · rintro ⟨hactive, hdefines⟩
    obtain ⟨name, hname⟩ := Option.isSome_iff_exists.mp hdefines
    obtain ⟨h, hh⟩ := exists_named?_referencing hp hactive hname
    exact ⟨h, familyHandle?_referencing_eq_some.mpr ⟨hactive, name, hname, hh⟩⟩

theorem isSome_frameworkHandle?_referencing (hp : p.references = []) :
    ((p.referencing references).frameworkHandle? w).isSome = true ↔
      ∃ f, (p.referencing references).capabilities.Offers w f := by
  rw [Inquiry.frameworkHandle?, List.findSome?_isSome_iff]
  constructor
  · rintro ⟨f, -, hf⟩
    rw [isSome_familyHandle?_referencing hp, decide_eq_true_iff] at hf
    exact ⟨f, hf⟩
  · rintro ⟨f, hf⟩
    refine ⟨f, hf.mem_families, ?_⟩
    rw [isSome_familyHandle?_referencing hp]
    exact decide_eq_true hf

/-- The family that decides gives a framework type its handle. -/
theorem frameworkHandle?_referencing_eq_some (hp : p.references = []) :
    (p.referencing references).frameworkHandle? w = some h ↔
      ∃ f, (p.referencing references).capabilities.Decides w f ∧
        (p.referencing references).familyHandle? f w = some h := by
  rw [Inquiry.frameworkHandle?, LibraryType.findSome?_eq_bind
    (isSome_familyHandle?_referencing hp), Option.bind_eq_some_iff]
  simp only [Capabilities.find?_eq_some_iff_decides]

end Program

namespace Inquiry

/-- The active family of a concern that comes first is not passed over. -/
theorem frameworkHandle?_of_family? {q : Inquiry} {w : FrameworkType} {f : Family}
    {h : Handle} (hf : q.capabilities.family? w.concern = some f)
    (hh : q.familyHandle? f w = some h) : q.frameworkHandle? w = some h := by
  obtain ⟨-, before, after, hsplit, hbefore⟩ :=
    List.find?_eq_some_iff_append.mp hf
  rw [frameworkHandle?, hsplit, List.findSome?_append, List.findSome?_cons, hh]
  have hnone : before.findSome? (fun g => q.familyHandle? g w) = none := by
    rw [List.findSome?_eq_none_iff]
    intro g hg
    rw [familyHandle?, if_neg (by simpa using hbefore g hg)]
  rw [hnone]
  rfl

/-- Every referenced family has the types that it defines.  A framework type is
there when an active family defines it, and is then the type of the name that the
newest such family gives it; the family that decides the concern as a whole gives
no other. -/
theorem referenced_types_exposed (p : Program) (hp : p.references = [])
    (references : List Reference) (w : FrameworkType) :
    let p' := (references.mapM Program.declareReference p).2
    let c := Capabilities.resolve p'.references .empty
    let q : Inquiry := ⟨p', c⟩
    (∀ f name, c.isActive f = true → w.qualifiedName? f = some name →
      ∃ h, p'.table.named? name = some h ∧ (familyType f w q).1 = some h) ∧
    ((frameworkType w q).1.isSome = true ↔
      ∃ f, c.isActive f = true ∧ (w.qualifiedName? f).isSome = true) ∧
    (∀ h, (frameworkType w q).1 = some h ↔
      ∃ f name, c.Decides w f ∧ w.qualifiedName? f = some name ∧
        p'.table.named? name = some h) ∧
    ∀ h, (composedType w q).1 = some h → (frameworkType w q).1 = some h := by
  intro p' c q
  have hfamily : ∀ {f h}, q.familyHandle? f w = some h ↔
      c.isActive f = true ∧ ∃ name, w.qualifiedName? f = some name ∧
        p'.table.named? name = some h :=
    Program.familyHandle?_referencing_eq_some
  have hframework : ∀ {h}, q.frameworkHandle? w = some h ↔
      ∃ f, c.Decides w f ∧ q.familyHandle? f w = some h :=
    Program.frameworkHandle?_referencing_eq_some hp
  rw [frameworkType_apply, composedType_apply]
  refine ⟨fun f name hactive hname => ?_, ?_, fun h => ?_, fun h hh => ?_⟩
  · obtain ⟨h, hh⟩ := Program.exists_named?_referencing hp hactive hname
    refine ⟨h, hh, ?_⟩
    rw [(familyType_apply f w q).1]
    exact hfamily.mpr ⟨hactive, name, hname, hh⟩
  · exact Program.isSome_frameworkHandle?_referencing hp
  · rw [hframework]
    constructor
    · rintro ⟨f, hdecides, hh⟩
      obtain ⟨-, name, hname, hnamed⟩ := hfamily.mp hh
      exact ⟨f, name, hdecides, hname, hnamed⟩
    · rintro ⟨f, name, hdecides, hname, hnamed⟩
      exact ⟨f, hdecides,
        hfamily.mpr ⟨hdecides.offers.1, name, hname, hnamed⟩⟩
  · obtain ⟨f, hf, hhandle⟩ := Option.bind_eq_some_iff.mp hh
    exact frameworkHandle?_of_family? hf hhandle

/-- With both generations of the abstractions, the marker of the older one is
found there although the newer one decides the concern, and of the message sinks
the newer one counts. -/
theorem referenced_types_exposed_both :
    let references : List Reference :=
      [⟨"xunit.abstractions", none⟩, ⟨"xunit.v3.common", none⟩]
    let p' := (references.mapM Program.declareReference (Program.ofTable .empty)).2
    let c := Capabilities.resolve p'.references .empty
    let q : Inquiry := ⟨p', c⟩
    (composedType .xunitSerializable q).1 = none ∧
      (frameworkType .xunitSerializable q).1 = some ⟨1⟩ ∧
      (frameworkType .messageSink q).1 = some ⟨7⟩ := by
  intro references p' c q
  have hfacts : (composedType .xunitSerializable q).1 = none ∧
      (composedType .messageSink q).1 = some ⟨7⟩ ∧
      c.isActive .abstractionsV2 = true ∧
      p'.table.named? "Xunit.Abstractions.IXunitSerializable" = some ⟨1⟩ := by
    decide +kernel
  obtain ⟨hnone, hsink, hactive, hnamed⟩ := hfacts
  obtain ⟨-, -, hmarker, -⟩ := referenced_types_exposed (Program.ofTable .empty)
    rfl references .xunitSerializable
  obtain ⟨-, -, -, hcomposed⟩ := referenced_types_exposed (Program.ofTable .empty)
    rfl references .messageSink
  have hdecides : c.Decides .xunitSerializable .abstractionsV2 := by
    refine ⟨⟨hactive, rfl⟩, fun g hg => .inl ?_⟩
    obtain ⟨-, hdefines⟩ := hg
    cases g <;> first | rfl | cases hdefines
  exact ⟨hnone, (hmarker ⟨1⟩).mpr ⟨_, _, hdecides, rfl, hnamed⟩,
    hcomposed ⟨7⟩ hsink⟩

end Inquiry

end Verdicts
