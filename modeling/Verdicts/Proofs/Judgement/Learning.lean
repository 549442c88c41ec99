import Verdicts.Proofs.Judgement.Tiers
import Verdicts.Proofs.Libraries.Activation
import Verdicts.Proofs.Loading.References

/-!
# Learning more about a program

What is learned about a program may come in any order: types and interfaces,
attributes, references to libraries, and versions that a caller pins.  None of
it revokes an assignment or lowers a tier.  A newer generation of the framework
that becomes active hides no marker of the older one, since each marker has a
single generation that defines it.
-/

namespace Verdicts

open Program.LibraryType (brought declareAll)

variable {foreign : Handle → Prop}

/-- What is known about a program: the program itself, and the versions that a
caller pins. -/
structure Study where
  program : Program
  overrides : Overrides

/-- Something to learn about a program. -/
inductive Finding where
  /-- An operation on the types, such as giving one an interface. -/
  | types (op : Table.Operation)
  /-- An attribute of the assembly. -/
  | assembly (a : Attribute)
  /-- A serializer for some types. -/
  | serializer (serializer : Handle) (supported : List Handle)
  | reference (r : Reference)
  | pin (f : Family) (v : Version)

/-- A finding only adds to what is known, and hands in handles of the table or
foreign ones. -/
def Finding.Permitted (foreign : Handle → Prop) (t : Table) : Finding → Prop
  | .types op => op.isAdditive = true ∧ op.Permitted foreign t
  | .assembly a => ∀ h ∈ a.attributeClass :: a.arguments, t.Admits foreign h
  | .serializer k supported => ∀ h ∈ k :: supported, t.Admits foreign h
  | .reference _ | .pin _ _ => True

namespace Study

/-- Take a finding in. -/
def learn (s : Study) : Finding → Study
  | .types op => { s with program := (Program.onTable op.run s.program).2 }
  | .assembly a => { s with program := (Program.addAttribute a s.program).2 }
  | .serializer k supported =>
    { s with program := (Program.registerSerializer k supported s.program).2 }
  | .reference r => { s with program := (Program.declareReference r s.program).2 }
  | .pin f v => { s with overrides := s.overrides.insert f v }

/-- The inquiry into the program, before any look-up. -/
def inquiry (s : Study) : Inquiry :=
  ⟨s.program, Capabilities.resolve s.program.references s.overrides⟩

/-- Ask for the tier of a type, by a classifier gathered for the occasion. -/
def classify (s : Study) (h : Handle) : Tier × Inquiry :=
  (do Inquiry.classify (← Inquiry.classifier) h : StateM Inquiry Tier) s.inquiry

/-- The tier of a type. -/
def tier (s : Study) (h : Handle) : Tier :=
  (s.classify h).1

end Study

/-- Findings lead from the first study to the second. -/
inductive Learning (foreign : Handle → Prop) : Study → Study → Prop where
  | refl (s : Study) : Learning foreign s s
  | step {s s' : Study} (finding : Finding)
      (h : finding.Permitted foreign s.program.table)
      (rest : Learning foreign (s.learn finding) s') : Learning foreign s s'

/-! ## Active families -/

namespace Capabilities

/-- A family that is active stays so when references follow. -/
theorem isSome_resolveFamily?_append {references : List Reference}
    {overrides : Overrides} {f : Family}
    (h : (resolveFamily? references overrides f).isSome = true)
    (more : List Reference) :
    (resolveFamily? (references ++ more) overrides f).isSome = true := by
  rw [resolveFamily?] at h ⊢
  cases hv : overrides.version? f with
  | some v => rfl
  | none =>
      rw [hv] at h
      dsimp only at h ⊢
      rw [Option.isSome_map, List.find?_isSome] at h ⊢
      obtain ⟨r, hr, hadmits⟩ := h
      exact ⟨r, List.mem_append_left more hr, hadmits⟩

/-- A family that is active stays so when a version is pinned. -/
theorem isSome_resolveFamily?_insert {references : List Reference}
    {overrides : Overrides} {f : Family}
    (h : (resolveFamily? references overrides f).isSome = true) (g : Family)
    (v : Version) :
    (resolveFamily? references (overrides.insert g v) f).isSome = true := by
  rw [resolveFamily?] at h ⊢
  rw [Overrides.version?_insert]
  by_cases hfg : f = g
  · rw [if_pos hfg]
    rfl
  · rwa [if_neg hfg]

end Capabilities

/-! ## What a finding adds -/

namespace Study

variable {s s' s'' : Study} {f : Family} {w : FrameworkType} {h : Handle}

/-- The second study knows all that the first one does. -/
structure LearnedTo (s s' : Study) : Prop where
  table : s.program.table.EnrichedTo s'.program.table
  attributes : s.program.attributes ⊆ s'.program.attributes
  wiring : s'.program.wiring = s.program.wiring
  active : ∀ {f}, s.inquiry.capabilities.isActive f = true →
    s'.inquiry.capabilities.isActive f = true

theorem LearnedTo.refl (s : Study) : s.LearnedTo s :=
  ⟨.refl _, List.Subset.refl _, rfl, id⟩

theorem LearnedTo.trans (l : s.LearnedTo s') (l' : s'.LearnedTo s'') :
    s.LearnedTo s'' where
  table := l.table.trans l'.table
  attributes := List.Subset.trans l.attributes l'.attributes
  wiring := l'.wiring.trans l.wiring
  active h := l'.active (l.active h)

/-- A study whose table is sound and whose program has no handles but those of
its table. -/
structure Proper (foreign : Handle → Prop) (s : Study) : Prop where
  wellFormed : s.program.table.WellFormed foreign
  unwired : s.program.wiring = []
  attributes : ∀ a ∈ s.program.attributes,
    ∀ h ∈ a.attributeClass :: a.arguments, s.program.table.Admits foreign h

/-- Registering a serializer adds an attribute, if the program has its class. -/
theorem registerSerializer_cases (k : Handle) (supported : List Handle)
    (p : Program) :
    (Program.registerSerializer k supported p).2 = p ∨
      ∃ attributeClass, p.table.knows attributeClass = true ∧
        (Program.registerSerializer k supported p).2 =
          (Program.addAttribute ⟨attributeClass, k :: supported⟩ p).2 := by
  rw [Program.registerSerializer, bind_apply, get_apply]
  cases hc : p.table.named? Program.registrationName with
  | none => exact .inl rfl
  | some attributeClass =>
      exact .inr ⟨attributeClass, Table.knows_of_named? hc, rfl⟩

theorem learnedTo_learn {finding : Finding}
    (hf : finding.Permitted foreign s.program.table) :
    s.LearnedTo (s.learn finding) := by
  have hattribute : ∀ a : Attribute, s.LearnedTo
      { s with program := (Program.addAttribute a s.program).2 } := fun a =>
    ⟨.refl _, List.subset_append_left _ _, rfl, id⟩
  cases finding with
  | types op =>
      exact ⟨Table.Operation.enrichedTo_run hf.1 _, List.Subset.refl _, rfl, id⟩
  | assembly a => exact hattribute a
  | serializer k supported =>
      rw [learn]
      rcases registerSerializer_cases k supported s.program with
        heq | ⟨attributeClass, -, heq⟩
      · rw [heq]
        exact .refl s
      · rw [heq]
        exact hattribute _
  | reference r =>
      rw [learn, Program.declareReference_apply]
      refine ⟨Table.enrichedTo_declareAll _ _, List.Subset.refl _, rfl, ?_⟩
      intro f hactive
      rw [inquiry, Capabilities.isActive_resolve] at hactive ⊢
      exact Capabilities.isSome_resolveFamily?_append hactive [r]
  | pin g v =>
      refine ⟨.refl _, List.Subset.refl _, rfl, ?_⟩
      intro f hactive
      rw [inquiry, Capabilities.isActive_resolve] at hactive ⊢
      exact Capabilities.isSome_resolveFamily?_insert hactive g v

theorem wellFormed_declareAll {t : Table} (w : t.WellFormed foreign)
    (ls : List Program.LibraryType) : (declareAll t ls).WellFormed foreign := by
  induction ls generalizing t with
  | nil => exact w
  | cons l ls ih =>
      exact ih (w.declare fun c hc =>
        .inl (Table.knows_of_admits (l.admits_handed t hc)))

theorem Proper.addAttribute (hs : s.Proper foreign) {a : Attribute}
    (ha : ∀ h ∈ a.attributeClass :: a.arguments,
      s.program.table.Admits foreign h) :
    Proper foreign
      { s with program := (Program.addAttribute a s.program).2 } where
  wellFormed := hs.wellFormed
  unwired := hs.unwired
  attributes b hb := by
    rcases List.mem_append.mp hb with hb | hb
    · exact hs.attributes b hb
    · rw [List.mem_singleton.mp hb]
      exact ha

theorem Proper.learn (hs : s.Proper foreign) {finding : Finding}
    (hf : finding.Permitted foreign s.program.table)
    (ha : (s.learn finding).program.table.Avoids foreign) :
    (s.learn finding).Proper foreign := by
  have hadmits : ∀ {p : Program}, s.program.table.PersistsIn p.table →
      p.attributes = s.program.attributes →
      ∀ a ∈ p.attributes, ∀ h ∈ a.attributeClass :: a.arguments,
        p.table.Admits foreign h := by
    intro p hp heq a hmem h hh
    exact hp.admits (hs.attributes a (heq ▸ hmem) h hh)
  cases finding with
  | types op =>
      exact ⟨Table.Operation.wellFormed_run hs.wellFormed hf.2 ha, hs.unwired,
        hadmits (Table.Operation.persistsIn_run op _) rfl⟩
  | assembly a => exact hs.addAttribute hf
  | serializer k supported =>
      rw [Study.learn]
      rcases registerSerializer_cases k supported s.program with
        heq | ⟨attributeClass, hk, heq⟩
      · rw [heq]
        exact hs
      · rw [heq]
        exact hs.addAttribute (List.forall_mem_cons.mpr ⟨.inl hk, hf⟩)
  | reference r =>
      rw [Study.learn, Program.declareReference_apply]
      exact ⟨wellFormed_declareAll hs.wellFormed _, hs.unwired,
        hadmits (Table.enrichedTo_declareAll _ _).persistsIn rfl⟩
  | pin g v => exact ⟨hs.wellFormed, hs.unwired, hs.attributes⟩

end Study

/-! ## Learning -/

namespace Learning

variable {s s' : Study}

theorem learnedTo (r : Learning foreign s s') : s.LearnedTo s' := by
  induction r with
  | refl s => exact .refl s
  | step finding hf _ ih => exact (Study.learnedTo_learn hf).trans ih

theorem proper (r : Learning foreign s s') (hs : s.Proper foreign)
    (ha : s'.program.table.Avoids foreign) : s'.Proper foreign := by
  induction r with
  | refl s => exact hs
  | step finding hf rest ih =>
      exact ih (hs.learn hf (rest.learnedTo.table.persistsIn.avoids ha)) ha

end Learning

/-! ## Types of a single generation -/

/-- A single family of its concern defines the type. -/
def FrameworkType.IsSole (w : FrameworkType) : Prop :=
  ∀ f ∈ w.concern.families, ∀ g ∈ w.concern.families,
    (w.qualifiedName? f).isSome = true → (w.qualifiedName? g).isSome = true →
      f = g

instance (w : FrameworkType) : Decidable w.IsSole :=
  inferInstanceAs (Decidable (∀ f ∈ w.concern.families,
    ∀ g ∈ w.concern.families, (w.qualifiedName? f).isSome = true →
      (w.qualifiedName? g).isSome = true → f = g))

/-- Each generation has a marker of its own. -/
theorem isSole_marker : ∀ w ∈
    [FrameworkType.xunitSerializable, .customXunitSerializable], w.IsSole := by
  decide

theorem isSole_registration :
    FrameworkType.registerXunitSerializerAttribute.IsSole := by
  decide

/-! ## What is not revoked -/

namespace Study

variable {s s' : Study} {f : Family} {w : FrameworkType} {h k : Handle}

theorem familyHandle?_inquiry (s : Study) (f : Family) (w : FrameworkType) :
    s.inquiry.familyHandle? f w =
      if s.inquiry.capabilities.isActive f then
        (w.qualifiedName? f).bind s.program.table.named?
      else none := rfl

/-- A framework type of a family is found by the name that the family defines. -/
theorem familyHandle?_eq_some (hh : s.inquiry.familyHandle? f w = some h) :
    (w.qualifiedName? f).isSome = true ∧ s.program.table.knows h = true := by
  rw [familyHandle?_inquiry] at hh
  split at hh
  · obtain ⟨name, hname, hnamed⟩ := Option.bind_eq_some_iff.mp hh
    exact ⟨by rw [hname]; rfl, Table.knows_of_named? hnamed⟩
  · cases hh

theorem Proper.inquiry (hs : s.Proper foreign)
    (ha : s.program.table.Avoids foreign) : s.inquiry.Proper foreign where
  sound := ⟨hs.wellFormed, ha⟩
  unwired := hs.unwired
  attributes := hs.attributes
  framework {w h} hh := by
    obtain ⟨f, -, hf⟩ := List.exists_of_findSome?_eq_some hh
    exact .inl (familyHandle?_eq_some hf).2

section

variable (l : s.LearnedTo s') (w' : s'.program.table.WellFormed foreign)
include l w'

theorem LearnedTo.systemHandle? {y : SystemType}
    (hh : s.inquiry.systemHandle? y = some h) :
    s'.inquiry.systemHandle? y = some h := by
  rw [inquiry, Inquiry.systemHandle?_resolve] at hh ⊢
  exact l.table.persistsIn.named? w' hh

theorem LearnedTo.familyHandle? (hh : s.inquiry.familyHandle? f w = some h) :
    s'.inquiry.familyHandle? f w = some h := by
  rw [familyHandle?_inquiry] at hh ⊢
  split at hh
  · next hactive =>
      obtain ⟨name, hname, hnamed⟩ := Option.bind_eq_some_iff.mp hh
      rw [if_pos (l.active hactive), hname, Option.bind_some]
      exact l.table.persistsIn.named? w' hnamed
  · cases hh

/-- A type that a single generation defines goes on to be found there. -/
theorem LearnedTo.frameworkHandle?
    (hsole : w.IsSole) (hh : s.inquiry.frameworkHandle? w = some h) :
    s'.inquiry.frameworkHandle? w = some h := by
  obtain ⟨f, hf, hhandle⟩ := List.exists_of_findSome?_eq_some hh
  have hhandle' := l.familyHandle? w' hhandle
  have hsome : (s'.inquiry.frameworkHandle? w).isSome = true :=
    List.findSome?_isSome_iff.mpr ⟨f, hf, by rw [hhandle']; rfl⟩
  obtain ⟨k, hk⟩ := Option.isSome_iff_exists.mp hsome
  obtain ⟨g, hg, hghandle⟩ := List.exists_of_findSome?_eq_some hk
  obtain rfl := hsole f hf g hg (familyHandle?_eq_some hhandle).1
    (familyHandle?_eq_some hghandle).1
  rw [hk, ← hghandle, hhandle']

end

end Study

namespace Tier

theorem le_always (r : Tier) : r ≤ .always := by
  cases r <;> decide

theorem never_le (r : Tier) : .never ≤ r :=
  Nat.zero_le r.rank

theorem le_refl (r : Tier) : r ≤ r :=
  Nat.le_refl r.rank

end Tier

namespace Study.LearnedTo

variable {s s' : Study} {a b h : Handle} {r r' : Tier} (l : s.LearnedTo s')
  (hs : s.inquiry.Proper foreign) (hs' : s'.inquiry.Proper foreign)
include l hs hs'

theorem assigns (ha : s.program.table.Admits foreign a)
    (hb : s.program.table.Admits foreign b)
    (h : s.program.table.Assigns a b) : s'.program.table.Assigns a b :=
  l.table.assigns hs.sound hs'.sound ha hb h

omit hs in
theorem mem_markers (hh : h ∈ s.inquiry.markers) : h ∈ s'.inquiry.markers := by
  obtain ⟨w, hw, hh⟩ := List.mem_filterMap.mp hh
  exact List.mem_filterMap.mpr ⟨w, hw,
    l.frameworkHandle? hs'.sound.wellFormed (isSole_marker w hw) hh⟩

theorem registers (hh : s.inquiry.Registers h) : s'.inquiry.Registers h := by
  obtain ⟨registration, hr, a, ha, hassigns, hh⟩ := hh
  refine ⟨registration,
    l.frameworkHandle? hs'.sound.wellFormed isSole_registration hr,
    a, l.attributes ha, ?_, hh⟩
  exact l.assigns hs hs' (hs.attributes a ha _ (List.mem_cons_self ..))
    (hs.framework hr) hassigns

theorem survives (ha : s.program.table.Admits foreign a)
    (h : s.inquiry.Survives a) : s'.inquiry.Survives a := by
  have w' := hs'.sound.wellFormed
  have htag := l.table.tag?_eq hs'.sound.avoids ha
  cases h with
  | marked hm hassigns =>
      obtain ⟨w, -, hw⟩ := List.mem_filterMap.mp hm
      exact .marked (l.mem_markers hs' hm)
        (l.assigns hs hs' ha (hs.framework hw) hassigns)
  | traits htraits =>
      obtain ⟨dictionary, list, hd, hl, hmaps⟩ := htraits
      refine .traits ⟨dictionary, list, l.systemHandle? w' hd,
        l.systemHandle? w' hl, ?_⟩
      exact (l.table.mapsToLists_eq hs.sound.wellFormed hs'.sound.avoids ha
        dictionary list .string).trans hmaps
  | durable hnone hdurable =>
      obtain ⟨y, hy, hh⟩ := hdurable
      exact .durable (htag.trans hnone) ⟨y, hy, l.systemHandle? w' hh⟩
  | registered hnone hk hassigns =>
      obtain ⟨-, -, source, hsource, -, hmem⟩ := id hk
      have hadmits := hs.attributes source hsource _
        (List.mem_cons_of_mem _ (List.mem_of_mem_drop hmem))
      exact .registered (htag.trans hnone) (l.registers hs hs' hk)
        (l.assigns hs hs' ha hadmits hassigns)

theorem grades_le (ha : s.program.table.Admits foreign a)
    (hr : s.inquiry.Grades a r) (hr' : s'.inquiry.Grades a r') : r ≤ r' := by
  cases hr' with
  | sure => exact r.le_always
  | plain hnot =>
      cases hr with
      | sure hsurvives => exact absurd (l.survives hs hs' ha hsurvives) hnot
      | plain =>
          have heq := l.table.plainTier_eq hs.sound.wellFormed
            hs'.sound.wellFormed hs'.sound.avoids ha
          rw [show s'.inquiry.program.table = s'.program.table from rfl, heq]
          exact Tier.le_refl _

theorem ranks_le (ha : s.program.table.Admits foreign a)
    (hr : s.inquiry.Ranks a r) (hr' : s'.inquiry.Ranks a r') : r ≤ r' := by
  have w := hs.sound.wellFormed
  have w' := hs'.sound.wellFormed
  obtain ⟨hsame, hadmits⟩ := Program.innermost_eq l.table w w'
    hs'.sound.avoids hs.unwired hs'.unwired ha
  cases hr with
  | core hcore hdata hgrades =>
      have hlanding := hsame.trans hcore
      cases hr' with
      | core hcore' hdata' hgrades' =>
          obtain rfl := Landing.core.inj (hlanding.symm.trans hcore')
          exact l.grades_le hs hs' (hadmits _ hcore) hgrades hgrades'
      | dataless hcore' hdata' =>
          obtain rfl := Landing.core.inj (hlanding.symm.trans hcore')
          have hkind := l.table.kind_eq w w' hs'.sound.avoids (hadmits _ hcore)
          rw [show s'.inquiry.program.table = s'.program.table from rfl, hkind,
            show s.program.table = s.inquiry.program.table from rfl,
            hdata] at hdata'
          cases hdata'
      | hollow hlanding' => cases hlanding.symm.trans hlanding'
      | cyclic hlanding' => cases hlanding.symm.trans hlanding'
  | dataless => exact r'.never_le
  | hollow => exact r'.never_le
  | cyclic hcyclic =>
      have hlanding := hsame.trans hcyclic
      cases hr' with
      | core hlanding' | dataless hlanding' | hollow hlanding' =>
          cases hlanding.symm.trans hlanding'
      | cyclic => exact Tier.le_refl _

end Study.LearnedTo

/-- Asking about the types gives out no foreign handle. -/
structure Study.Withholds (foreign : Handle → Prop) (s : Study) (a b : Handle) :
    Prop where
  assignable : (Table.assignable a b s.program.table).2.Avoids foreign
  tier : (s.classify a).2.program.table.Avoids foreign

/-- Learning more about a program that a host has built revokes no assignment
and lowers no tier: whatever types of before were assignable stay so, and a
classifier gathered afresh is at least as sure as one gathered before. -/
theorem Learning.revokes_nothing {s s' : Study}
    (hs : s.inquiry.Reachable foreign) (learning : Learning foreign s s')
    {a b : Handle} (ha : s.program.table.Admits foreign a)
    (hb : s.program.table.Admits foreign b) (hwithholds : s.Withholds foreign a b)
    (hwithholds' : s'.Withholds foreign a b) :
    ((Table.assignable a b s.program.table).1 = true →
        (Table.assignable a b s'.program.table).1 = true) ∧
      s.tier a ≤ s'.tier a := by
  have l := learning.learnedTo
  have hproper : s.Proper foreign :=
    ⟨hs.table.wellFormed, hs.unwired, hs.attributes⟩
  have hq := hproper.inquiry hs.table.avoids
  have havoids : s'.program.table.Avoids foreign :=
    (Table.interns_assignable a b s'.program.table).avoids hwithholds'.assignable
  have hq' := (learning.proper hproper havoids).inquiry havoids
  have ha' := l.table.persistsIn.admits ha
  have hb' := l.table.persistsIn.admits hb
  have hbefore := hq.sound.assignable_iff ha hb hwithholds.assignable
  have hafter := hq'.sound.assignable_iff ha' hb' hwithholds'.assignable
  constructor
  · exact fun h => hafter.mpr (l.assigns hq hq' ha hb (hbefore.mp h))
  · exact l.ranks_le hq hq' ha (hq.ranks_classify ha hwithholds.tier)
      (hq'.ranks_classify ha' hwithholds'.tier)

/-- The study of the types of a table, about which nothing else is known. -/
def Study.ofTable (t : Table) : Study :=
  ⟨Program.ofTable t, Overrides.empty⟩

theorem Study.inquiry_ofTable (t : Table) :
    (Study.ofTable t).inquiry = Inquiry.ofTable t := rfl

/-- The declaration of a class. -/
def orderDeclaration : Table.Operation :=
  .declare { name := "Order", kind := .classType }

/-- The core library with a class more. -/
def orderStudy : Study :=
  .ofTable (orderDeclaration.run Table.coreLibrary).2

/-- Values of the class survive for certain once it bears the marker of the
older generation, and go on to do so when the newer one is active as well. -/
theorem Learning.revokes_nothing_order :
    let referenced := orderStudy.learn (.reference ⟨"xunit.abstractions", none⟩)
    let marked := referenced.learn (.types (.addInterface ⟨66⟩ ⟨67⟩))
    let both := (marked.learn (.reference ⟨"xunit.v3.common", none⟩)).learn
      (.pin .coreV3 (.release 3 0 0))
    orderStudy.tier ⟨66⟩ = .possibly ∧ both.tier ⟨66⟩ = .always ∧
      orderStudy.tier ⟨66⟩ ≤ both.tier ⟨66⟩ ∧
      (Table.assignable ⟨66⟩ ⟨1⟩ both.program.table).1 = true := by
  intro referenced marked both
  have hfacts : orderStudy.tier ⟨66⟩ = .possibly ∧ both.tier ⟨66⟩ = .always ∧
      (Table.assignable ⟨66⟩ ⟨1⟩ orderStudy.program.table).1 = true ∧
      orderStudy.program.table.knows ⟨66⟩ = true ∧
      orderStudy.program.table.knows ⟨1⟩ = true ∧
      referenced.program.table.knows ⟨66⟩ = true ∧
      referenced.program.table.knows ⟨67⟩ = true := by
    decide +kernel
  obtain ⟨hpossibly, halways, hassignable, horder, hobject, horder', hmarker⟩ :=
    hfacts
  have hdeclare : orderDeclaration.Permitted noneForeign Table.coreLibrary :=
    ⟨fun h hh => (List.not_mem_nil hh).elim,
      fun h hh => (List.not_mem_nil hh).elim⟩
  have hreachable : orderStudy.inquiry.Reachable noneForeign :=
    Study.inquiry_ofTable _ ▸ Inquiry.reachable_ofTable
      ⟨.inr (.step orderDeclaration hdeclare (.refl _)),
        Table.avoids_noneForeign _⟩
  have hmark : (Finding.types (.addInterface ⟨66⟩ ⟨67⟩)).Permitted noneForeign
      referenced.program.table := by
    refine ⟨rfl, ?_, fun h hh => (List.not_mem_nil hh).elim⟩
    intro h hh
    rcases List.mem_pair.mp hh with rfl | rfl
    · exact .inl horder'
    · exact .inl hmarker
  have learning : Learning noneForeign orderStudy both := by
    refine .step (.reference ⟨"xunit.abstractions", none⟩) trivial ?_
    refine .step (.types (.addInterface ⟨66⟩ ⟨67⟩)) hmark ?_
    refine .step (.reference ⟨"xunit.v3.common", none⟩) trivial ?_
    exact .step (.pin .coreV3 (.release 3 0 0)) trivial (.refl both)
  obtain ⟨hassigns, htier⟩ := Learning.revokes_nothing hreachable learning
    (.inl horder) (.inl hobject)
    ⟨Table.avoids_noneForeign _, Table.avoids_noneForeign _⟩
    ⟨Table.avoids_noneForeign _, Table.avoids_noneForeign _⟩
  exact ⟨hpossibly, halways, htier, hassigns hassignable⟩

end Verdicts
