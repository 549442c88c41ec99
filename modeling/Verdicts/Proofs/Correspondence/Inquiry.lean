import Verdicts.Proofs.Correspondence.Naming
import Verdicts.Proofs.Judgement.Interning

/-!
# Corresponding programs and inquiries

Programs correspond when their tables and the attributes of their assemblies
do, their references make the same families active, and neither redirects
element types.  Inquiries correspond when moreover their capabilities are the
same and the handles kept so far are linked.
-/

namespace Verdicts

/-- Attributes that are the same, up to the linked handles. -/
structure Attribute.Matches (ρ : World) (a b : Attribute) : Prop where
  attributeClass : ρ a.attributeClass b.attributeClass
  arguments : List.Forall₂ ρ a.arguments b.arguments

/-- Programs about which the same verdicts are given. -/
structure Program.Matches (foreign : Handle → Prop) (ρ : World)
    (p q : Program) : Prop where
  table : p.table.Matches foreign ρ q.table
  attributes : List.Forall₂ (Attribute.Matches ρ) p.attributes q.attributes
  active : ∀ overrides, Capabilities.resolve p.references overrides =
    Capabilities.resolve q.references overrides
  unwiredLeft : p.wiring = []
  unwiredRight : q.wiring = []

/-- Answers kept for the same questions, and linked. -/
abbrev KeptMatch {κ : Type} (ρ : World) (l l' : List (κ × Option Handle)) :
    Prop :=
  List.Forall₂ (fun x y => x.1 = y.1 ∧ Option.Rel ρ x.2 y.2) l l'

/-- Capabilities that answer the same. -/
structure Capabilities.Matches (ρ : World) (c d : Capabilities) : Prop where
  active : c.active = d.active
  frameworkTypes : KeptMatch ρ c.frameworkTypes d.frameworkTypes
  systemTypes : KeptMatch ρ c.systemTypes d.systemTypes

/-- Inquiries that answer the same. -/
structure Inquiry.Matches (foreign : Handle → Prop) (ρ : World)
    (p q : Inquiry) : Prop where
  program : p.program.Matches foreign ρ q.program
  capabilities : p.capabilities.Matches ρ q.capabilities

variable {foreign : Handle → Prop} {ρ ρ' : World}

theorem Attribute.Matches.mono (h : ρ ≤ ρ') {a b : Attribute}
    (hm : a.Matches ρ b) : a.Matches ρ' b :=
  ⟨h _ _ hm.attributeClass, World.forall₂_mono h hm.arguments⟩

theorem KeptMatch.mono {κ : Type} (h : ρ ≤ ρ')
    {l l' : List (κ × Option Handle)} (hm : KeptMatch ρ l l') :
    KeptMatch ρ' l l' :=
  hm.imp fun _ _ hxy => ⟨hxy.1, World.rel_mono h hxy.2⟩

theorem Capabilities.Matches.mono (h : ρ ≤ ρ') {c d : Capabilities}
    (hm : c.Matches ρ d) : c.Matches ρ' d :=
  ⟨hm.active, hm.frameworkTypes.mono h, hm.systemTypes.mono h⟩

instance : Comparable Program where
  alike := Program.Matches
  matches_table m := m.table

instance : Comparable Inquiry where
  alike := Inquiry.Matches
  matches_table m := m.program.table

/-! ## Work on a part of the state -/

section

variable {α β : Type} {P : World → α → β → Prop}

theorem Agree.onTable {m : StateM Table α} {n : StateM Table β}
    (h : Agree foreign ρ m n P) :
    Agree foreign ρ (Program.onTable m) (Program.onTable n) P := by
  intro p q (hm : p.Matches foreign ρ q) ha ha'
  obtain ⟨ρ', hle, hm', hP⟩ := h hm.table ha ha'
  have hattributes := hm.attributes.imp fun _ _ hab =>
    Attribute.Matches.mono hle hab
  exact ⟨ρ', hle,
    ⟨hm', hattributes, hm.active, hm.unwiredLeft, hm.unwiredRight⟩, hP⟩

theorem Agree.onProgram {m : StateM Program α} {n : StateM Program β}
    (h : Agree foreign ρ m n P) :
    Agree foreign ρ (liftM m : StateM Inquiry α) (liftM n) P := by
  intro p q (hm : p.Matches foreign ρ q) ha ha'
  obtain ⟨ρ', hle, hm', hP⟩ := h hm.program ha ha'
  exact ⟨ρ', hle, ⟨hm', hm.capabilities.mono hle⟩, hP⟩

end

/-! ## Look-ups by name -/

theorem Program.agree_resolve (name : String) :
    Agree foreign ρ (Program.resolve name) (Program.resolve name)
      fun ρ' => Option.Rel ρ' := by
  intro p q hm _ _
  obtain ⟨htable, hattr, hactive, hl, hr⟩ := hm
  exact ⟨ρ, le_refl ρ, ⟨htable, hattr, hactive, hl, hr⟩, htable.named name⟩

namespace Capabilities.Matches

variable {c d : Capabilities} (m : c.Matches ρ d)
include m

theorem isActive_eq (f : Family) : c.isActive f = d.isActive f :=
  congrFun (isActive_congr m.active) f

theorem supports_eq (flag : Flag) : c.supports flag = d.supports flag := by
  have hactive : c.isActive = d.isActive := funext m.isActive_eq
  have hversion : c.version? = d.version? :=
    funext (version?_congr m.active)
  simp only [supports, family?, familySupports, hactive, hversion]

end Capabilities.Matches

namespace Inquiry

theorem agree_keepFrameworkType (f : Family) (w : FrameworkType)
    {h h' : Option Handle} (hh : Option.Rel ρ h h') :
    Agree foreign ρ (keepFrameworkType f w h) (keepFrameworkType f w h')
      Same := by
  intro p q hm _ _
  obtain ⟨hprogram, hactive, hframework, hsystem⟩ := hm
  exact ⟨ρ, le_refl ρ,
    ⟨hprogram, hactive, .cons ⟨rfl, hh⟩ hframework, hsystem⟩, rfl⟩

theorem agree_keepSystemType (s : SystemType) {h h' : Option Handle}
    (hh : Option.Rel ρ h h') :
    Agree foreign ρ (keepSystemType s h) (keepSystemType s h') Same := by
  intro p q hm _ _
  obtain ⟨hprogram, hactive, hframework, hsystem⟩ := hm
  exact ⟨ρ, le_refl ρ,
    ⟨hprogram, hactive, hframework, .cons ⟨rfl, hh⟩ hsystem⟩, rfl⟩

/-- Looking a name up and keeping the answer. -/
theorem agree_lookUp (name : String) {keep : Option Handle → StateM Inquiry Unit}
    (hinterns : ∀ h, Interns (keep h))
    (hkeep : ∀ {ρ : World} {h h' : Option Handle}, Option.Rel ρ h h' →
      Agree foreign ρ (keep h) (keep h') Same) :
    Agree foreign ρ
      (do
        let h ← Program.resolve name
        keep h
        return h : StateM Inquiry (Option Handle))
      (do
        let h ← Program.resolve name
        keep h
        return h : StateM Inquiry (Option Handle))
      fun ρ' => Option.Rel ρ' := by
  have hshields : ∀ h, Shields foreign (do
      keep h
      return h : StateM Inquiry (Option Handle)) := fun h =>
    ((hinterns h).bind fun _ => .of_pure h).shields
  apply (Program.agree_resolve name).onProgram.bind hshields hshields
  intro ρ' _ h h' hh
  apply (hkeep hh).bind
  · exact fun _ => (Interns.of_pure h).shields
  · exact fun _ => (Interns.of_pure h').shields
  · exact fun hle _ _ _ => .of_pure (World.rel_mono hle hh)

theorem agree_familyType (f : Family) (w : FrameworkType) :
    Agree foreign ρ (familyType f w) (familyType f w)
      fun ρ' => Option.Rel ρ' := by
  apply Agree.get_bind
  intro p q m
  have mc := Inquiry.Matches.capabilities m
  apply Agree.ite (by rw [mc.isActive_eq]) _ (.of_pure .none)
  obtain ⟨_, _, hl, hl', hk⟩ | ⟨hl, hl'⟩ :=
    World.rel_cases (World.rel_lookup mc.frameworkTypes (f, w))
  · simp only [hl, hl']
    exact .of_pure hk
  · simp only [hl, hl']
    cases w.qualifiedName? f with
    | none => exact .of_pure .none
    | some name =>
        exact agree_lookUp name (interns_keepFrameworkType f w)
          fun hh => agree_keepFrameworkType f w hh

theorem agree_frameworkType (w : FrameworkType) :
    Agree foreign ρ (frameworkType w) (frameworkType w)
      fun ρ' => Option.Rel ρ' := by
  have hshields : ∀ l : List Family,
      Shields foreign (l.findSomeM? fun f => familyType f w) := fun l =>
    (Interns.findSomeM? (fun f => interns_familyType f w) l).shields
  exact Agree.findSomeM? (Q := Linked) hshields hshields
    fun _ f => agree_familyType f w

theorem agree_systemType (s : SystemType) :
    Agree foreign ρ (systemType s) (systemType s)
      fun ρ' => Option.Rel ρ' := by
  apply Agree.get_bind
  intro p q m
  have mc := Inquiry.Matches.capabilities m
  obtain ⟨_, _, hl, hl', hk⟩ | ⟨hl, hl'⟩ :=
    World.rel_cases (World.rel_lookup mc.systemTypes s)
  · simp only [hl, hl']
    exact .of_pure hk
  · simp only [hl, hl']
    exact agree_lookUp s.qualifiedName (interns_keepSystemType s)
      fun hh => agree_keepSystemType s hh

/-- Whether a type is a given library type is answered the same. -/
theorem agree_isSystemType {a b : Handle} (h : ρ a b) (s : SystemType) :
    Agree foreign ρ (do return (← systemType s) = some a : StateM Inquiry Bool)
      (do return (← systemType s) = some b : StateM Inquiry Bool) Same := by
  apply (agree_systemType s).bind
  · exact fun _ => (Interns.of_pure _).shields
  · exact fun _ => (Interns.of_pure _).shields
  · intro ρ' hle x y hxy
    apply Agree.of_alike
    intro p q m
    apply Agree.of_pure
    cases hxy with
    | none => rfl
    | some hxy =>
        have heq := (matches_table m).eq_iff hxy (hle _ _ h)
        simp only [Same, Option.some.injEq, heq]

theorem agree_anySystemType {a b : Handle} (h : ρ a b)
    (l : List SystemType) :
    Agree foreign ρ
      (l.anyM fun s => do return (← systemType s) = some a :
        StateM Inquiry Bool)
      (l.anyM fun s => do return (← systemType s) = some b :
        StateM Inquiry Bool) Same := by
  have hshields : ∀ (a : Handle) (l : List SystemType), Shields foreign
      (l.anyM fun s => do return (← systemType s) = some a :
        StateM Inquiry Bool) := fun a l =>
    (Interns.anyM (fun s => (interns_systemType s).bind fun _ =>
      .of_pure _) l).shields
  apply Agree.anyM (R := Same) (fun _ _ _ heq => heq) (hshields a) (hshields b)
  · rintro ρ' hle s _ rfl
    exact agree_isSystemType (hle _ _ h) s
  · exact List.forall₂_same.mpr fun _ _ => rfl

end Inquiry

end Verdicts
