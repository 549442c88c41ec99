import Verdicts.Proofs.Judgement.Learning

/-!
# Registering serializers

A registered serializer makes values survive whose type is assignable to a type
that it supports, provided that the type carries no tag.  This holds under
arrays and nullable types as well, and no other verdict changes.
-/

namespace Verdicts

open Program.LibraryType (declareAll)

variable {foreign : Handle → Prop}

namespace Table

variable {t : Table} {a : Handle}

theorem Sound.assigns_self (ht : t.Sound foreign) (hk : t.knows a = true) :
    t.Assigns a a :=
  .refl ((known_denote_iff ht a).mpr hk)

/-- Among types that are handed over, assignability to one of several is decided
by the walk. -/
theorem Sound.exists_assignable_iff {bs : List Handle} (ht : t.Sound foreign)
    (ha : t.Admits foreign a) (hb : ∀ b ∈ bs, t.Admits foreign b)
    (havoids : ∀ b ∈ bs, (assignable a b t).2.Avoids foreign) :
    (∃ b ∈ bs, (assignable a b t).1 = true) ↔ ∃ b ∈ bs, t.Assigns a b :=
  exists_congr fun b => and_congr_right fun hmem =>
    ht.assignable_iff ha (hb b hmem) (havoids b hmem)

/-- Declaring libraries is something that a host can do. -/
theorem run_declareAll (ls : List Program.LibraryType) (t : Table) :
    Run foreign t (declareAll t ls) := by
  induction ls generalizing t with
  | nil => exact .refl t
  | cons l ls ih =>
      refine .step (.declare (l.declaration t)) ⟨?_, ?_⟩ (ih _)
      · exact fun h hh => .inl (knows_of_admits (l.admits_handed t hh))
      · exact fun h hh => (List.not_mem_nil hh).elim

end Table

/-! ## Types that a registration covers -/

/-- What remains of the type under its arrays and nullable types carries no tag
and is assignable to one of the supported types. -/
def Program.Supports (p : Program) (supported : List Handle) (h : Handle) :
    Prop :=
  ∃ core, p.innermost h = .core core ∧ (p.table.kind core).isData = true ∧
    p.table.tag? core = none ∧
      ∃ k ∈ supported, (Table.assignable core k p.table).1 = true

namespace Inquiry

variable {q q' : Inquiry} {h core : Handle} {r r' : Tier}

/-- The tier of a type goes by where unwinding it ends. -/
theorem ranks_iff : q.Ranks h r ↔
    match q.program.innermost h with
    | .core core =>
      if (q.program.table.kind core).isData then q.Grades core r else r = .never
    | .hollow => r = .never
    | .cyclic => r = .possibly := by
  constructor
  · rintro (⟨hcore, hdata, hgrades⟩ | ⟨hcore, hdata⟩ | hhollow | hcyclic)
    · simpa only [hcore, hdata, if_true] using hgrades
    · simp [hcore, hdata]
    · simp [hhollow]
    · simp [hcyclic]
  · intro hr
    cases hlanding : q.program.innermost h with
    | core core =>
        simp only [hlanding] at hr
        cases hdata : (q.program.table.kind core).isData with
        | true =>
            rw [hdata, if_pos rfl] at hr
            exact .core hlanding hdata hr
        | false =>
            rw [hdata, if_neg Bool.false_ne_true] at hr
            exact hr ▸ .dataless hlanding hdata
    | hollow =>
        simp only [hlanding] at hr
        exact hr ▸ .hollow hlanding
    | cyclic =>
        simp only [hlanding] at hr
        exact hr ▸ .cyclic hlanding

theorem Ranks.eq_always (hr : q.Ranks h r)
    (hcore : q.program.innermost h = .core core)
    (hdata : (q.program.table.kind core).isData = true)
    (hsurvives : q.Survives core) : r = .always := by
  rw [ranks_iff] at hr
  simp only [hcore, hdata, if_true] at hr
  cases hr with
  | sure => rfl
  | plain hnot => exact absurd hsurvives hnot

theorem Grades.unique (htable : q'.program.table = q.program.table)
    (hsurvives : q'.Survives core ↔ q.Survives core) (hr : q.Grades core r)
    (hr' : q'.Grades core r') : r' = r := by
  cases hr with
  | sure h =>
      cases hr' with
      | sure => rfl
      | plain hnot => exact absurd (hsurvives.mpr h) hnot
  | plain hnot =>
      cases hr' with
      | sure h => exact absurd (hsurvives.mp h) hnot
      | plain => rw [htable]

/-- Inquiries about the same types agree on a tier if they agree on whether
what remains of the type survives. -/
theorem Ranks.unique (htable : q'.program.table = q.program.table)
    (hsame : q'.program.innermost h = q.program.innermost h)
    (hsurvives : ∀ core, q.program.innermost h = .core core →
      (q.program.table.kind core).isData = true →
        (q'.Survives core ↔ q.Survives core))
    (hr : q.Ranks h r) (hr' : q'.Ranks h r') : r' = r := by
  rw [ranks_iff] at hr hr'
  rw [hsame, htable] at hr'
  cases hlanding : q.program.innermost h with
  | core core =>
      simp only [hlanding] at hr hr'
      cases hdata : (q.program.table.kind core).isData with
      | true =>
          rw [hdata, if_pos rfl] at hr hr'
          exact hr.unique htable (hsurvives core hlanding hdata) hr'
      | false =>
          rw [hdata, if_neg Bool.false_ne_true] at hr hr'
          rw [hr, hr']
  | hollow | cyclic =>
      simp only [hlanding] at hr hr'
      rw [hr, hr']

end Inquiry

/-! ## What a registration adds -/

namespace Study

variable {s : Study} {k a h registration : Handle} {supported : List Handle}

/-- The study after a serializer has been registered. -/
abbrev registered (s : Study) (k : Handle) (supported : List Handle) : Study :=
  s.learn (.serializer k supported)

section

variable
  (hnamed : s.program.table.named? Program.registrationName = some registration)
include hnamed

theorem registerSerializer_apply (k : Handle) (supported : List Handle) :
    Program.registerSerializer k supported s.program =
      (true,
        (Program.addAttribute ⟨registration, k :: supported⟩ s.program).2) := by
  rw [Program.registerSerializer, bind_apply, get_apply]
  simp only [hnamed]
  rfl

theorem registered_eq (k : Handle) (supported : List Handle) :
    s.registered k supported =
      { s with program :=
        (Program.addAttribute ⟨registration, k :: supported⟩ s.program).2 } := by
  rw [registered, learn, registerSerializer_apply hnamed]

theorem table_registered (k : Handle) (supported : List Handle) :
    (s.registered k supported).program.table = s.program.table := by
  rw [registered_eq hnamed]
  rfl

theorem wiring_registered (k : Handle) (supported : List Handle) :
    (s.registered k supported).program.wiring = s.program.wiring := by
  rw [registered_eq hnamed]
  rfl

/-- The active core finds the registration attribute by its name. -/
theorem frameworkHandle?_registration
    (hactive : s.inquiry.capabilities.isActive .coreV3 = true) :
    s.inquiry.frameworkHandle? .registerXunitSerializerAttribute =
      some registration := by
  have hfamily : s.inquiry.familyHandle? .coreV3
      .registerXunitSerializerAttribute = some registration := by
    rw [familyHandle?_inquiry, if_pos hactive]
    exact hnamed
  rw [Inquiry.frameworkHandle?, FrameworkType.concern, Concern.families,
    List.findSome?_cons, hfamily]

variable (hs : s.inquiry.Proper foreign)
  (hactive : s.inquiry.capabilities.isActive .coreV3 = true)
include hs hactive

theorem registers_registered_iff :
    (s.registered k supported).inquiry.Registers h ↔
      s.inquiry.Registers h ∨ h ∈ supported := by
  have hfound := frameworkHandle?_registration hnamed hactive
  have hself : s.program.table.Assigns registration registration :=
    hs.sound.assigns_self (Table.knows_of_named? hnamed)
  rw [registered_eq hnamed]
  constructor
  · rintro ⟨found, hfound', a, ha, hassigns, hh⟩
    rcases List.mem_append.mp ha with ha | ha
    · exact .inl ⟨found, hfound', a, ha, hassigns, hh⟩
    · rw [List.mem_singleton.mp ha] at hh
      exact .inr hh
  · rintro (⟨found, hfound', a, ha, hassigns, hh⟩ | hh)
    · exact ⟨found, hfound', a, List.mem_append_left _ ha, hassigns, hh⟩
    · exact ⟨registration, hfound, _,
        List.mem_append_right _ (List.mem_singleton_self _), hself, hh⟩

theorem survives_registered_iff :
    (s.registered k supported).inquiry.Survives a ↔
      s.inquiry.Survives a ∨
        (s.program.table.tag? a = none ∧
          ∃ l ∈ supported, s.program.table.Assigns a l) := by
  have hregisters : ∀ {h}, (s.registered k supported).inquiry.Registers h ↔
      s.inquiry.Registers h ∨ h ∈ supported :=
    registers_registered_iff hnamed hs hactive
  rw [registered_eq hnamed] at hregisters ⊢
  constructor
  · rintro (⟨hm, hassigns⟩ | h | ⟨htag, h⟩ | ⟨htag, hk, hassigns⟩)
    · exact .inl (.marked hm hassigns)
    · exact .inl (.traits h)
    · exact .inl (.durable htag h)
    · rcases hregisters.mp hk with hk | hk
      · exact .inl (.registered htag hk hassigns)
      · exact .inr ⟨htag, _, hk, hassigns⟩
  · rintro ((⟨hm, hassigns⟩ | h | ⟨htag, h⟩ | ⟨htag, hk, hassigns⟩) |
      ⟨htag, l, hl, hassigns⟩)
    · exact .marked hm hassigns
    · exact .traits h
    · exact .durable htag h
    · exact .registered htag (hregisters.mpr (.inl hk)) hassigns
    · exact .registered htag (hregisters.mpr (.inr hl)) hassigns

end

/-- A host that references a library stays among the inquiries that hosts come
to. -/
theorem reachable_learn_reference (hs : s.inquiry.Reachable foreign)
    (r : Reference)
    (ha : (s.learn (.reference r)).program.table.Avoids foreign) :
    (s.learn (.reference r)).inquiry.Reachable foreign := by
  have hproper : s.Proper foreign :=
    ⟨hs.table.wellFormed, hs.unwired, hs.attributes⟩
  have hpermitted : (Finding.reference r).Permitted foreign s.program.table :=
    trivial
  have hproper' := hproper.learn hpermitted ha
  refine ⟨hs.table.of_run ?_ ha, hproper'.unwired, hproper'.attributes,
    fun e he => (List.not_mem_nil he).elim,
    fun e he => (List.not_mem_nil he).elim⟩
  rw [inquiry, learn, Program.declareReference_apply]
  exact Table.run_declareAll _ _

/-- Asking about the type, before and after a registration, gives out no foreign
handle. -/
structure WithholdsRegistered (foreign : Handle → Prop) (s : Study) (k : Handle)
    (supported : List Handle) (h : Handle) : Prop where
  before : (s.classify h).2.program.table.Avoids foreign
  after : ((s.registered k supported).classify h).2.program.table.Avoids foreign
  assignable : ∀ core, s.program.innermost h = .core core → ∀ l ∈ supported,
    (Table.assignable core l s.program.table).2.Avoids foreign

/-- Where the newer core is active and its registration attribute declared,
registering a serializer raises the tiers of the types that the registration
covers to the highest one and leaves all others.  Where the attribute is not
declared, the registration is refused and changes nothing. -/
theorem tier_registered (hs : s.inquiry.Reachable foreign)
    (hhanded : ∀ h ∈ k :: supported, s.program.table.Admits foreign h) :
    (s.program.table.named? Program.registrationName = none →
        Program.registerSerializer k supported s.program =
          (false, s.program)) ∧
      ∀ registration,
        s.program.table.named? Program.registrationName = some registration →
        s.inquiry.capabilities.isActive .coreV3 = true →
        (Program.registerSerializer k supported s.program).1 = true ∧
          ∀ a, s.program.table.Admits foreign a →
            s.WithholdsRegistered foreign k supported a →
            (s.program.Supports supported a →
              (s.registered k supported).tier a = .always) ∧
            (¬ s.program.Supports supported a →
              (s.registered k supported).tier a = s.tier a) := by
  have hproper : s.Proper foreign :=
    ⟨hs.table.wellFormed, hs.unwired, hs.attributes⟩
  have hq := hproper.inquiry hs.table.avoids
  constructor
  · intro hnone
    rw [Program.registerSerializer, bind_apply, get_apply]
    simp only [hnone, pure_apply]
  intro registration hnamed hactive
  refine ⟨by rw [registerSerializer_apply hnamed], fun a ha hwithholds => ?_⟩
  have htable := table_registered hnamed k supported
  have havoids : (s.registered k supported).program.table.Avoids foreign :=
    htable ▸ hs.table.avoids
  have hproper' : (s.registered k supported).Proper foreign :=
    hproper.learn hhanded havoids
  have hranks := hq.ranks_classify ha hwithholds.before
  have hranks' := (hproper'.inquiry havoids).ranks_classify (htable ▸ ha)
    hwithholds.after
  obtain ⟨hsame, hadmits⟩ := Program.innermost_eq
    (p := s.program) (q := (s.registered k supported).program)
    (htable ▸ .refl _) hproper.wellFormed hproper'.wellFormed havoids hs.unwired
    ((wiring_registered hnamed k supported).trans hs.unwired) ha
  have hcovers : ∀ core, s.program.innermost a = .core core →
      ((∃ l ∈ supported, (Table.assignable core l s.program.table).1 = true) ↔
        ∃ l ∈ supported, s.program.table.Assigns core l) := fun core hcore =>
    hq.sound.exists_assignable_iff (hadmits core hcore)
      (fun l hl => hhanded l (List.mem_cons_of_mem k hl))
      (hwithholds.assignable core hcore)
  constructor
  · rintro ⟨core, hcore, hdata, htag, hl⟩
    refine hranks'.eq_always (hsame.trans hcore) ?_ ?_
    · exact htable ▸ hdata
    · exact (survives_registered_iff hnamed hq hactive).mpr
        (.inr ⟨htag, (hcovers core hcore).mp hl⟩)
  · intro hnot
    refine hranks.unique htable hsame (fun core hcore hdata => ?_) hranks'
    rw [survives_registered_iff hnamed hq hactive, or_iff_left]
    rintro ⟨htag, hl⟩
    exact hnot ⟨core, hcore, hdata, htag, (hcovers core hcore).mpr hl⟩

/-- The declaration of a type. -/
def moneyDeclaration : Table.Operation :=
  .declare { name := "Money", kind := .struct }

/-- The declaration of its serializer. -/
def serializerDeclaration : Table.Operation :=
  .declare { name := "MoneySerializer", kind := .classType, isClosed := true }

/-- A program over the core library with a type and its serializer, which
references the newer core. -/
def moneyStudy : Study :=
  (Study.ofTable (serializerDeclaration.run
    (moneyDeclaration.run Table.coreLibrary).2).2).learn
      (.reference ⟨"xunit.v3.core", none⟩)

theorem reachable_moneyStudy : moneyStudy.inquiry.Reachable noneForeign := by
  have hmoney : moneyDeclaration.Permitted noneForeign Table.coreLibrary :=
    ⟨fun h hh => (List.not_mem_nil hh).elim,
      fun h hh => (List.not_mem_nil hh).elim⟩
  have hserializer : serializerDeclaration.Permitted noneForeign
      (moneyDeclaration.run Table.coreLibrary).2 :=
    ⟨fun h hh => (List.not_mem_nil hh).elim,
      fun h hh => (List.not_mem_nil hh).elim⟩
  refine reachable_learn_reference ?_ _ (Table.avoids_noneForeign _)
  exact inquiry_ofTable _ ▸ Inquiry.reachable_ofTable
    ⟨.inr (.step moneyDeclaration hmoney
      (.step serializerDeclaration hserializer (.refl _))),
      Table.avoids_noneForeign _⟩

/-- A registration raises the tier of the type and leaves that of the
serializer. -/
theorem tier_registered_money :
    (Program.registerSerializer ⟨67⟩ [⟨66⟩] moneyStudy.program).1 = true ∧
      moneyStudy.tier ⟨66⟩ = .never ∧
      (moneyStudy.registered ⟨67⟩ [⟨66⟩]).tier ⟨66⟩ = .always ∧
      (moneyStudy.registered ⟨67⟩ [⟨66⟩]).tier ⟨67⟩ = moneyStudy.tier ⟨67⟩ := by
  have hfacts : moneyStudy.program.table.named? Program.registrationName =
        some ⟨81⟩ ∧
      moneyStudy.inquiry.capabilities.isActive .coreV3 = true ∧
      moneyStudy.program.table.knows ⟨66⟩ = true ∧
      moneyStudy.program.table.knows ⟨67⟩ = true ∧
      moneyStudy.program.innermost ⟨66⟩ = .core ⟨66⟩ ∧
      moneyStudy.program.innermost ⟨67⟩ = .core ⟨67⟩ ∧
      (moneyStudy.program.table.kind ⟨66⟩).isData = true ∧
      moneyStudy.program.table.tag? ⟨66⟩ = none ∧
      (Table.assignable ⟨66⟩ ⟨66⟩ moneyStudy.program.table).1 = true ∧
      (Table.assignable ⟨67⟩ ⟨66⟩ moneyStudy.program.table).1 = false ∧
      moneyStudy.tier ⟨66⟩ = .never := by
    decide +kernel
  obtain ⟨hnamed, hactive, hmoney, hserializer, hcore, hcore', hdata, htag,
    hassignable, hnot, hnever⟩ := hfacts
  have hwithholds : ∀ h,
      moneyStudy.WithholdsRegistered noneForeign ⟨67⟩ [⟨66⟩] h := fun h =>
    ⟨Table.avoids_noneForeign _, Table.avoids_noneForeign _,
      fun _ _ _ _ => Table.avoids_noneForeign _⟩
  have hhanded : ∀ h ∈ (⟨67⟩ : Handle) :: [⟨66⟩],
      moneyStudy.program.table.Admits noneForeign h := by
    intro h hh
    rcases List.mem_pair.mp hh with rfl | rfl
    · exact .inl hserializer
    · exact .inl hmoney
  obtain ⟨htaken, htiers⟩ := (tier_registered reachable_moneyStudy hhanded).2
    ⟨81⟩ hnamed hactive
  refine ⟨htaken, hnever, ?_, ?_⟩
  · refine (htiers _ (.inl hmoney) (hwithholds _)).1 ?_
    exact ⟨_, hcore, hdata, htag, _, List.mem_singleton_self _, hassignable⟩
  · refine (htiers _ (.inl hserializer) (hwithholds _)).2 ?_
    rintro ⟨core, hlanding, -, -, l, hl, hassigns⟩
    obtain rfl := Landing.core.inj (hcore'.symm.trans hlanding)
    rw [List.mem_singleton.mp hl, hnot] at hassigns
    cases hassigns

end Study

end Verdicts
