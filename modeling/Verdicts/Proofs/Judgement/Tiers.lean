import Verdicts.Proofs.Judgement.Layers
import Verdicts.Proofs.Judgement.Lookups
import Verdicts.Proofs.Subtyping.Extension

/-!
# What decides a tier

A classifier looks types up and asks about assignability, and stores types on
the way.  Its verdicts can be read off the program as it was before: a type that
is marked, registered, durable or a dictionary of traits survives for certain,
and any other type has the tier of its own shape.
-/

namespace Verdicts

variable {foreign : Handle → Prop}

namespace Inquiry

/-! ## Judging -/

/-- The inquiry has been consulted, and its table is sound. -/
structure Heard (foreign : Handle → Prop) (q q' : Inquiry) : Prop where
  consulted : q.Consulted q'
  sound : q'.program.table.Sound foreign

/-- However much the inquiry has been consulted before, the transition consults
it and gives an answer with a property, as long as it gives out no foreign
handle. -/
def Judges (foreign : Handle → Prop) (q : Inquiry) {α : Type}
    (m : StateM Inquiry α) (P : α → Prop) : Prop :=
  ∀ q', q.Heard foreign q' → (m q').2.program.table.Avoids foreign →
    q.Heard foreign (m q').2 ∧ P (m q').1

namespace Judges

variable {α β : Type} {q : Inquiry} {P : α → Prop} {Q : β → Prop}

theorem of_pure {a : α} (h : P a) : Judges foreign q (pure a) P :=
  fun _ hq' _ => ⟨hq', h⟩

/-- A look-up leaves the table alone, and its answer does not depend on the
consultations before. -/
theorem of_lookup {m : StateM Inquiry α} {f : Inquiry → α}
    (hm : ∀ q, (m q).1 = f q ∧ q.Consulted (m q).2)
    (htable : ∀ q, (m q).2.program.table = q.program.table)
    (hf : ∀ {q'}, q.Consulted q' → f q' = f q) :
    Judges foreign q m (· = f q) := by
  intro q' hq' _
  obtain ⟨hanswer, hconsulted⟩ := hm q'
  refine ⟨⟨hq'.consulted.trans hconsulted, ?_⟩, ?_⟩
  · rw [htable]
    exact hq'.sound
  · rw [hanswer, hf hq'.consulted]

theorem get_bind {f : Inquiry → StateM Inquiry α}
    (h : ∀ q', q.Heard foreign q' → Judges foreign q (f q') P) :
    Judges foreign q (get >>= f) P :=
  fun q' hq' => h q' hq' q' hq'

theorem bind {m : StateM Inquiry α} {f : α → StateM Inquiry β}
    (hf : ∀ a, Interns (f a)) (hm : Judges foreign q m P)
    (h : ∀ a, P a → Judges foreign q (f a) Q) :
    Judges foreign q (m >>= f) Q := by
  intro q' hq' ha
  obtain ⟨hq'', hP⟩ := hm q' hq' ((hf _ _).avoids ha)
  exact h _ hP _ hq'' ha

theorem mono {m : StateM Inquiry α} {P' : α → Prop}
    (hm : Judges foreign q m P) (h : ∀ a, P a → P' a) :
    Judges foreign q m P' :=
  fun q' hq' ha => (hm q' hq' ha).imp_right (h _)

theorem ite {c : Prop} [Decidable c] {m n : StateM Inquiry α}
    (hm : c → Judges foreign q m P) (hn : ¬c → Judges foreign q n P) :
    Judges foreign q (if c then m else n) P := by
  split
  · next h => exact hm h
  · next h => exact hn h

theorem anyM {p : α → StateM Inquiry Bool} {R : α → Prop}
    (hp : ∀ a, Interns (p a)) {l : List α}
    (h : ∀ a ∈ l, Judges foreign q (p a) fun r => r = true ↔ R a) :
    Judges foreign q (l.anyM p) fun r => r = true ↔ ∃ a ∈ l, R a := by
  induction l with
  | nil => exact of_pure (by simp)
  | cons a l ih =>
      rw [List.forall_mem_cons] at h
      rw [List.anyM_cons]
      refine bind (fun r => .ite (.of_pure _) (.anyM hp l)) h.1 fun r hr => ?_
      cases r with
      | true =>
          exact of_pure (iff_of_true rfl ⟨a, List.mem_cons_self .., hr.mp rfl⟩)
      | false =>
          have ha : ¬R a := fun ha => Bool.false_ne_true (hr.mpr ha)
          refine (ih h.2).mono fun r hr => ?_
          rw [hr, List.exists_mem_cons_iff, or_iff_right ha]

theorem filterM {p : α → StateM Inquiry Bool} {R : α → Prop}
    (hp : ∀ a, Interns (p a)) {l : List α}
    (h : ∀ a ∈ l, Judges foreign q (p a) fun r => r = true ↔ R a) :
    Judges foreign q (l.filterM p) fun as => ∀ a, a ∈ as ↔ a ∈ l ∧ R a := by
  have haux : ∀ acc : List α, Judges foreign q (l.filterAuxM p acc)
      fun as => ∀ a, a ∈ as ↔ a ∈ acc ∨ a ∈ l ∧ R a := by
    induction l with
    | nil => exact fun acc => of_pure (by simp)
    | cons b l ih =>
        intro acc
        rw [List.forall_mem_cons] at h
        refine bind (fun r => .filterAuxM hp l _) h.1 fun r hr => ?_
        refine (ih h.2 _).mono fun as has a => ?_
        rw [has, List.mem_cons]
        cases r with
        | true =>
            have hb := hr.mp rfl
            simp only [cond_true, List.mem_cons]
            constructor
            · rintro ((rfl | ha) | ha)
              · exact .inr ⟨.inl rfl, hb⟩
              · exact .inl ha
              · exact .inr ⟨.inr ha.1, ha.2⟩
            · rintro (ha | ⟨rfl | hl, ha⟩)
              · exact .inl (.inr ha)
              · exact .inl (.inl rfl)
              · exact .inr ⟨hl, ha⟩
        | false =>
            have hb : ¬R b := fun hb => Bool.false_ne_true (hr.mpr hb)
            simp only [cond_false]
            constructor
            · exact fun ha => ha.imp_right fun ha => ⟨.inr ha.1, ha.2⟩
            · rintro (ha | ⟨rfl | hl, ha⟩)
              · exact .inl ha
              · exact absurd ha hb
              · exact .inr ⟨hl, ha⟩
  refine bind (fun as => .of_pure _) (haux []) fun as has => of_pure fun a => ?_
  rw [List.mem_reverse, has]
  simp

theorem filterMapM {f : α → StateM Inquiry (Option β)} {g : α → Option β}
    (hf : ∀ a, Interns (f a)) {l : List α}
    (h : ∀ a ∈ l, Judges foreign q (f a) (· = g a)) :
    Judges foreign q (l.filterMapM f) (· = l.filterMap g) := by
  induction l with
  | nil => exact of_pure rfl
  | cons a l ih =>
      rw [List.forall_mem_cons] at h
      rw [List.filterMapM_cons]
      refine bind (fun r => ?_) h.1 ?_
      · rcases r with _ | b
        · exact .filterMapM hf l
        · exact (Interns.filterMapM hf l).bind fun _ => .of_pure _
      · rintro _ rfl
        cases hg : g a with
        | none => exact (ih h.2).mono fun bs hbs => by rw [hbs, List.filterMap_cons_none hg]
        | some b =>
            refine bind (fun bs => .of_pure _) (ih h.2) fun bs hbs => of_pure ?_
            rw [hbs, List.filterMap_cons_some hg]

theorem findSomeM? {f : α → StateM Inquiry (Option β)} {g : α → Option β}
    (hf : ∀ a, Interns (f a)) {l : List α}
    (h : ∀ a ∈ l, Judges foreign q (f a) (· = g a)) :
    Judges foreign q (l.findSomeM? f) (· = l.findSome? g) := by
  induction l with
  | nil => exact of_pure rfl
  | cons a l ih =>
      rw [List.forall_mem_cons] at h
      rw [List.findSomeM?_cons]
      refine bind (fun r => ?_) h.1 ?_
      · rcases r with _ | b
        · exact .findSomeM? hf l
        · exact .of_pure _
      · rintro _ rfl
        rw [List.findSome?_cons]
        cases g a with
        | none => exact ih h.2
        | some b => exact of_pure rfl

end Judges

/-! ## Look-ups -/

/-- The handle that an inquiry gives a framework type: of the active families
that define the type and have it, the newest one decides. -/
def frameworkHandle? (q : Inquiry) (w : FrameworkType) : Option Handle :=
  w.concern.families.findSome? fun f => q.familyHandle? f w

variable {q : Inquiry} {a b : Handle}

theorem judges_systemType (s : SystemType) :
    Judges foreign q (systemType s) (· = q.systemHandle? s) :=
  .of_lookup (systemType_apply s) (Slot.system s).table_ask
    fun h => h.system s

theorem judges_familyType (f : Family) (w : FrameworkType) :
    Judges foreign q (familyType f w) (· = q.familyHandle? f w) :=
  .of_lookup (familyType_apply f w) (Slot.framework f w).table_ask
    fun h => h.family f w

theorem judges_frameworkType (w : FrameworkType) :
    Judges foreign q (frameworkType w) (· = q.frameworkHandle? w) :=
  .findSomeM? (fun f => interns_familyType f w) fun f _ =>
    judges_familyType f w

/-! ## What a classifier gathers -/

/-- All handles of the inquiry are of its table, which is sound, and the program
describes its arrays as the table does. -/
structure Proper (foreign : Handle → Prop) (q : Inquiry) : Prop where
  sound : q.program.table.Sound foreign
  unwired : q.program.wiring = []
  attributes : ∀ a ∈ q.program.attributes,
    ∀ h ∈ a.attributeClass :: a.arguments, q.program.table.Admits foreign h
  framework : ∀ {w h}, q.frameworkHandle? w = some h →
    q.program.table.Admits foreign h

/-- The marker interfaces of serializable types. -/
def markers (q : Inquiry) : List Handle :=
  [FrameworkType.xunitSerializable, .customXunitSerializable].filterMap
    q.frameworkHandle?

/-- An attribute of the assembly registers a serializer for the type. -/
def Registers (q : Inquiry) (h : Handle) : Prop :=
  ∃ registration,
    q.frameworkHandle? .registerXunitSerializerAttribute = some registration ∧
      ∃ a ∈ q.program.attributes,
        q.program.table.Assigns a.attributeClass registration ∧
          h ∈ a.arguments.drop 1

/-- The classifier holds what the program says about serialization. -/
structure Gathers (q : Inquiry) (c : Classifier) : Prop where
  markers : c.markers = q.markers
  registered : ∀ h, h ∈ c.registered ↔ q.Registers h

namespace Proper

variable (hq : q.Proper foreign)
include hq

theorem judges_assignable (ha : q.program.table.Admits foreign a)
    (hb : q.program.table.Admits foreign b) :
    Judges foreign q
      (liftM (Program.onTable (Table.assignable a b)) : StateM Inquiry Bool)
      fun r => r = true ↔ q.program.table.Assigns a b := by
  intro q' hq' havoids
  have g := hq'.consulted.table
  have ha' := g.admits ha
  have hb' := g.admits hb
  have hinterns := Table.interns_assignable a b
  have hconsults : Consults
      (liftM (Program.onTable (Table.assignable a b)) : StateM Inquiry Bool) :=
    .onTable hinterns
  have hsound : (Table.assignable a b q'.program.table).2.WellFormed foreign :=
    hq'.sound.wellFormed.of_agree hinterns havoids
      (Table.agree_assignable (Table.itself_self ha') (Table.itself_self hb'))
  refine ⟨⟨hq'.consulted.trans (hconsults q'), hsound, havoids⟩, ?_⟩
  exact (hq'.sound.assignable_iff ha' hb' havoids).trans
    (g.assigns_iff hq.sound hq'.sound ha hb)

theorem judges_isAssignableToAny (ha : q.program.table.Admits foreign a)
    {targets : List Handle}
    (htargets : ∀ b ∈ targets, q.program.table.Admits foreign b) :
    Judges foreign q (isAssignableToAny a targets)
      fun r => r = true ↔ ∃ b ∈ targets, q.program.table.Assigns a b :=
  .anyM (fun b => (Table.interns_assignable a b).onTable.onProgram)
    fun b hb => hq.judges_assignable ha (htargets b hb)

theorem judges_registeredTypes :
    Judges foreign q registeredTypes fun hs => ∀ h, h ∈ hs ↔ q.Registers h := by
  refine .bind interns_searchRegistrations (judges_frameworkType _) ?_
  rintro _ rfl
  cases hr : q.frameworkHandle? .registerXunitSerializerAttribute with
  | none =>
      refine .of_pure fun h => ⟨by simp, ?_⟩
      rintro ⟨r, hr', -⟩
      rw [hr] at hr'
      cases hr'
  | some registration =>
      have hfilter : Judges foreign q (q.program.attributes.filterM fun a =>
          liftM (Program.onTable
            (Table.assignable a.attributeClass registration)))
          fun as => ∀ a, a ∈ as ↔ a ∈ q.program.attributes ∧
            q.program.table.Assigns a.attributeClass registration := by
        refine .filterM (fun a => ?_) fun a ha => ?_
        · exact (Table.interns_assignable a.attributeClass
            registration).onTable.onProgram
        · exact hq.judges_assignable
            (hq.attributes a ha _ (List.mem_cons_self ..)) (hq.framework hr)
      apply Judges.get_bind
      intro q' hq'
      dsimp only
      rw [hq'.consulted.attributes]
      refine .bind (fun as => .of_pure _) hfilter fun as has => .of_pure fun h => ?_
      rw [List.mem_eraseDups, List.mem_flatMap, Registers, hr]
      simp only [has, Option.some.injEq, exists_eq_left', and_assoc]

theorem judges_classifier : Judges foreign q classifier q.Gathers := by
  refine .bind (fun _ => interns_registeredTypes.bind fun _ => .of_pure _)
    (Judges.filterMapM interns_frameworkType fun w _ =>
      judges_frameworkType w) ?_
  rintro _ rfl
  refine .bind (fun _ => .of_pure _) hq.judges_registeredTypes fun hs hhs => ?_
  exact .of_pure ⟨rfl, hhs⟩

end Proper

/-! ## Tiers -/

/-- The type is a dictionary from strings to lists of strings. -/
def IsTraits (q : Inquiry) (h : Handle) : Prop :=
  ∃ dictionary list, q.systemHandle? .dictionary = some dictionary ∧
    q.systemHandle? .list = some list ∧
      q.program.table.mapsToLists dictionary list .string h = true

/-- The type is one of the library types that always survive. -/
def IsDurable (q : Inquiry) (h : Handle) : Prop :=
  ∃ s ∈ [SystemType.bigInteger, .dateTimeOffset, .timeSpan, .dateOnly, .timeOnly],
    q.systemHandle? s = some h

/-- What the program says makes values of the type survive for certain. -/
inductive Survives (q : Inquiry) (h : Handle) : Prop where
  | marked {marker : Handle} (hmarker : marker ∈ q.markers)
      (hassigns : q.program.table.Assigns h marker)
  | traits (htraits : q.IsTraits h)
  | durable (htag : q.program.table.tag? h = none) (hdurable : q.IsDurable h)
  | registered (htag : q.program.table.tag? h = none) {k : Handle}
      (hk : q.Registers k) (hassigns : q.program.table.Assigns h k)

/-- The tier of a type by its own shape. -/
def plainTier (t : Table) (h : Handle) : Tier :=
  match t.tag? h with
  | some b => b.tier
  | none => openTier t h

/-- A type that is neither an array nor nullable has the tier. -/
inductive Grades (q : Inquiry) (h : Handle) : Tier → Prop where
  | sure (hsurvives : q.Survives h) : Grades q h .always
  | plain (hnot : ¬q.Survives h) : Grades q h (plainTier q.program.table h)

/-- A type has the tier. -/
inductive Ranks (q : Inquiry) (h : Handle) : Tier → Prop where
  | core {core : Handle} {r : Tier} (hcore : q.program.innermost h = .core core)
      (hdata : (q.program.table.kind core).isData = true)
      (hgrades : q.Grades core r) : Ranks q h r
  | dataless {core : Handle} (hcore : q.program.innermost h = .core core)
      (hdata : (q.program.table.kind core).isData = false) : Ranks q h .never
  | hollow (hhollow : q.program.innermost h = .hollow) : Ranks q h .never
  | cyclic (hcyclic : q.program.innermost h = .cyclic) : Ranks q h .possibly

end Inquiry

/-- The arguments of a type are types of the table. -/
theorem Table.WellFormed.admits_argument {t : Table} (w : t.WellFormed foreign)
    {a b : Handle} (hb : b ∈ t.arguments a) : t.Admits foreign b := by
  rw [arguments] at hb
  split at hb
  · next d hs =>
      obtain ⟨name, c, hb⟩ := (w.owned hs).parameter b hb
      exact .inl (knows_of_shape? hb)
  · next d as hs => exact w.admits_part hs (List.mem_cons_of_mem d hb)
  · cases hb

namespace Table.EnrichedTo

variable {t u : Table} (e : t.EnrichedTo u) (w : t.WellFormed foreign)
  (wu : u.WellFormed foreign) (hu : u.Avoids foreign) {a : Handle}
include e w wu hu

omit wu in
theorem mapsToLists_eq (ha : t.Admits foreign a) (dictionary list : Handle)
    (b : BuiltIn) :
    u.mapsToLists dictionary list b a = t.mapsToLists dictionary list b a := by
  have hall : ∀ {c b}, b ∈ t.arguments c → t.Admits foreign b :=
    w.admits_argument
  rw [mapsToLists, mapsToLists, e.genericDefinition_eq hu ha,
    e.arguments_eq hu ha]
  have harguments := fun {b} => hall (c := a) (b := b)
  generalize t.arguments a = as at harguments ⊢
  rcases as with _ | ⟨key, _ | ⟨value, _ | ⟨_, _⟩⟩⟩
  · rfl
  · rfl
  · have hkey := harguments (b := key) (by simp)
    have hvalue := harguments (b := value) (by simp)
    simp only [e.tag?_eq hu hkey, e.genericDefinition_eq hu hvalue,
      e.arguments_eq hu hvalue]
    have hitems := fun {b} => hall (c := value) (b := b)
    generalize t.arguments value = as at hitems ⊢
    rcases as with _ | ⟨item, _ | ⟨_, _⟩⟩
    · rfl
    · simp only [e.tag?_eq hu (hitems (b := item) (by simp))]
    · rfl
  · rfl

theorem openTier_eq (ha : t.Admits foreign a) :
    Inquiry.openTier u a = Inquiry.openTier t a := by
  rw [Inquiry.openTier, Inquiry.openTier, e.kind_eq w wu hu ha,
    e.isClosed_eq w wu hu ha]

theorem plainTier_eq (ha : t.Admits foreign a) :
    Inquiry.plainTier u a = Inquiry.plainTier t a := by
  rw [Inquiry.plainTier, Inquiry.plainTier, e.tag?_eq hu ha,
    e.openTier_eq w wu hu ha]

end Table.EnrichedTo

/-- Enriching the table moves no end of a walk. -/
theorem Program.innermost_eq {p q : Program} {a : Handle}
    (e : p.table.EnrichedTo q.table) (w : p.table.WellFormed foreign)
    (w' : q.table.WellFormed foreign) (ha : q.table.Avoids foreign)
    (unwired : p.wiring = []) (unwired' : q.wiring = [])
    (hadmits : p.table.Admits foreign a) :
    q.innermost a = p.innermost a ∧
      ∀ core, p.innermost a = .core core → p.table.Admits foreign core := by
  have ha' := e.persistsIn.avoids ha
  have mself := (Table.GrowsTo.refl p.table).matches w w ha'
  have hmatches : (p.innermost a).Matches (p.table.itself foreign)
      (q.innermost a) := by
    refine unwindFresh_matches
      (parallel_of_enrichedTo e w w' ha unwired unwired')
      (descends_innermost w ha') (descends_innermost w' ha) ?_ ?_
      (Table.itself_self hadmits) (p.covers_handles a) (q.covers_handles a)
    · rintro c _ ⟨hc, rfl⟩
      refine ⟨(mself.plain (Table.itself_self hc)).1, ?_⟩
      rw [throughNullable, throughNullable,
        e.persistsIn.nullableUnderlying?_eq w ha hc]
    · rintro c _ ⟨hc, rfl⟩
      rw [e.kind_eq w w' ha hc]
  refine ⟨(hmatches.eq_of_eq fun h => h.2).symm, fun core hcore => ?_⟩
  rw [hcore] at hmatches
  generalize q.innermost a = landing at hmatches
  cases hmatches with
  | core h => exact h.1

namespace Inquiry

variable {q : Inquiry} {a : Handle}

theorem judges_isDurable :
    Judges foreign q (isDurable a) fun r => r = true ↔ q.IsDurable a := by
  refine .anyM (fun s => (interns_systemType s).bind fun _ => .of_pure _) ?_
  intro s _
  refine .bind (fun _ => .of_pure _) (judges_systemType s) ?_
  rintro _ rfl
  exact .of_pure decide_eq_true_iff

namespace Proper

variable (hq : q.Proper foreign)
include hq

theorem judges_isTraitDictionary (ha : q.program.table.Admits foreign a) :
    Judges foreign q (isTraitDictionary a) fun r => r = true ↔ q.IsTraits a := by
  refine .bind (fun d => (interns_systemType _).bind fun l =>
    interns_mapsToStringLists a d l) (judges_systemType _) ?_
  rintro _ rfl
  refine .bind (fun l => interns_mapsToStringLists a _ l) (judges_systemType _) ?_
  rintro _ rfl
  apply Judges.get_bind
  intro q' hq'
  have heq := hq'.consulted.table.enrichedTo.mapsToLists_eq hq.sound.wellFormed
    hq'.sound.avoids ha
  dsimp only
  split
  · next dictionary list hd hl =>
      refine .of_pure ?_
      rw [heq, IsTraits, hd, hl]
      simp
  · next hnone =>
      refine .of_pure ⟨by simp, ?_⟩
      rintro ⟨dictionary, list, hd, hl, -⟩
      exact absurd hl (hnone dictionary list hd)

theorem judges_isMarked {c : Classifier} (hc : q.Gathers c)
    (ha : q.program.table.Admits foreign a) :
    Judges foreign q (isAssignableToAny a c.markers)
      fun r => r = true ↔ ∃ m ∈ q.markers, q.program.table.Assigns a m := by
  rw [hc.markers]
  refine hq.judges_isAssignableToAny ha fun m hm => ?_
  obtain ⟨w, -, hw⟩ := List.mem_filterMap.mp hm
  exact hq.framework hw

theorem judges_isRegistered {c : Classifier} (hc : q.Gathers c)
    (ha : q.program.table.Admits foreign a) :
    Judges foreign q (isAssignableToAny a c.registered)
      fun r => r = true ↔ ∃ k, q.Registers k ∧ q.program.table.Assigns a k := by
  simp only [← hc.registered]
  refine hq.judges_isAssignableToAny ha fun k hk => ?_
  obtain ⟨-, -, source, hsource, -, hmem⟩ := (hc.registered k).mp hk
  exact hq.attributes source hsource k
    (List.mem_cons_of_mem _ (List.mem_of_mem_drop hmem))

/-- The grade of a type without a tag that is neither marked nor a dictionary of
traits. -/
theorem judges_classifyUntagged {c : Classifier} {t : Table} (hc : q.Gathers c)
    (ha : q.program.table.Admits foreign a)
    (htag : q.program.table.tag? a = none)
    (hopen : openTier t a = openTier q.program.table a)
    (hmarked : ¬∃ m ∈ q.markers, q.program.table.Assigns a m)
    (htraits : ¬q.IsTraits a) :
    Judges foreign q (do
      if ← isDurable a then
        return .always
      else if ← isAssignableToAny a c.registered then
        return .always
      else
        return openTier t a : StateM Inquiry Tier) (q.Grades a) := by
  refine .bind (interns_classifyDurable t c a) judges_isDurable ?_
  intro durable hdurable
  refine .ite (fun h => .of_pure (.sure (.durable htag (hdurable.mp h)))) ?_
  intro hnotDurable
  refine .bind (interns_classifyRegistered t a) (hq.judges_isRegistered hc ha) ?_
  intro registered hregistered
  refine .ite (fun h => .of_pure ?_) fun hnotRegistered => .of_pure ?_
  · obtain ⟨k, hk, hassigns⟩ := hregistered.mp h
    exact .sure (.registered htag hk hassigns)
  · have hnot : ¬q.Survives a := by
      rintro (⟨hm, hassigns⟩ | h | ⟨-, h⟩ | ⟨-, hk, hassigns⟩)
      · exact hmarked ⟨_, hm, hassigns⟩
      · exact htraits h
      · exact hnotDurable (hdurable.mpr h)
      · exact hnotRegistered (hregistered.mpr ⟨_, hk, hassigns⟩)
    have hplain : plainTier q.program.table a = openTier t a := by
      rw [plainTier, htag, hopen]
    exact hplain ▸ .plain hnot

theorem judges_classifyCore {c : Classifier} (hc : q.Gathers c)
    (ha : q.program.table.Admits foreign a) :
    Judges foreign q (classifyCore c a) (q.Grades a) := by
  refine .bind (fun marked => .ite (.of_pure _)
      ((interns_isTraitDictionary a).bind (interns_classifyTraits c a)))
    (hq.judges_isMarked hc ha) ?_
  intro marked hmarked
  refine .ite (fun h => .of_pure ?_) fun hnotMarked => ?_
  · obtain ⟨m, hm, hassigns⟩ := hmarked.mp h
    exact .sure (.marked hm hassigns)
  refine .bind (interns_classifyTraits c a) (hq.judges_isTraitDictionary ha) ?_
  intro traits htraits
  refine .ite (fun h => .of_pure (.sure (.traits (htraits.mp h)))) ?_
  intro hnotTraits
  rw [hmarked] at hnotMarked
  rw [htraits] at hnotTraits
  apply Judges.get_bind
  intro q' hq'
  have e := hq'.consulted.table.enrichedTo
  dsimp only
  rw [e.tag?_eq hq'.sound.avoids ha]
  split
  · next b htag =>
      have hnot : ¬q.Survives a := by
        rintro (⟨hm, hassigns⟩ | h | ⟨hnone, -⟩ | ⟨hnone, -⟩)
        · exact hnotMarked ⟨_, hm, hassigns⟩
        · exact hnotTraits h
        · cases hnone.symm.trans htag
        · cases hnone.symm.trans htag
      have hplain : plainTier q.program.table a = b.tier := by
        rw [plainTier, htag]
      exact .of_pure (hplain ▸ .plain hnot)
  · next htag =>
      exact hq.judges_classifyUntagged hc ha htag
        (e.openTier_eq hq.sound.wellFormed hq'.sound.wellFormed
          hq'.sound.avoids ha) hnotMarked hnotTraits

theorem judges_classify {c : Classifier} (hc : q.Gathers c)
    (ha : q.program.table.Admits foreign a) :
    Judges foreign q (classify c a) (q.Ranks a) := by
  apply Judges.get_bind
  intro q' hq'
  have e := hq'.consulted.table.enrichedTo
  obtain ⟨hsame, hadmits⟩ := Program.innermost_eq e hq.sound.wellFormed
    hq'.sound.wellFormed hq'.sound.avoids hq.unwired
    (hq'.consulted.wiring.trans hq.unwired) ha
  dsimp only
  rw [hsame]
  split
  · next core hcore =>
      have hcoreAdmits := hadmits core hcore
      rw [e.kind_eq hq.sound.wellFormed hq'.sound.wellFormed hq'.sound.avoids
        hcoreAdmits]
      refine .ite (fun hdata => ?_) fun hdata => ?_
      · exact (hq.judges_classifyCore hc hcoreAdmits).mono fun r hr =>
          .core hcore hdata hr
      · exact .of_pure (.dataless hcore (Bool.eq_false_iff.mpr hdata))
  · next hhollow => exact .of_pure (.hollow hhollow)
  · next hcyclic => exact .of_pure (.cyclic hcyclic)

/-- A classifier gathered for the occasion gives a type its tier. -/
theorem judges_tier (ha : q.program.table.Admits foreign a) :
    Judges foreign q (do classify (← classifier) a : StateM Inquiry Tier)
      (q.Ranks a) :=
  .bind (fun c => interns_classify c a) hq.judges_classifier
    fun _ hc => hq.judges_classify hc ha

theorem ranks_classify (ha : q.program.table.Admits foreign a)
    (havoids : ((do classify (← classifier) a : StateM Inquiry Tier)
      q).2.program.table.Avoids foreign) :
    q.Ranks a ((do classify (← classifier) a : StateM Inquiry Tier) q).1 :=
  (hq.judges_tier ha q ⟨.refl q, hq.sound⟩ havoids).2

end Proper

end Inquiry

end Verdicts
