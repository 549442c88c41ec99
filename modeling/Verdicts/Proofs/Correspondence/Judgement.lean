import Verdicts.Proofs.Correspondence.Unwinding

/-!
# Verdicts about corresponding programs

Whether theory data binds to a parameter, and how sure it is that values survive
serialization, is the same for linked types of corresponding programs.
-/

namespace Verdicts

/-- Classifiers that hold linked types. -/
structure Classifier.Matches (ρ : World) (c d : Classifier) : Prop where
  markers : List.Forall₂ ρ c.markers d.markers
  registered : List.Forall₂ ρ c.registered d.registered

variable {foreign : Handle → Prop} {ρ ρ' : World} {a b a' b' : Handle}

theorem Classifier.Matches.mono (h : ρ ≤ ρ') {c d : Classifier}
    (hm : c.Matches ρ d) : c.Matches ρ' d :=
  ⟨World.forall₂_mono h hm.markers, World.forall₂_mono h hm.registered⟩

/-- Dropping repetitions keeps lists linked, since links tell handles apart. -/
theorem forall₂_eraseDups (hl : Relator.LeftUnique ρ)
    (hr : Relator.RightUnique ρ) {as bs : List Handle}
    (h : List.Forall₂ ρ as bs) :
    List.Forall₂ ρ as.eraseDups bs.eraseDups := by
  induction hn : as.length using Nat.strongRecOn generalizing as bs with
  | ind n ih =>
      cases h with
      | nil => exact .nil
      | @cons x y as bs hxy has =>
          rw [List.eraseDups_cons, List.eraseDups_cons]
          refine .cons hxy (ih _ ?_ ?_ rfl)
          · have := List.length_filter_le (fun b => !b == x) as
            rw [← hn, List.length_cons]
            omega
          · refine List.rel_filter ?_ has
            intro c d hcd
            have heq : c = x ↔ d = y :=
              ⟨fun h => hr (h ▸ hcd) hxy, fun h => hl (h ▸ hcd) hxy⟩
            simp only [Bool.not_eq_true', beq_eq_false_iff_ne, ne_eq, heq]

namespace Program.Matches

variable {p q : Program} (m : p.Matches foreign ρ q)
include m

theorem unboundParameter? (h : ρ a b) :
    Option.Rel ρ (p.unboundParameter? a) (q.unboundParameter? b) := by
  rw [Program.unboundParameter?, Program.unboundParameter?,
    m.table.kind_eq h]
  split
  · exact .some h
  · have helement := m.element? h
    revert helement
    generalize p.element? a = x
    generalize q.element? b = y
    rintro (hxy | _)
    · simp only [Option.filter_some, m.table.kind_eq hxy]
      split
      · exact .some hxy
      · exact .none
    · exact .none
  · exact .none

end Program.Matches

namespace Inquiry

/-! ## Binding data -/

theorem agree_takesStringsOnly (h : ρ a b) :
    Agree foreign ρ (takesStringsOnly a) (takesStringsOnly b) Same := by
  apply Agree.get_bind
  intro p q m
  have mp := Inquiry.Matches.program m
  have mc := Inquiry.Matches.capabilities m
  refine .ite ?_ (.of_pure rfl) (.ite ?_ ?_ (.of_pure rfl))
  · rw [mp.table.tag?_eq h]
  · rw [mc.supports_eq]
  · exact agree_anySystemType h _

theorem agree_convertible (h : ρ a b) (h' : ρ a' b') :
    Agree foreign ρ (convertible a a') (convertible b b') Same := by
  apply Agree.get_bind
  intro p q m
  have mp := Inquiry.Matches.program m
  dsimp only
  obtain ⟨x, y, hx, hy, hxy⟩ | ⟨hx, hy⟩ :=
    World.rel_cases (mp.unboundParameter? h')
  · simp only [hx, hy]
    apply Agree.onProgram
    apply Agree.onTable
    apply Table.agree_satisfies h
    obtain ⟨_, _, hc, hc', hcc⟩ | ⟨hc, hc'⟩ :=
      World.rel_cases (mp.table.constraints? hxy)
    · rwa [hc, hc', Option.getD_some, Option.getD_some]
    · rw [hc, hc']
      exact ⟨rfl, rfl, rfl, .nil⟩
  · simp only [hx, hy]
    have hlast : ∀ (p : Inquiry) (a a' : Handle) (c : Option Conversion),
        Shields foreign (do
          if c.any (·.rule = .numeric) then
            return !((p.program.table.tag? a).any BuiltIn.isFloating
              && p.program.table.tag? a' = some .char)
          else if ← takesStringsOnly a' then
            return p.program.table.tag? a = some .string
          else
            return c.any Conversion.isCoercion : StateM Inquiry Bool) := by
      intro p a a' c
      exact (Interns.ite (.of_pure _) ((interns_takesStringsOnly a').bind
        fun _ => .ite (.of_pure _) (.of_pure _))).shields
    apply (Table.agree_conversion h h').onTable.onProgram.bind
      (hlast p a a') (hlast q b b')
    rintro ρ' hle c _ rfl
    refine .ite Iff.rfl (.of_pure ?_) ?_
    · rw [Same, mp.table.tag?_eq h, mp.table.tag?_eq h']
    · apply (agree_takesStringsOnly (hle _ _ h')).bind
      · exact fun _ => (Interns.ite (.of_pure _) (.of_pure _)).shields
      · exact fun _ => (Interns.ite (.of_pure _) (.of_pure _)).shields
      · rintro ρ'' _ strings _ rfl
        refine .ite Iff.rfl (.of_pure ?_) (.of_pure rfl)
        rw [Same, mp.table.tag?_eq h]

/-! ## The classifier -/

theorem interns_keepRegistrations (registration : Handle)
    (l acc : List Attribute) :
    Interns (l.filterAuxM (fun a => liftM (Program.onTable
      (Table.assignable a.attributeClass registration))) acc :
        StateM Inquiry (List Attribute)) :=
  Interns.filterAuxM (fun a => (Table.interns_assignable
    a.attributeClass registration).onTable.onProgram) l acc

theorem interns_searchRegistrations (registration : Option Handle) :
    Interns (do
      match registration with
      | some registration =>
        let attributes := (← get).program.attributes
        let registrations ← attributes.filterM fun a =>
          Program.onTable (Table.assignable a.attributeClass registration)
        return (registrations.flatMap fun a => a.arguments.drop 1).eraseDups
      | none => return [] : StateM Inquiry (List Handle)) := by
  rcases registration with _ | registration
  · exact .of_pure _
  · apply Interns.get_bind
    intro p
    exact ((interns_keepRegistrations registration _ _).bind
      fun _ => .of_pure _).bind fun _ => .of_pure _

theorem agree_registeredTypes :
    Agree foreign ρ registeredTypes registeredTypes
      fun ρ' => List.Forall₂ ρ' := by
  apply (agree_frameworkType _).bind
  · exact fun r => (interns_searchRegistrations r).shields
  · exact fun r => (interns_searchRegistrations r).shields
  rintro ρ₁ hle _ _ (@⟨x, y, hxy⟩ | _)
  · apply Agree.get_bind
    intro p q m
    have mp := Inquiry.Matches.program m
    refine Agree.bind (Agree.filterM (R := Attribute.Matches)
      (fun hle _ _ hab => hab.mono hle)
      (fun l acc => (interns_keepRegistrations x l acc).shields)
      (fun l acc => (interns_keepRegistrations y l acc).shields)
      (fun hle' _ _ hab => ((Table.agree_assignable hab.attributeClass
        (hle' _ _ hxy)).onTable.onProgram)) mp.attributes) ?_ ?_ ?_
    · exact fun _ => (Interns.of_pure _).shields
    · exact fun _ => (Interns.of_pure _).shields
    · intro ρ₂ hle' as bs has
      apply Agree.of_alike
      intro p' q' m'
      have mt := matches_table m'
      apply Agree.of_pure
      apply forall₂_eraseDups mt.leftUnique mt.rightUnique
      refine List.rel_flatMap has ?_
      intro c d hcd
      exact List.forall₂_drop 1 hcd.arguments
  · exact .of_pure .nil

theorem agree_classifier :
    Agree foreign ρ classifier classifier Classifier.Matches := by
  have hshields : ∀ l : List FrameworkType,
      Shields foreign (l.filterMapM frameworkType) := fun l =>
    (Interns.filterMapM interns_frameworkType l).shields
  refine Agree.bind (Agree.filterMapM (Q := Linked)
    (fun hle _ _ hab => hle _ _ hab) hshields hshields
    (fun _ w => agree_frameworkType w)) ?_ ?_ ?_
  · exact fun markers =>
      (interns_registeredTypes.bind fun _ => .of_pure _).shields
  · exact fun markers =>
      (interns_registeredTypes.bind fun _ => .of_pure _).shields
  · intro ρ' _ as bs has
    apply agree_registeredTypes.bind
    · exact fun _ => (Interns.of_pure _).shields
    · exact fun _ => (Interns.of_pure _).shields
    · exact fun hle _ _ hrs => .of_pure ⟨World.forall₂_mono hle has, hrs⟩

/-! ## Tiers -/

theorem mapsToLists_eq {t u : Table} (m : t.Matches foreign ρ u)
    {d d' l l' : Handle} (hd : ρ d d') (hl : ρ l l') (c : BuiltIn)
    (h : ρ a b) : t.mapsToLists d l c a = u.mapsToLists d' l' c b := by
  rw [Table.mapsToLists, Table.mapsToLists]
  have hdictionary := m.eq_iff (m.genericDefinition h) hd
  have harguments := m.arguments h
  revert harguments
  generalize t.arguments a = as
  generalize u.arguments b = bs
  rintro (_ | ⟨hkey, _ | ⟨hvalue, _ | ⟨_, _⟩⟩⟩)
  · simp only [hdictionary]
  · simp only [hdictionary]
  · have hlist := m.eq_iff (m.genericDefinition hvalue) hl
    simp only [hdictionary, m.tag?_eq hkey, hlist]
    have hitems := m.arguments hvalue
    revert hitems
    generalize t.arguments _ = as
    generalize u.arguments _ = bs
    rintro (_ | ⟨hitem, _ | ⟨_, _⟩⟩)
    · rfl
    · simp only [m.tag?_eq hitem]
    · rfl
  · simp only [hdictionary]

theorem interns_mapsToStringLists (a : Handle)
    (dictionary list : Option Handle) : Interns (do
      let t := (← get).program.table
      match dictionary, list with
      | some dictionary, some list =>
        return t.mapsToLists dictionary list .string a
      | _, _ => return false : StateM Inquiry Bool) := by
  apply Interns.get_bind
  intro p
  dsimp only
  split
  · exact .of_pure _
  · exact .of_pure _

theorem agree_isTraitDictionary (h : ρ a b) :
    Agree foreign ρ (isTraitDictionary a) (isTraitDictionary b) Same := by
  apply (agree_systemType .dictionary).bind
  · exact fun dictionary =>
      ((interns_systemType _).bind (interns_mapsToStringLists a dictionary)).shields
  · exact fun dictionary =>
      ((interns_systemType _).bind (interns_mapsToStringLists b dictionary)).shields
  · intro ρ₁ hle₁ dictionary dictionary' hdict
    apply (agree_systemType .list).bind
    · exact fun list => (interns_mapsToStringLists a dictionary list).shields
    · exact fun list => (interns_mapsToStringLists b dictionary' list).shields
    · intro ρ₂ hle₂ list list' hlist
      apply Agree.get_bind
      intro p q m
      have mt : p.program.table.Matches foreign ρ₂ q.program.table :=
        (Inquiry.Matches.program m).table
      dsimp only
      cases hdict with
      | none => exact .of_pure rfl
      | some hdict =>
          cases hlist with
          | none => exact .of_pure rfl
          | some hlist =>
              exact .of_pure (mapsToLists_eq mt (hle₂ _ _ hdict) hlist
                .string (hle₂ _ _ (hle₁ _ _ h)))

theorem agree_isAssignableToAny (h : ρ a b) {as bs : List Handle}
    (hs : List.Forall₂ ρ as bs) :
    Agree foreign ρ (isAssignableToAny a as) (isAssignableToAny b bs)
      Same := by
  have hshields : ∀ (a : Handle) (l : List Handle), Shields foreign
      (l.anyM fun target =>
        liftM (Program.onTable (Table.assignable a target)) :
          StateM Inquiry Bool) := fun a l =>
    (Interns.anyM (fun target =>
      (Table.interns_assignable a target).onTable.onProgram) l).shields
  exact Agree.anyM (R := Linked) (fun hle _ _ hab => hle _ _ hab)
    (hshields a) (hshields b)
    (fun hle _ _ hab =>
      (Table.agree_assignable (hle _ _ h) hab).onTable.onProgram) hs

theorem openTier_eq {t u : Table} (m : t.Matches foreign ρ u) (h : ρ a b) :
    openTier t a = openTier u b := by
  rw [openTier, openTier, m.kind_eq h, m.isClosed_eq h]

/-! What is left of the cascade once a type is known not to be registered,
durable or a dictionary of traits. -/

theorem interns_classifyRegistered (t : Table) (a : Handle)
    (registered : Bool) : Interns (do
      if registered then
        return .always
      else
        return openTier t a : StateM Inquiry Tier) :=
  .ite (.of_pure _) (.of_pure _)

theorem interns_classifyDurable (t : Table) (c : Classifier) (a : Handle)
    (durable : Bool) : Interns (do
      if durable then
        return .always
      else if ← isAssignableToAny a c.registered then
        return .always
      else
        return openTier t a : StateM Inquiry Tier) :=
  .ite (.of_pure _) ((interns_isAssignableToAny a c.registered).bind
    (interns_classifyRegistered t a))

theorem interns_classifyTraits (c : Classifier) (a : Handle)
    (traits : Bool) : Interns (do
      if traits then
        return .always
      else
        let t := (← get).program.table
        match t.tag? a with
        | some b => return b.tier
        | none =>
          if ← isDurable a then
            return .always
          else if ← isAssignableToAny a c.registered then
            return .always
          else
            return openTier t a : StateM Inquiry Tier) := by
  apply Interns.ite (.of_pure _)
  apply Interns.get_bind
  intro p
  dsimp only
  split
  · exact .of_pure _
  · exact (interns_isDurable a).bind (interns_classifyDurable _ c a)

theorem agree_classifyCore {c d : Classifier} (hc : c.Matches ρ d)
    (h : ρ a b) :
    Agree foreign ρ (classifyCore c a) (classifyCore d b) Same := by
  apply (agree_isAssignableToAny h hc.markers).bind
  · exact fun marked => (Interns.ite (.of_pure _)
      ((interns_isTraitDictionary a).bind (interns_classifyTraits c a))).shields
  · exact fun marked => (Interns.ite (.of_pure _)
      ((interns_isTraitDictionary b).bind (interns_classifyTraits d b))).shields
  · rintro ρ₁ hle₁ marked _ rfl
    refine .ite Iff.rfl (.of_pure rfl) ?_
    apply (agree_isTraitDictionary (hle₁ _ _ h)).bind
    · exact fun traits => (interns_classifyTraits c a traits).shields
    · exact fun traits => (interns_classifyTraits d b traits).shields
    · rintro ρ₂ hle₂ traits _ rfl
      refine .ite Iff.rfl (.of_pure rfl) ?_
      apply Agree.get_bind
      intro p q m
      have mt : p.program.table.Matches foreign ρ₂ q.program.table :=
        (Inquiry.Matches.program m).table
      have hab : ρ₂ a b := hle₂ _ _ (hle₁ _ _ h)
      dsimp only
      rw [mt.tag?_eq hab]
      split
      · exact .of_pure rfl
      · apply (agree_anySystemType hab _).bind
        · exact fun durable => (interns_classifyDurable _ c a durable).shields
        · exact fun durable => (interns_classifyDurable _ d b durable).shields
        · rintro ρ₃ hle₃ durable _ rfl
          refine .ite Iff.rfl (.of_pure rfl) ?_
          have hc₃ := ((hc.mono hle₁).mono hle₂).mono hle₃
          apply (agree_isAssignableToAny (hle₃ _ _ hab) hc₃.registered).bind
          · exact fun registered => (interns_classifyRegistered _ a registered).shields
          · exact fun registered => (interns_classifyRegistered _ b registered).shields
          · rintro ρ₄ _ registered _ rfl
            refine .ite Iff.rfl (.of_pure rfl) (.of_pure ?_)
            rw [Same, openTier_eq mt hab]

theorem agree_classify {c d : Classifier} (hc : c.Matches ρ d) (h : ρ a b) :
    Agree foreign ρ (classify c a) (classify d b) Same := by
  apply Agree.get_bind
  intro p q m
  have mp := Inquiry.Matches.program m
  dsimp only
  have hlanding := mp.innermost h
  revert hlanding
  generalize p.program.innermost a = x
  generalize q.program.innermost b = y
  rintro (@⟨e, e', he⟩ | _ | _)
  · refine .ite ?_ (agree_classifyCore hc he) (.of_pure rfl)
    rw [mp.table.kind_eq he]
  · exact .of_pure rfl
  · exact .of_pure rfl

end Inquiry

end Verdicts
