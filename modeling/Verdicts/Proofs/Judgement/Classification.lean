import Verdicts.Proofs.Judgement.Convertible
import Verdicts.Proofs.Subtyping.Extension

/-!
# Conversions are well marked

Reports list a conversion by marks, and readers of a report test single marks.
They may rely on one mode and one rule being marked, and on what the rules say
about each other: a conversion by boxing or by reference is implicit exactly
where the source is assignable to the destination, and what is assignable to a
reference type converts back.
-/

namespace Verdicts

theorem ConversionMark.mem_all (m : ConversionMark) : m ∈ all := by
  cases m <;> decide

namespace Conversion

variable {c : Conversion} {m : ConversionMark}

theorem mem_marks_iff : m ∈ c.marks ↔
    m = .exists ∨ m = markOfMode c.mode ∨ m = markOfRule c.rule := by
  simp [marks, bears, ConversionMark.mem_all, or_assoc]

theorem markOfMode_mem_marks_iff {mode : ConversionMode} :
    markOfMode mode ∈ c.marks ↔ mode = c.mode := by
  rw [mem_marks_iff]
  rcases c with ⟨mode', rule⟩
  cases mode <;> cases mode' <;> cases rule <;> decide

theorem markOfRule_mem_marks_iff {rule : ConversionRule} :
    markOfRule rule ∈ c.marks ↔ rule = c.rule := by
  rw [mem_marks_iff]
  rcases c with ⟨mode, rule'⟩
  cases mode <;> cases rule <;> cases rule' <;> decide

/-- The marks of a conversion: it exists, in one mode and by one rule. -/
structure WellMarked (marks : List ConversionMark) : Prop where
  marksExistence : .exists ∈ marks
  marksMode : ∃! mode, markOfMode mode ∈ marks
  marksRule : ∃! rule, markOfRule rule ∈ marks

theorem wellMarked_marks (c : Conversion) : WellMarked c.marks where
  marksExistence := mem_marks_iff.mpr (.inl rfl)
  marksMode := ⟨c.mode, markOfMode_mem_marks_iff.mpr rfl,
    fun _ h => markOfMode_mem_marks_iff.mp h⟩
  marksRule := ⟨c.rule, markOfRule_mem_marks_iff.mpr rfl,
    fun _ h => markOfRule_mem_marks_iff.mp h⟩

end Conversion

namespace Table

variable {foreign : Handle → Prop} {t u : Table} {s d : Handle} {c : Conversion}

/-- The marks of the conversion from one type to another; none if there is no
conversion. -/
def conversionMarks (t : Table) (s d : Handle) : List ConversionMark :=
  ((conversion s d t).1.map Conversion.marks).getD []

/-! ## The rules that apply -/

theorem conversion_of_unknown (h : t.kind s = .unknown ∨ t.kind d = .unknown) :
    conversion s d t = (none, t) := by
  rw [conversion, bind_apply, get_apply]
  dsimp only
  rw [if_pos (by simpa using h)]
  rfl

theorem implicitConversion_eq_some (h : (implicitConversion s d t).1 = some c) :
    c.mode = .implicit ∧
      (c.rule = .numeric ∨ c.rule = .nullable ∨ c.rule = .userDefined ∨
        (c.rule = .boxing ∨ c.rule = .reference) ∧
          (assignable s d t).1 = true) := by
  rw [implicitConversion_apply] at h
  split_ifs at h with hwidens hlifts hassignable hvalue hdefined
  all_goals cases h
  · exact ⟨rfl, .inl rfl⟩
  · exact ⟨rfl, .inr (.inl rfl)⟩
  · exact ⟨rfl, .inr (.inr (.inr ⟨.inl rfl, hassignable⟩))⟩
  · exact ⟨rfl, .inr (.inr (.inr ⟨.inr rfl, hassignable⟩))⟩
  · exact ⟨rfl, .inr (.inr (.inl rfl))⟩

theorem explicitConversion_eq_some (h : (explicitConversion s d t).1 = some c) :
    c.mode = .explicit ∧ c.rule ≠ .identity ∧ c.rule ≠ .boxing := by
  rw [explicitConversion_apply] at h
  dsimp only at h
  split_ifs at h
  all_goals
    cases h
    exact ⟨rfl, by decide, by decide⟩

/-- A conversion is the identity, or the implicit one, or the explicit one. -/
theorem conversion_eq_some (h : (conversion s d t).1 = some c) :
    (s = d ∧ t.kind s ≠ .unknown ∧ c = ⟨.implicit, .identity⟩) ∨
      s ≠ d ∧ ((implicitConversion s d t).1 = some c ∨
        ∃ u, (explicitConversion s d u).1 = some c) := by
  by_cases hs : t.kind s = .unknown
  · rw [conversion_of_unknown (.inl hs)] at h
    cases h
  by_cases hd : t.kind d = .unknown
  · rw [conversion_of_unknown (.inr hd)] at h
    cases h
  by_cases heq : s = d
  · rw [← heq, conversion_self hs] at h
    exact .inl ⟨heq, hs, (Option.some.inj h).symm⟩
  · rw [conversion_apply hs hd heq] at h
    rcases hrun : implicitConversion s d t with ⟨_ | c', u⟩
    · rw [hrun] at h
      exact .inr ⟨heq, .inr ⟨u, h⟩⟩
    · rw [hrun] at h
      exact .inr ⟨heq, .inl h⟩

/-- Some rules yield conversions of one mode only, and those of assignability
implicit ones only along it. -/
theorem mode_of_conversion (h : (conversion s d t).1 = some c) :
    (c.rule = .identity ∨ c.rule = .boxing → c.mode = .implicit) ∧
    (c.rule = .unboxing ∨ c.rule = .enumeration → c.mode = .explicit) ∧
    (c.mode = .implicit → c.rule = .boxing ∨ c.rule = .reference →
      (assignable s d t).1 = true) := by
  obtain ⟨-, -, rfl⟩ | ⟨-, himplicit | ⟨u, hexplicit⟩⟩ := conversion_eq_some h
  · simp
  · obtain ⟨hmode, hrule⟩ := implicitConversion_eq_some himplicit
    refine ⟨fun _ => hmode, fun hrule' => ?_, fun _ hrule' => ?_⟩
    · rcases hrule' with hrule' | hrule' <;> simp [hrule'] at hrule
    · rcases hrule' with hrule' | hrule' <;> simpa [hrule'] using hrule
  · obtain ⟨hmode, hidentity, hboxing⟩ := explicitConversion_eq_some hexplicit
    refine ⟨fun hrule => ?_, fun _ => hmode, fun hmode' => ?_⟩
    · exact hrule.elim (fun h => absurd h hidentity) fun h => absurd h hboxing
    · cases hmode'.symm.trans hmode

/-! ## Converting back -/

theorem kind_ne_unknown_of_isReferenceType (h : t.isReferenceType s = true) :
    t.kind s ≠ .unknown := by
  intro hkind
  unfold isReferenceType at h
  split at h
  · next hs =>
      rw [kind, head_of_not_constructed (by simp [hs]), hs] at hkind
      cases hkind
  · rw [hkind] at h
    cases h
  · cases h

theorem Sound.of_agree {α : Type} {m : StateM Table α} {P : World → α → α → Prop}
    (ht : t.Sound foreign) (hm : Interns m) (ha : (m t).2.Avoids foreign)
    (hagree : Agree foreign (t.itself foreign) m m P) :
    (m t).2.Sound foreign :=
  ⟨ht.wellFormed.of_agree hm ha hagree, ha⟩

/-- Where a reference type is assignable to another one, there is an explicit
conversion back, by reference if by no rule before that. -/
theorem explicitConversion_back (ht : t.Sound foreign)
    (hs : t.Admits foreign s) (hd : t.Admits foreign d)
    (hsr : t.isReferenceType s = true) (hdr : t.isReferenceType d = true)
    (h : t.Assigns s d) (ha : (explicitConversion d s t).2.Avoids foreign) :
    (explicitConversion d s t).1.isSome = true := by
  rw [explicitConversion_apply] at ha ⊢
  by_cases hnumeric : t.areNumeric d s = true
  · rw [if_pos hnumeric]
    rfl
  by_cases henum : t.convertsEnum d s = true
  · rw [if_neg hnumeric, if_pos henum]
    rfl
  rw [if_neg hnumeric, if_neg henum] at ha ⊢
  dsimp only at ha ⊢
  by_cases hunboxed : (t.unboxes d s t).1 = true
  · rw [if_pos hunboxed]
    rfl
  by_cases hunlifts : t.unlifts d s = true
  · rw [if_neg hunboxed, if_pos hunlifts]
    rfl
  rw [if_neg hunboxed, if_neg hunlifts] at ha ⊢
  -- The walk back up from the destination asks a table that has grown.
  have hmatches := (GrowsTo.refl t).matches ht.wellFormed ht.wellFormed ht.avoids
  have g : t.GrowsTo (t.unboxes d s t).2 := interns_unboxes t d s t
  have hgrown : (t.unboxes d s t).2.Sound foreign :=
    ht.of_agree (interns_unboxes t d s)
      ((interns_refers t d s (t.unboxes d s t).2).avoids ha)
      (hmatches.agree_unboxes (itself_self hd) (itself_self hs))
  have hrefers : t.refers d s =
      (· || t.crossesInterface d s) <$> assignable s d := by
    rw [refers, hsr, hdr]
    rfl
  rw [hrefers] at ha ⊢
  have hassignable : (assignable s d (t.unboxes d s t).2).1 = true :=
    (hgrown.assignable_iff (g.admits hs) (g.admits hd) ha).mpr
      ((g.assigns_iff ht hgrown hs hd).mpr h)
  rw [map_apply, hassignable]
  rfl

/-- Where a reference type is assignable to another one, there is a conversion
back. -/
theorem conversion_back (ht : t.Sound foreign)
    (hs : t.Admits foreign s) (hd : t.Admits foreign d) (hne : s ≠ d)
    (hsr : t.isReferenceType s = true) (hdr : t.isReferenceType d = true)
    (h : t.Assigns s d) (ha : (conversion d s t).2.Avoids foreign) :
    (conversion d s t).1.isSome = true := by
  have hks := kind_ne_unknown_of_isReferenceType hsr
  have hkd := kind_ne_unknown_of_isReferenceType hdr
  rw [conversion_apply hkd hks hne.symm] at ha ⊢
  have g : t.GrowsTo (implicitConversion d s t).2 :=
    interns_implicitConversion d s t
  have hgrown : (implicitConversion d s t).2.Avoids foreign →
      (implicitConversion d s t).2.Sound foreign := fun ha =>
    ht.of_agree (interns_implicitConversion d s) ha
      (agree_implicitConversion (itself_self hd) (itself_self hs))
  rcases hrun : implicitConversion d s t with ⟨_ | c, u⟩
  · rw [hrun] at ha g hgrown
    have hu := hgrown ((interns_explicitConversion d s u).avoids ha)
    have hmatches := g.matches ht.wellFormed hu.wellFormed hu.avoids
    refine explicitConversion_back hu (g.admits hs) (g.admits hd) ?_ ?_
      ((g.assigns_iff ht hu hs hd).mpr h) ha
    · rw [← hmatches.isReferenceType_eq (itself_self hs), hsr]
    · rw [← hmatches.isReferenceType_eq (itself_self hd), hdr]
  · rfl

/-! ## Marks -/

theorem mem_conversionMarks_iff {m : ConversionMark} :
    m ∈ t.conversionMarks s d ↔
      ∃ c, (conversion s d t).1 = some c ∧ m ∈ c.marks := by
  rw [conversionMarks]
  cases (conversion s d t).1 with
  | none => simp
  | some c => simp

theorem conversionMarks_ne_nil (h : (conversion s d t).1.isSome = true) :
    t.conversionMarks s d ≠ [] := by
  obtain ⟨c, hc⟩ := Option.isSome_iff_exists.mp h
  exact List.ne_nil_of_mem (mem_conversionMarks_iff.mpr
    ⟨c, hc, c.wellMarked_marks.marksExistence⟩)

theorem rule_mem_conversionMarks_iff {r : ConversionRule} :
    Conversion.markOfRule r ∈ t.conversionMarks s d ↔
      ∃ c, (conversion s d t).1 = some c ∧ c.rule = r := by
  simp [mem_conversionMarks_iff, Conversion.markOfRule_mem_marks_iff, eq_comm]

theorem mode_mem_conversionMarks_iff {m : ConversionMode} :
    Conversion.markOfMode m ∈ t.conversionMarks s d ↔
      ∃ c, (conversion s d t).1 = some c ∧ c.mode = m := by
  simp [mem_conversionMarks_iff, Conversion.markOfMode_mem_marks_iff, eq_comm]

theorem rule_of_mem_conversionMarks {r k : ConversionRule}
    (h : Conversion.markOfRule r ∈ t.conversionMarks s d ∨
      Conversion.markOfRule k ∈ t.conversionMarks s d) :
    ∃ c, (conversion s d t).1 = some c ∧ (c.rule = r ∨ c.rule = k) := by
  rw [rule_mem_conversionMarks_iff, rule_mem_conversionMarks_iff] at h
  obtain ⟨c, hc, hrule⟩ | ⟨c, hc, hrule⟩ := h
  · exact ⟨c, hc, .inl hrule⟩
  · exact ⟨c, hc, .inr hrule⟩

theorem identity_mem_conversionMarks_iff :
    .identity ∈ t.conversionMarks s d ↔ s = d ∧ t.kind s ≠ .unknown := by
  refine rule_mem_conversionMarks_iff (r := .identity).trans ?_
  constructor
  · rintro ⟨c, hc, hrule⟩
    obtain ⟨heq, hkind, -⟩ | ⟨-, himplicit | ⟨u, hexplicit⟩⟩ :=
      conversion_eq_some hc
    · exact ⟨heq, hkind⟩
    · have h := (implicitConversion_eq_some himplicit).2
      simp [hrule] at h
    · exact absurd hrule (explicitConversion_eq_some hexplicit).2.1
  · rintro ⟨rfl, hkind⟩
    rw [conversion_self hkind]
    exact ⟨_, rfl, rfl⟩

/-- How the conversion from one type to another is marked, and what the marks
have to do with assignability. -/
structure MarksWell (t : Table) (s d : Handle) (marks : List ConversionMark) :
    Prop where
  wellMarked : marks = [] ∨ Conversion.WellMarked marks
  identity : .identity ∈ marks ↔ s = d ∧ t.kind s ≠ .unknown
  implicit : .identity ∈ marks ∨ .boxing ∈ marks → .implicit ∈ marks
  explicit : .unboxing ∈ marks ∨ .enumeration ∈ marks → .explicit ∈ marks
  assignable : .implicit ∈ marks → .boxing ∈ marks ∨ .reference ∈ marks →
    (assignable s d t).1 = true
  of_assignable : t.kind s ≠ .unknown → t.kind d ≠ .unknown →
    (Table.assignable s d t).1 = true → .implicit ∈ marks
  back : s ≠ d → t.isReferenceType s = true → t.isReferenceType d = true →
    (Table.assignable s d t).1 = true → t.conversionMarks d s ≠ []

/-- In every reachable table conversions are well marked: one mode and one rule,
identity only between the same types, boxing and references only along
assignability, and for what is assignable a way there and back. -/
theorem Reachable.conversion_marksWell (hr : t.Reachable foreign)
    (havoids : (assignable s d t).2.Avoids foreign)
    (hback : (conversion d s t).2.Avoids foreign) :
    t.MarksWell s d (t.conversionMarks s d) where
  wellMarked := by
    rw [conversionMarks]
    by_cases hc : (conversion s d t).1 = none
    · rw [hc]
      exact .inl rfl
    · obtain ⟨c, hc⟩ := Option.ne_none_iff_exists'.mp hc
      rw [hc]
      exact .inr c.wellMarked_marks
  identity := identity_mem_conversionMarks_iff
  implicit h := by
    obtain ⟨c, hc, hrule⟩ := rule_of_mem_conversionMarks
      (r := .identity) (k := .boxing) h
    exact mode_mem_conversionMarks_iff (m := .implicit).mpr
      ⟨c, hc, (mode_of_conversion hc).1 hrule⟩
  explicit h := by
    obtain ⟨c, hc, hrule⟩ := rule_of_mem_conversionMarks
      (r := .unboxing) (k := .enumeration) h
    exact mode_mem_conversionMarks_iff (m := .explicit).mpr
      ⟨c, hc, (mode_of_conversion hc).2.1 hrule⟩
  assignable h h' := by
    obtain ⟨c, hc, hmode⟩ := mode_mem_conversionMarks_iff (m := .implicit).mp h
    obtain ⟨c', hc', hrule⟩ := rule_of_mem_conversionMarks
      (r := .boxing) (k := .reference) h'
    obtain rfl := Option.some.inj (hc.symm.trans hc')
    exact (mode_of_conversion hc).2.2 hmode hrule
  of_assignable hks hkd h := by
    obtain ⟨c, hc, hmode, -⟩ := conversion_of_assignable hks hkd h
    exact mode_mem_conversionMarks_iff (m := .implicit).mpr ⟨c, hc, hmode⟩
  back hne hsr hdr h := by
    have ht : t.Sound foreign := ⟨hr.wellFormed, hr.avoids⟩
    have hs : t.Admits foreign s :=
      .inl (knows_of_kind_ne_unknown (kind_ne_unknown_of_isReferenceType hsr))
    have hd : t.Admits foreign d :=
      .inl (knows_of_kind_ne_unknown (kind_ne_unknown_of_isReferenceType hdr))
    exact conversionMarks_ne_nil (conversion_back ht hs hd hne hsr hdr
      ((ht.assignable_iff hs hd havoids).mp h) hback)

/-- A string is an object by reference, and an object may turn out to be a
string. -/
theorem Reachable.conversion_marksWell_string :
    let string : Handle := ⟨54⟩
    let object : Handle := ⟨1⟩
    coreLibrary.tag? string = some .string ∧
      coreLibrary.tag? object = some .object ∧
      coreLibrary.MarksWell string object [.exists, .implicit, .reference] ∧
      coreLibrary.conversionMarks object string =
        [.exists, .explicit, .reference] := by
  intro string object
  have hcore : coreLibrary.Reachable fun h => h.index = 0 :=
    ⟨.inr (.refl _), avoids_zero _⟩
  have hmarks : coreLibrary.tag? string = some .string ∧
      coreLibrary.tag? object = some .object ∧
      coreLibrary.conversionMarks string object =
        [.exists, .implicit, .reference] ∧
      coreLibrary.conversionMarks object string =
        [.exists, .explicit, .reference] := by
    decide +kernel
  obtain ⟨hstring, hobject, hforth, hback⟩ := hmarks
  refine ⟨hstring, hobject, ?_, hback⟩
  rw [← hforth]
  exact Reachable.conversion_marksWell hcore (avoids_zero _) (avoids_zero _)

end Table

end Verdicts
