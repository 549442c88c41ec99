import Verdicts.Proofs.Correspondence.Assignability

/-!
# Conversions in corresponding tables
-/

namespace Verdicts.Table

variable {foreign : Handle → Prop} {ρ : World} {t u : Table}
  {a b a' b' : Handle}

namespace Matches

variable (m : t.Matches foreign ρ u)
include m

/-- What a nullable type holds, or the type itself. -/
theorem plain (h : ρ a b) :
    ρ ((t.nullableUnderlying? a).getD a) ((u.nullableUnderlying? b).getD b) := by
  obtain ⟨_, _, hn, hn', hu⟩ | ⟨hn, hn'⟩ :=
    World.rel_cases (m.nullableUnderlying? h)
  · rwa [hn, hn', Option.getD_some, Option.getD_some]
  · rwa [hn, hn', Option.getD_none, Option.getD_none]

theorem areNumeric_eq (h : ρ a b) (h' : ρ a' b') :
    t.areNumeric a a' = u.areNumeric b b' := by
  rw [areNumeric, areNumeric, m.tag?_eq h, m.tag?_eq h']

theorem widens_eq (h : ρ a b) (h' : ρ a' b') :
    t.widens a a' = u.widens b b' := by
  rw [widens, widens, m.tag?_eq h, m.tag?_eq h']

theorem lifts_eq (h : ρ a b) (h' : ρ a' b') :
    t.lifts a a' = u.lifts b b' := by
  rw [lifts, lifts]
  obtain ⟨_, _, hn, hn', hu⟩ | ⟨hn, hn'⟩ :=
    World.rel_cases (m.nullableUnderlying? h')
  · simp only [hn, hn', m.eq_iff (m.plain h) hu, m.widens_eq (m.plain h) hu]
  · simp only [hn, hn']

theorem convertsEnum_eq (h : ρ a b) (h' : ρ a' b') :
    t.convertsEnum a a' = u.convertsEnum b b' := by
  simp only [convertsEnum, m.kind_eq h, m.kind_eq h', m.tag?_eq h,
    m.tag?_eq h']

theorem unlifts_eq (h : ρ a b) (h' : ρ a' b') :
    t.unlifts a a' = u.unlifts b b' := by
  have hsome : ∀ {a b}, ρ a b → (t.nullableUnderlying? a).isSome =
      (u.nullableUnderlying? b).isSome := by
    intro a b hab
    obtain ⟨_, _, hn, hn', -⟩ | ⟨hn, hn'⟩ :=
      World.rel_cases (m.nullableUnderlying? hab)
    · rw [hn, hn', Option.isSome_some, Option.isSome_some]
    · rw [hn, hn']
  simp only [unlifts, hsome h, hsome h', m.eq_iff (m.plain h) (m.plain h'),
    m.areNumeric_eq (m.plain h) (m.plain h')]

theorem crossesInterface_eq (h : ρ a b) (h' : ρ a' b') :
    t.crossesInterface a a' = u.crossesInterface b b' := by
  rw [crossesInterface, crossesInterface, m.kind_eq h, m.kind_eq h',
    m.isClosed_eq h, m.isClosed_eq h']

theorem agree_unboxes (h : ρ a b) (h' : ρ a' b') :
    Agree foreign ρ (t.unboxes a a') (u.unboxes b b') Same := by
  refine .ite ?_ (agree_assignable (m.plain h') h) (.of_pure rfl)
  rw [m.isValueType_eq (m.plain h'), m.isReferenceType_eq h]

theorem agree_refers {ρ' : World} (hle : ρ ≤ ρ') (h : ρ a b) (h' : ρ a' b') :
    Agree foreign ρ' (t.refers a a') (u.refers b b') Same := by
  refine .ite ?_ ((agree_assignable (hle _ _ h') (hle _ _ h)).map ?_)
    (.of_pure rfl)
  · rw [m.isReferenceType_eq h, m.isReferenceType_eq h']
  · rintro _ _ x _ rfl
    rw [Same, m.crossesInterface_eq h h']

end Matches

theorem agree_implicitConversion (h : ρ a b) (h' : ρ a' b') :
    Agree foreign ρ (implicitConversion a a') (implicitConversion b b')
      Same := by
  apply Agree.get_bind
  intro t u m
  refine .ite ?_ (.of_pure rfl) (.ite ?_ (.of_pure rfl) ?_)
  · rw [Matches.widens_eq m h h']
  · rw [Matches.lifts_eq m h h']
  · apply (agree_assignable h h').bind
    · intro fits
      exact (Interns.ite (.of_pure _) (.ite (.of_pure _) (.of_pure _))).shields
    · intro fits
      exact (Interns.ite (.of_pure _) (.ite (.of_pure _) (.of_pure _))).shields
    · rintro ρ' hle fits _ rfl
      refine .ite Iff.rfl (.of_pure ?_) (.ite ?_ (.of_pure rfl) (.of_pure rfl))
      · rw [Same, Matches.isValueType_eq m h]
      · rw [Matches.conversion?_eq m h h']

theorem agree_explicitConversion (h : ρ a b) (h' : ρ a' b') :
    Agree foreign ρ (explicitConversion a a') (explicitConversion b b')
      Same := by
  apply Agree.get_bind
  intro t u m
  refine .ite ?_ (.of_pure rfl) (.ite ?_ (.of_pure rfl) ?_)
  · rw [Matches.areNumeric_eq m h h']
  · rw [Matches.convertsEnum_eq m h h']
  · apply (Matches.agree_unboxes m h h').bind
    · intro unboxes
      refine (Interns.ite (.of_pure _) (.ite (.of_pure _)
        ((interns_refers t a a').bind fun refers => ?_))).shields
      exact .ite (.of_pure _) (.ite (.of_pure _) (.of_pure _))
    · intro unboxes
      refine (Interns.ite (.of_pure _) (.ite (.of_pure _)
        ((interns_refers u b b').bind fun refers => ?_))).shields
      exact .ite (.of_pure _) (.ite (.of_pure _) (.of_pure _))
    · rintro ρ' hle unboxes _ rfl
      refine .ite Iff.rfl (.of_pure rfl) (.ite ?_ (.of_pure rfl) ?_)
      · rw [Matches.unlifts_eq m h h']
      · apply (Matches.agree_refers m hle h h').bind
        · intro refers
          exact (Interns.ite (.of_pure _)
            (.ite (.of_pure _) (.of_pure _))).shields
        · intro refers
          exact (Interns.ite (.of_pure _)
            (.ite (.of_pure _) (.of_pure _))).shields
        · rintro ρ'' _ refers _ rfl
          refine .ite Iff.rfl (.of_pure rfl)
            (.ite ?_ (.of_pure rfl) (.of_pure rfl))
          rw [Matches.conversion?_eq m h h']

theorem agree_conversion (h : ρ a b) (h' : ρ a' b') :
    Agree foreign ρ (conversion a a') (conversion b b') Same := by
  apply Agree.get_bind
  intro t u m
  refine .ite ?_ (.of_pure rfl) (.ite (Matches.eq_iff m h h') (.of_pure rfl) ?_)
  · rw [Matches.kind_eq m h, Matches.kind_eq m h']
  · apply (agree_implicitConversion h h').bind
    · rintro (_ | c)
      · exact (interns_explicitConversion a a').shields
      · exact (Interns.of_pure _).shields
    · rintro (_ | c)
      · exact (interns_explicitConversion b b').shields
      · exact (Interns.of_pure _).shields
    · rintro ρ' hle c _ rfl
      cases c with
      | some c => exact .of_pure rfl
      | none => exact agree_explicitConversion (hle _ _ h) (hle _ _ h')

theorem agree_satisfies (h : ρ a b) {c c' : Constraints}
    (hc : c.Matches ρ c') :
    Agree foreign ρ (satisfies a c) (satisfies b c') Same := by
  apply Agree.get_bind
  intro t u m
  refine .ite ?_ (.of_pure rfl) (.ite ?_ (.of_pure rfl) ?_)
  · rw [hc.valueType, Matches.isValueType_eq m h]
  · rw [hc.referenceType, Matches.isReferenceType_eq m h]
  · exact Agree.allM (R := Linked) (fun hle _ _ hab => hle _ _ hab)
      (fun l => (Interns.allM (interns_assignable a) l).shields)
      (fun l => (Interns.allM (interns_assignable b) l).shields)
      (fun hle _ _ hab => agree_assignable (hle _ _ h) hab) hc.types

end Verdicts.Table
