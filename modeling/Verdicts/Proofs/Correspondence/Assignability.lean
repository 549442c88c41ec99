import Verdicts.Proofs.Correspondence.Types

/-!
# Interning, assignability and conversions in corresponding tables

The operations that intern types answer linked types when they are asked about
linked types, and assignability and conversions do not tell corresponding tables
apart.
-/

namespace Verdicts

/-- Answers that are linked handles. -/
abbrev Linked : World → Handle → Handle → Prop := fun ρ => ρ

namespace Table

variable {foreign : Handle → Prop} {ρ : World} {t u : Table} {a b : Handle}
  {s s' : Shape}

/-! ## Interning -/

theorem Matches.intern (m : t.Matches foreign ρ u) (hm : s.Matches ρ s')
    (hs : t.Interned foreign s) (hs' : u.Interned foreign s')
    (ha : (Table.intern s t).2.Avoids foreign)
    (ha' : (Table.intern s' u).2.Avoids foreign) :
    (Table.intern s t).2.Matches foreign
      (ρ.link (Table.intern s t).1 (Table.intern s' u).1)
      (Table.intern s' u).2 := by
  have hgrown := m.grow (growsTo_intern t hs.structural)
    (growsTo_intern u hs'.structural) (m.left.intern hs) (m.right.intern hs')
    ha ha'
  exact hgrown.link (shape?_intern s t) (shape?_intern s' u) hm hs.structural

theorem agree_arrayOf (h : ρ a b) :
    Agree foreign ρ (arrayOf a) (arrayOf b) Linked := by
  rw [arrayOf_eq_intern, arrayOf_eq_intern]
  intro t u m ha ha'
  exact ⟨_, ρ.le_link _ _,
    Matches.intern m (.array h) (interned_array (m.admitsLeft h))
      (interned_array (m.admitsRight h)) ha ha',
    ρ.link_self _ _⟩

theorem Matches.ownsAll_eq (m : t.Matches foreign ρ u) (h : ρ a b)
    {as bs : List Handle} (hs : List.Forall₂ ρ as bs) :
    t.ownsAll a as = u.ownsAll b bs := by
  rw [ownsAll, ownsAll]
  obtain ⟨d, e, hd, he, hm⟩ | ⟨hd, he⟩ := World.rel_cases (m.definition? h)
  · rw [hd, he, Option.any_some, Option.any_some, Bool.eq_iff_iff,
      beq_iff_eq, beq_iff_eq]
    constructor
    · intro heq
      rw [← heq] at hs
      exact m.rightUnique.forall₂ hm.parameters hs
    · intro heq
      rw [← heq] at hs
      exact m.leftUnique.forall₂ hm.parameters hs
  · rw [hd, he, Option.any_none, Option.any_none]

theorem agree_construct (h : ρ a b) {as bs : List Handle}
    (hs : List.Forall₂ ρ as bs) :
    Agree foreign ρ (construct a as) (construct b bs) Linked := by
  intro t u m ha ha'
  have hown := Matches.ownsAll_eq m h hs
  by_cases hc : t.ownsAll a as = true
  · rw [construct_apply_of_own hc, construct_apply_of_own (hown ▸ hc)]
    exact ⟨ρ, le_refl ρ, m, h⟩
  · have hc' : ¬u.ownsAll b bs = true := hown ▸ hc
    rw [construct_apply_of_not_own hc] at ha ⊢
    rw [construct_apply_of_not_own hc'] at ha' ⊢
    exact ⟨_, ρ.le_link _ _,
      Matches.intern m (.constructed h hs)
        (interned_constructed (m.admitsLeft h) (m.admitsLeft_all hs) hc)
        (interned_constructed (m.admitsRight h) (m.admitsRight_all hs) hc')
        ha ha',
      ρ.link_self _ _⟩

theorem agree_nullableOf (h : ρ a b) :
    Agree foreign ρ (nullableOf a) (nullableOf b)
      fun ρ' => Option.Rel ρ' := by
  apply Agree.get_bind
  intro t u m
  obtain ⟨d, e, hd, he, hde⟩ | ⟨hd, he⟩ :=
    World.rel_cases (Matches.builtIn m .nullableT)
  · simp only [hd, he]
    exact (agree_construct hde (.cons h .nil)).map fun _ _ _ hab => .some hab
  · simp only [hd, he]
    exact .of_pure .none

/-! ## Supertypes -/

/-- Substitutions that take linked types to linked types. -/
abbrev SubstitutionsMatch (ρ : World) (σ τ : Substitution) : Prop :=
  List.Forall₂ (fun x y => ρ x.1 y.1 ∧ ρ x.2 y.2) σ τ

theorem SubstitutionsMatch.mono {ρ' : World} {σ τ : Substitution}
    (h : ρ ≤ ρ') (hσ : SubstitutionsMatch ρ σ τ) :
    SubstitutionsMatch ρ' σ τ :=
  hσ.imp fun _ _ hxy => ⟨h _ _ hxy.1, h _ _ hxy.2⟩

theorem substitutionsMatch_zip {ps qs as bs : List Handle}
    (hp : List.Forall₂ ρ ps qs) (ha : List.Forall₂ ρ as bs) :
    SubstitutionsMatch ρ (ps.zip as) (qs.zip bs) := by
  induction hp generalizing as bs with
  | nil => exact .nil
  | cons hpq _ ih =>
      cases ha with
      | nil => exact .nil
      | cons hab ha => exact .cons ⟨hpq, hab⟩ (ih ha)

theorem Matches.lookup (m : t.Matches foreign ρ u) {σ τ : Substitution}
    (hσ : SubstitutionsMatch ρ σ τ) (h : ρ a b) :
    Option.Rel ρ (σ.lookup a) (τ.lookup b) := by
  induction hσ with
  | nil => exact .none
  | @cons x y _ _ hxy _ ih =>
      obtain ⟨x₁, x₂⟩ := x
      obtain ⟨y₁, y₂⟩ := y
      have hkey : (a == x₁) = (b == y₁) := by
        rw [Bool.eq_iff_iff, beq_iff_eq, beq_iff_eq, m.eq_iff h hxy.1]
      rw [List.lookup_cons, List.lookup_cons, hkey]
      split
      · exact .some hxy.2
      · exact ih

theorem agree_substituteWithin {σ τ : Substitution} (levels : Nat)
    (hσ : SubstitutionsMatch ρ σ τ) (h : ρ a b) :
    Agree foreign ρ (substituteWithin σ levels a) (substituteWithin τ levels b)
      Linked := by
  induction levels generalizing a b ρ with
  | zero => exact .of_pure h
  | succ levels ih =>
      rw [substituteWithin, substituteWithin]
      apply Agree.of_alike
      intro t u m
      obtain ⟨_, _, hl, hl', hi⟩ | ⟨hl, hl'⟩ :=
        World.rel_cases (Matches.lookup m hσ h)
      · simp only [hl, hl']
        exact .of_pure hi
      · simp only [hl, hl']
        apply Agree.get_bind
        intro t u m
        obtain ⟨s, s', hs, hs', hm⟩ | ⟨hs, hs', -⟩ := Matches.shape_cases m h
        · rw [hs, hs']
          cases hm with
          | array he =>
              apply (ih hσ he).bind
              · exact fun e => (interns_arrayOf e).shields
              · exact fun e => (interns_arrayOf e).shields
              · exact fun _ _ _ hab => agree_arrayOf hab
          | constructed hd has =>
              refine Agree.bind (Agree.mapM (R := Linked) (Q := Linked)
                (fun hle _ _ hab => hle _ _ hab)
                (fun hle _ _ hab => hle _ _ hab)
                (fun l => (Interns.mapM
                  (interns_substituteWithin σ levels) l).shields)
                (fun l => (Interns.mapM
                  (interns_substituteWithin τ levels) l).shields)
                (fun hle _ _ hab =>
                  ih (SubstitutionsMatch.mono hle hσ) hab) has) ?_ ?_ ?_
              · exact fun as => (interns_construct _ as).shields
              · exact fun as => (interns_construct _ as).shields
              · exact fun hle _ _ hab => agree_construct (hle _ _ hd) hab
          | named | parameter | other => exact .of_pure h
        · rw [hs, hs']
          exact .of_pure h

theorem agree_substitute {σ τ : Substitution}
    (hσ : SubstitutionsMatch ρ σ τ) (h : ρ a b) :
    Agree foreign ρ (substitute σ a) (substitute τ b) Linked := by
  apply Agree.ite
  · rw [World.isEmpty_eq hσ]
  · exact .of_pure h
  · exact agree_substituteWithin _ hσ h

theorem agree_supertypes (h : ρ a b) :
    Agree foreign ρ (supertypes a) (supertypes b)
      fun ρ' => List.Forall₂ ρ' := by
  apply Agree.get_bind
  intro t u m
  obtain ⟨s, s', hs, hs', hm⟩ | ⟨hs, hs', -⟩ := Matches.shape_cases m h
  · rw [hs, hs']
    cases hm with
    | named hd => exact .of_pure (Matches.statedSupertypes m h hd)
    | constructed hd has =>
        obtain ⟨d, e, hde, hde', hdm⟩ | ⟨hde, hde'⟩ :=
          World.rel_cases (Matches.definition? m hd)
        · simp only [hde, hde']
          exact Agree.mapM (R := Linked) (Q := Linked)
            (fun hle _ _ hab => hle _ _ hab) (fun hle _ _ hab => hle _ _ hab)
            (fun l => (Interns.mapM (interns_substitute _) l).shields)
            (fun l => (Interns.mapM (interns_substitute _) l).shields)
            (fun hle _ _ hab => agree_substitute
              (SubstitutionsMatch.mono hle
                (substitutionsMatch_zip hdm.parameters has)) hab)
            (Matches.statedSupertypes m h hdm)
        · simp only [hde, hde']
          exact .of_pure .nil
    | array | parameter | other => exact .of_pure .nil
  · rw [hs, hs']
    exact .of_pure .nil

/-! ## Assignability -/

/-- Demands of arrays that are the same, up to the linked element types. -/
inductive ArrayDemand.Matches (ρ : World) : ArrayDemand → ArrayDemand → Prop where
  | free : Matches ρ .free .free
  | element {x y : Handle} (h : ρ x y) : Matches ρ (.element x) (.element y)
  | impossible : Matches ρ .impossible .impossible

theorem Matches.arrayDemand (m : t.Matches foreign ρ u) (h : ρ a b) :
    ArrayDemand.Matches ρ (t.arrayDemand a) (u.arrayDemand b) := by
  rw [Table.arrayDemand, Table.arrayDemand]
  obtain ⟨s, s', hs, hs', hm⟩ | ⟨hs, hs', -⟩ := m.shape_cases h
  · rw [hs, hs']
    cases hm with
    | named hd =>
        simp only [hd.builtIn]
        split
        · exact .free
        · exact .impossible
    | array he => exact .element he
    | constructed hd has =>
        cases has with
        | nil => exact .impossible
        | cons he _ =>
            simp only [m.tag?_eq hd]
            split
            · exact .element he
            · exact .impossible
    | parameter | other => exact .impossible
  · rw [hs, hs']
    exact .impossible

theorem agree_assignableWithin (levels : Nat) {a' b' : Handle} (h : ρ a b)
    (h' : ρ a' b') :
    Agree foreign ρ (assignableWithin levels a a')
      (assignableWithin levels b b') Same := by
  induction levels generalizing a b a' b' ρ with
  | zero =>
      apply Agree.get_bind
      intro t u m
      apply Agree.of_pure
      simp only [Same, Matches.knows_eq m h, Matches.eq_iff m h h']
  | succ levels ih =>
      -- The walk over bounds and the walk over supertypes.
      have hany : ∀ {ρ' : World}, ρ ≤ ρ' → ∀ {as bs : List Handle},
          List.Forall₂ ρ' as bs →
          Agree foreign ρ' (as.anyM fun x => assignableWithin levels x a')
            (bs.anyM fun x => assignableWithin levels x b') Same := by
        intro ρ' hle as bs has
        exact Agree.anyM (R := Linked) (fun hle' _ _ hab => hle' _ _ hab)
          (fun l => (Interns.anyM
            (fun x => interns_assignableWithin levels x a') l).shields)
          (fun l => (Interns.anyM
            (fun x => interns_assignableWithin levels x b') l).shields)
          (fun hle' _ _ hab => ih hab (hle' _ _ (hle _ _ h'))) has
      have hstep : ∀ (c x : Handle), Interns (if x = c then pure true
          else assignableWithin levels x c : StateM Table Bool) :=
        fun c x => .ite (.of_pure _) (interns_assignableWithin levels x c)
      have hsupers : Agree foreign ρ
          (do (← supertypes a).anyM fun x =>
            if x = a' then return true else assignableWithin levels x a')
          (do (← supertypes b).anyM fun x =>
            if x = b' then return true else assignableWithin levels x b')
          Same := by
        apply (agree_supertypes h).bind
        · exact fun l => (Interns.anyM (hstep a') l).shields
        · exact fun l => (Interns.anyM (hstep b') l).shields
        · intro ρ' hle as bs has
          refine Agree.anyM (R := Linked) (fun hle' _ _ hab => hle' _ _ hab)
            (fun l => (Interns.anyM (hstep a') l).shields)
            (fun l => (Interns.anyM (hstep b') l).shields) ?_ has
          intro ρ'' hle' x y hxy
          have htarget : ρ'' a' b' := hle' _ _ (hle _ _ h')
          intro t u m
          exact Agree.ite (Matches.eq_iff m hxy htarget) (.of_pure rfl)
            (ih hxy htarget) m
      rw [assignableWithin, assignableWithin]
      apply Agree.get_bind
      intro t u m
      refine .ite (Matches.eq_iff m h h') ?_ (.ite ?_ (.of_pure rfl)
        (.ite ?_ (.of_pure rfl) ?_))
      · exact .of_pure (Matches.knows_eq m h)
      · rw [Matches.kind_eq m h, Matches.kind_eq m h']
      · rw [Matches.tag?_eq m h']
      · obtain ⟨s, s', hs, hs', hm⟩ | ⟨hs, hs', -⟩ := Matches.shape_cases m h
        · rw [hs, hs']
          cases hm with
          | named hd => exact hsupers
          | @array e e' he =>
              simp only
              have hdemand := Matches.arrayDemand m h'
              revert hdemand
              generalize t.arrayDemand a' = x
              generalize u.arrayDemand b' = y
              rintro (_ | htarget | _)
              · exact .of_pure rfl
              · refine .ite (Matches.eq_iff m he htarget) (.of_pure rfl)
                  (.ite ?_ (ih he htarget) (.of_pure rfl))
                rw [Matches.isReferenceType_eq m he]
              · exact .of_pure rfl
          | constructed hd has => exact hsupers
          | parameter hc =>
              refine .ite ?_ (.of_pure rfl) (hany (le_refl ρ) hc.types)
              rw [hc.valueType, Matches.tag?_eq m h']
          | other => exact .of_pure rfl
        · rw [hs, hs']
          exact .of_pure rfl

theorem agree_assignable {a' b' : Handle} (h : ρ a b) (h' : ρ a' b') :
    Agree foreign ρ (assignable a a') (assignable b b') Same :=
  agree_assignableWithin _ h h'

end Table

end Verdicts
