import Verdicts.Proofs.Naming.Names
import Verdicts.Proofs.Subtyping.Denotation

/-!
# Reading answers as terms

Going up the supertypes stores types, but none that the hierarchy of the table
would not have foretold: each operation answers a handle that stands for the
term which the plain function on terms gives.  The rules of this module put such
readings together along the structure of a block.
-/

namespace Verdicts.Table

variable {foreign : Handle → Prop} {H : Hierarchy} {t u : Table}
  {h k : Handle} {T : Term}

/-- A sound table with a given hierarchy. -/
structure Shows (foreign : Handle → Prop) (H : Hierarchy) (t : Table) : Prop
    extends t.Sound foreign where
  hierarchy : t.hierarchy = H

/-- The handle stands for the type that is written out. -/
structure Stands (foreign : Handle → Prop) (t : Table) (h : Handle) (T : Term) :
    Prop where
  admits : t.Admits foreign h
  denote : t.denote h = T

theorem Sound.shows (ht : t.Sound foreign) : t.Shows foreign t.hierarchy :=
  ⟨ht, rfl⟩

theorem Shows.grow (ht : t.Shows foreign H) (g : t.GrowsTo u)
    (w : u.WellFormed foreign) (ha : u.Avoids foreign) : u.Shows foreign H where
  wellFormed := w
  avoids := ha
  hierarchy := (g.hierarchy_eq ht.toSound ⟨w, ha⟩).trans ht.hierarchy

theorem Stands.mono (hh : t.Stands foreign h T) (g : t.GrowsTo u)
    (ht : t.Shows foreign H) (hu : u.Shows foreign H) : u.Stands foreign h T where
  admits := g.admits hh.admits
  denote := (g.persistsIn.denote_eq ht.toSound hu.avoids hh.admits).trans hh.denote

theorem Admits.stands (ha : t.Admits foreign h) :
    t.Stands foreign h (t.denote h) :=
  ⟨ha, rfl⟩

theorem forall₂_stands {hs : List Handle} (ha : ∀ h ∈ hs, t.Admits foreign h) :
    List.Forall₂ (t.Stands foreign) hs (hs.map t.denote) :=
  List.forall₂_map_right_iff.mpr
    (List.forall₂_same.mpr fun h hh => (ha h hh).stands)

theorem map_denote_eq {hs : List Handle} {Ts : List Term}
    (hall : List.Forall₂ (t.Stands foreign) hs Ts) : hs.map t.denote = Ts := by
  induction hall with
  | nil => rfl
  | cons hh _ ih => rw [List.map_cons, hh.denote, ih]

theorem admits_of_stands {hs : List Handle} {Ts : List Term}
    (hall : List.Forall₂ (t.Stands foreign) hs Ts) :
    ∀ h ∈ hs, t.Admits foreign h := by
  intro h hh
  obtain ⟨T, -, hT⟩ := exists_of_forall₂ hall hh
  exact hT.admits

/-! ## Reading answers -/

section

variable {α β : Type} {P : Table → α → Prop} {Q : Table → β → Prop}

/-- The transition keeps the hierarchy of the table and gives an answer with a
property, as long as it gives out no foreign handle. -/
def Reads (foreign : Handle → Prop) (H : Hierarchy) (t : Table)
    (m : StateM Table α) (P : Table → α → Prop) : Prop :=
  t.Shows foreign H → (m t).2.Avoids foreign →
    (m t).2.Shows foreign H ∧ P (m t).2 (m t).1

namespace Reads

theorem of_pure {a : α} (h : P t a) : Reads foreign H t (pure a) P :=
  fun ht _ => ⟨ht, h⟩

/-- Something may be shown of an answer under the assumption that the table
shows the hierarchy. -/
theorem of_shows {m : StateM Table α}
    (h : t.Shows foreign H → Reads foreign H t m P) : Reads foreign H t m P :=
  fun ht => h ht ht

theorem get_bind {f : Table → StateM Table α} (h : Reads foreign H t (f t) P) :
    Reads foreign H t (get >>= f) P :=
  h

theorem bind {m : StateM Table α} {f : α → StateM Table β} (hm : Interns m)
    (hf : ∀ a, Interns (f a)) (hP : Reads foreign H t m P)
    (hQ : ∀ {u a}, t.GrowsTo u → t.Shows foreign H → u.Shows foreign H →
      P u a → Reads foreign H u (f a) Q) :
    Reads foreign H t (m >>= f) Q := by
  intro ht ha
  obtain ⟨hu, hP⟩ := hP ht ((hf _ _).avoids ha)
  exact hQ (hm t) ht hu hP hu ha

theorem mono {m : StateM Table α} {P' : Table → α → Prop}
    (hm : Reads foreign H t m P) (h : ∀ {u a}, P u a → P' u a) :
    Reads foreign H t m P' :=
  fun ht ha => (hm ht ha).imp_right h

theorem ite {c : Prop} [Decidable c] {m n : StateM Table α}
    (hm : c → Reads foreign H t m P) (hn : ¬c → Reads foreign H t n P) :
    Reads foreign H t (if c then m else n) P := by
  split
  · next h => exact hm h
  · next h => exact hn h

theorem mapM {f : Handle → StateM Table Handle} {F : Term → Term}
    (hf : ∀ h, Interns (f h)) {hs : List Handle} {Ts : List Term}
    (hread : ∀ {u h T}, t.GrowsTo u → t.Shows foreign H →
      u.Shows foreign H → u.Stands foreign h T →
      Reads foreign H u (f h) fun v k => v.Stands foreign k (F T))
    (hall : List.Forall₂ (t.Stands foreign) hs Ts) :
    Reads foreign H t (hs.mapM f) fun u ks =>
      List.Forall₂ (u.Stands foreign) ks (Ts.map F) := by
  induction hs generalizing t Ts with
  | nil =>
      cases hall
      exact of_pure .nil
  | cons h hs ih =>
      cases hall with
      | cons hh hall =>
          rw [List.mapM_cons]
          apply of_shows
          intro ht
          apply bind (hf h)
            (fun k => (Interns.mapM hf hs).bind fun ks => .of_pure _)
            (hread (.refl t) ht ht hh)
          intro u k g _ hu hk
          apply bind (.mapM hf hs) (fun ks => .of_pure _)
          · apply ih
            · intro v h T g' _ hv hh'
              exact hread (g.trans g') ht hv hh'
            · exact hall.imp fun _ _ hh => hh.mono g ht hu
          · intro v ks g' _ hv hks
            exact of_pure (.cons (hk.mono g' hu hv) hks)

theorem anyM {p : Handle → StateM Table Bool} {R : Term → Prop}
    (hp : ∀ h, Interns (p h)) {hs : List Handle} {Ts : List Term}
    (hread : ∀ {u h T}, t.GrowsTo u → t.Shows foreign H →
      u.Shows foreign H → u.Stands foreign h T →
      Reads foreign H u (p h) fun _ r => r = true ↔ R T)
    (hall : List.Forall₂ (t.Stands foreign) hs Ts) :
    Reads foreign H t (hs.anyM p) fun _ r => r = true ↔ ∃ T ∈ Ts, R T := by
  induction hs generalizing t Ts with
  | nil =>
      cases hall
      exact of_pure (by simp)
  | cons h hs ih =>
      cases hall with
      | cons hh hall =>
          rename_i T Ts
          rw [List.anyM_cons]
          apply of_shows
          intro ht
          apply bind (hp h) (fun r => .ite (.of_pure _) (.anyM hp hs))
            (hread (.refl t) ht ht hh)
          intro u r g _ hu hr
          cases r with
          | true =>
              exact of_pure
                ⟨fun _ => ⟨T, List.mem_cons_self .., hr.mp rfl⟩, fun _ => rfl⟩
          | false =>
              have hT : ¬R T := fun h => Bool.false_ne_true (hr.mpr h)
              refine mono (P := fun _ r => r = true ↔ ∃ T ∈ Ts, R T) ?_ ?_
              · apply ih
                · intro v h T g' _ hv hh'
                  exact hread (g.trans g') ht hv hh'
                · exact hall.imp fun _ _ hh => hh.mono g ht hu
              · intro v r hr
                rw [hr, List.exists_mem_cons_iff, or_iff_right hT]

end Reads

end

/-! ## Interning -/

theorem definition?_stands (ht : t.Shows foreign H)
    (hh : t.Stands foreign h T) :
    T.handle?.bind H.definition? = (t.definition? h).map t.nominal := by
  obtain ⟨-, rfl⟩ := hh
  rw [← ht.hierarchy]
  rcases ht.denote_cases h with ⟨e, hs, heq⟩ | ⟨d, as, hs, heq⟩ | ⟨-, heq⟩
  · rw [heq, definition?, hs]
    rfl
  · rw [heq, definition?, hs]
    rfl
  · rw [heq]
    rfl

theorem reads_arrayOf {E : Term} (hh : t.Stands foreign h E) :
    Reads foreign H t (arrayOf h) fun u k => u.Stands foreign k (.array E) := by
  intro ht ha
  have g := growsTo_arrayOf h t
  have hu := ht.grow g (ht.wellFormed.of_agree (interns_arrayOf h) ha
    (agree_arrayOf (itself_self hh.admits))) ha
  refine ⟨hu, .inl (knows_arrayOf h t), ?_⟩
  rw [hu.denote_array (shape?_arrayOf h t), (hh.mono g ht hu).denote]

theorem ownsAll_stands (ht : t.Shows foreign H) {D : Term}
    (hd : t.Stands foreign h D) {as : List Handle} {As : List Term}
    (has : List.Forall₂ (t.Stands foreign) as As) :
    Term.ownsAll H D As = t.ownsAll h as := by
  rw [Term.ownsAll, definition?_stands ht hd, ownsAll]
  cases hs : t.definition? h with
  | none => rfl
  | some d =>
      have hparameters : d.parameters.map t.denote = d.parameters.map .atom := by
        apply List.map_congr_left
        intro p hp
        obtain ⟨name, c, hs⟩ := (ht.wellFormed.owned
          (definition?_eq_some_iff.mp hs)).parameter p hp
        exact denote_of_shape? hs rfl
      rw [Option.map_some, Option.any_some, Option.any_some, Bool.eq_iff_iff,
        decide_eq_true_iff, beq_iff_eq, nominal, Term.map_handle?_eq_iff,
        ← map_denote_eq has]
      constructor
      · intro heq
        exact (eq_of_map_eq_map
          (fun a _ b _ hab => ht.eq_of_denote_eq_atom hab) heq).symm
      · rintro rfl
        exact hparameters

theorem reads_construct {D : Term} (hd : t.Stands foreign h D)
    {as : List Handle} {As : List Term}
    (has : List.Forall₂ (t.Stands foreign) as As) :
    Reads foreign H t (construct h as)
      fun u k => u.Stands foreign k (D.apply H As) := by
  intro ht ha
  have g := growsTo_construct h as t
  have hu := ht.grow g (ht.wellFormed.of_agree (interns_construct h as) ha
    (agree_construct (itself_self hd.admits)
      (forall₂_itself (admits_of_stands has)))) ha
  refine ⟨hu, .inl (knows_construct h as t), ?_⟩
  rw [Term.apply, ownsAll_stands ht hd has]
  by_cases hown : t.ownsAll h as = true
  · rw [if_pos hown, construct_apply_of_own hown, hd.denote]
  · have hs : (construct h as t).2.shape? (construct h as t).1 =
        some (.constructed h as) :=
      (construct_cases h as t).resolve_left fun h => hown h.1
    rw [if_neg hown, hu.denote_constructed hs, (hd.mono g ht hu).denote,
      map_denote_eq (has.imp fun _ _ ha => ha.mono g ht hu)]

/-! ## Substitution -/

/-- The two replace the same type parameters by types and by the terms for which
these stand. -/
abbrev Substitutes (foreign : Handle → Prop) (t : Table)
    (σ : Substitution) (τ : List (Handle × Term)) : Prop :=
  List.Forall₂ (fun x y => x.1 = y.1 ∧ t.Stands foreign x.2 y.2 ∧
    ∃ name c, t.shape? x.1 = some (.parameter name c)) σ τ

theorem Substitutes.mono {σ : Substitution} {τ : List (Handle × Term)}
    (hσ : t.Substitutes foreign σ τ) (g : t.GrowsTo u) (ht : t.Shows foreign H)
    (hu : u.Shows foreign H) : u.Substitutes foreign σ τ :=
  hσ.imp fun _ _ ⟨hkey, himage, name, c, hs⟩ =>
    ⟨hkey, himage.mono g ht hu, name, c, g.shape?_of_some hs⟩

theorem substitutes_zip {ps as : List Handle} {As : List Term}
    (hps : ∀ p ∈ ps, ∃ name c, t.shape? p = some (.parameter name c))
    (has : List.Forall₂ (t.Stands foreign) as As) :
    t.Substitutes foreign (ps.zip as) (ps.zip As) := by
  induction has generalizing ps with
  | nil => simp
  | cons ha _ ih =>
      cases ps with
      | nil => exact .nil
      | cons p ps =>
          rw [List.forall_mem_cons] at hps
          exact .cons ⟨rfl, ha, hps.1⟩ (ih hps.2)

/-- Only type parameters are replaced. -/
theorem Substitutes.lookup {σ : Substitution} {τ : List (Handle × Term)}
    (hσ : t.Substitutes foreign σ τ) (h : Handle) :
    (σ.lookup h = none ∧ τ.lookup h = none) ∨
      ∃ k T, σ.lookup h = some k ∧ τ.lookup h = some T ∧
        t.Stands foreign k T ∧ ∃ name c, t.shape? h = some (.parameter name c) := by
  induction hσ with
  | nil => exact .inl ⟨rfl, rfl⟩
  | @cons x y _ _ hxy _ ih =>
      obtain ⟨p, k⟩ := x
      obtain ⟨p', T⟩ := y
      obtain ⟨rfl, hk, hp⟩ := hxy
      by_cases heq : h = p
      · subst heq
        exact .inr ⟨k, T, List.lookup_cons_self, List.lookup_cons_self, hk, hp⟩
      · rwa [List.lookup_cons, List.lookup_cons, beq_false_of_ne heq]

theorem reads_substituteWithin {σ : Substitution} {τ : List (Handle × Term)}
    (levels : Nat) (hσ : t.Substitutes foreign σ τ)
    (hh : t.Stands foreign h T) :
    Reads foreign H t (substituteWithin σ levels h)
      fun u k => u.Stands foreign k (T.substWithin H τ levels) := by
  induction levels generalizing t h T with
  | zero =>
      rw [Term.substWithin]
      exact .of_pure hh
  | succ levels ih =>
      apply Reads.of_shows
      intro ht
      rw [substituteWithin]
      rcases hσ.lookup h with ⟨hnone, hnone'⟩ |
        ⟨k, K, hsome, hsome', hk, name, c, hs⟩
      · simp only [hnone]
        apply Reads.get_bind
        rcases ht.denote_cases h with ⟨e, hs, heq⟩ | ⟨d, as, hs, heq⟩ | ⟨hs, heq⟩
        · obtain rfl := heq.symm.trans hh.denote
          simp only [hs, Term.substWithin]
          have he := ht.admits_part hs (List.mem_cons_self ..)
          refine .bind (interns_substituteWithin σ levels e) interns_arrayOf
            (ih hσ he.stands) ?_
          intro u k g _ hu hk
          exact reads_arrayOf hk
        · obtain rfl := heq.symm.trans hh.denote
          simp only [hs, Term.substWithin]
          have hd := ht.admits_part hs (List.mem_cons_self ..)
          have has : ∀ a ∈ as, t.Admits foreign a := fun a ha =>
            ht.admits_part hs (List.mem_cons_of_mem d ha)
          have hread : Reads foreign H t (as.mapM (substituteWithin σ levels))
              fun u ks => List.Forall₂ (u.Stands foreign) ks
                ((as.map t.denote).map (Term.substWithin H τ levels)) := by
            apply Reads.mapM (interns_substituteWithin σ levels) _
              (forall₂_stands has)
            intro u h T g ht hu hh
            exact ih (hσ.mono g ht hu) hh
          refine .bind (.mapM (interns_substituteWithin σ levels) as)
            (interns_construct d) hread ?_
          intro u ks g _ hu hks
          exact reads_construct (hd.stands.mono g ht hu) hks
        · obtain rfl := heq.symm.trans hh.denote
          rw [Term.substWithin, hnone', Option.getD_none]
          split
          · next hs' => cases hs _ hs'
          · next hs' => cases hs _ hs'
          · exact .of_pure hh
      · rw [denote_of_shape? hs rfl |>.symm.trans hh.denote |>.symm,
          Term.substWithin, hsome', Option.getD_some]
        simp only [hsome]
        exact .of_pure hk

theorem reads_substitute {σ : Substitution} {τ : List (Handle × Term)}
    (hσ : t.Substitutes foreign σ τ) (hh : t.Stands foreign h T) :
    Reads foreign H t (substitute σ h)
      fun u k => u.Stands foreign k (T.subst H τ) := by
  rw [substitute, Term.subst, World.isEmpty_eq hσ]
  split
  · exact .of_pure hh
  · exact reads_substituteWithin _ hσ hh

/-! ## Supertypes -/

theorem forall₂_statedSupertypes (ht : t.Shows foreign H) {d : Definition}
    (hd : t.shape? k = some (.named d)) (h : Handle) :
    List.Forall₂ (t.Stands foreign) (t.statedSupertypes h d)
      ((t.statedSupertypes h d).map t.denote) := by
  apply forall₂_stands
  intro c hc
  rcases mem_statedSupertypes.mp hc with ⟨hbase, -⟩ | hc
  · exact ht.wellFormed.admits_base hd hbase
  · exact ht.wellFormed.admits_interface hd hc

theorem mem_map_statedSupertypes (ht : t.Shows foreign H) {d : Definition}
    (hd : t.shape? k = some (.named d)) (hh : t.Stands foreign h T) {S : Term} :
    S ∈ (t.statedSupertypes h d).map t.denote ↔
      Hierarchy.States (t.nominal d) T S := by
  simp only [List.mem_map, mem_statedSupertypes, Hierarchy.States, nominal,
    Option.map_eq_some_iff]
  constructor
  · rintro ⟨c, ⟨hbase, hne⟩ | hc, rfl⟩
    · refine .inr ⟨⟨c, hbase, rfl⟩, fun heq => hne ?_⟩
      exact ht.denote_injective (ht.wellFormed.admits_base hd hbase) hh.admits
        (heq.trans hh.denote.symm)
    · exact .inl ⟨c, hc, rfl⟩
  · rintro (⟨c, hc, rfl⟩ | ⟨⟨c, hbase, rfl⟩, hne⟩)
    · exact ⟨c, .inr hc, rfl⟩
    · refine ⟨c, .inl ⟨hbase, ?_⟩, rfl⟩
      rintro rfl
      exact hne hh.denote

/-- What the hierarchy says about a definition. -/
theorem definition?_eq_some_of_shape? (ht : t.Shows foreign H) {d : Definition}
    (hd : t.shape? h = some (.named d)) :
    H.definition? h = some (t.nominal d) := by
  rw [← ht.hierarchy, definition?_hierarchy, definition?_eq_some_iff.mpr hd]
  rfl

/-- Of the types that are no constructed ones, only definitions have
supertypes. -/
theorem named_of_supertype_atom (ht : t.Shows foreign H) {S : Term}
    (hS : H.Supertype (.atom h) S) : ∃ d, t.shape? h = some (.named d) := by
  obtain ⟨_, hd, _⟩ := Hierarchy.supertype_atom_iff.mp hS
  rw [← ht.hierarchy, definition?_hierarchy, Option.map_eq_some_iff] at hd
  obtain ⟨d, hd, -⟩ := hd
  exact ⟨d, definition?_eq_some_iff.mp hd⟩

/-- The supertypes of a constructed type are the stated ones of its definition,
with the arguments put in. -/
theorem mem_map_subst_statedSupertypes (ht : t.Shows foreign H) {d : Definition}
    (hd : t.shape? k = some (.named d)) {As : List Term}
    (hh : t.Stands foreign h (.applied (t.denote k) As)) {S : Term} :
    S ∈ ((t.statedSupertypes h d).map t.denote).map
        (Term.subst H (d.parameters.zip As)) ↔
      H.Supertype (.applied (t.denote k) As) S := by
  rw [Hierarchy.supertype_applied_iff, List.mem_map]
  constructor
  · rintro ⟨S', hS', rfl⟩
    exact ⟨k, t.nominal d, denote_of_shape? hd rfl,
      definition?_eq_some_of_shape? ht hd, S',
      (mem_map_statedSupertypes ht hd hh).mp hS', rfl⟩
  · rintro ⟨k', d', heq, hd', S', hS', rfl⟩
    obtain rfl := ht.eq_of_denote_eq_atom heq
    obtain rfl := Option.some.inj
      ((definition?_eq_some_of_shape? ht hd).symm.trans hd')
    exact ⟨S', (mem_map_statedSupertypes ht hd hh).mpr hS', rfl⟩

/-- The supertypes that the table answers stand for those of the hierarchy. -/
theorem reads_supertypes (hh : t.Stands foreign h T) :
    Reads foreign H t (supertypes h) fun u ks =>
      ∃ Ts, List.Forall₂ (u.Stands foreign) ks Ts ∧
        ∀ S, S ∈ Ts ↔ H.Supertype T S := by
  apply Reads.of_shows
  intro ht
  have hnone : (∀ S, ¬H.Supertype T S) →
      ∃ Ts, List.Forall₂ (t.Stands foreign) [] Ts ∧
        ∀ S, S ∈ Ts ↔ H.Supertype T S :=
    fun hS => ⟨[], .nil, fun S => by simp [hS]⟩
  apply Reads.get_bind
  rcases ht.denote_cases h with ⟨e, hs, heq⟩ | ⟨k, as, hs, heq⟩ | ⟨hs, heq⟩
  · obtain rfl := heq.symm.trans hh.denote
    rw [hs]
    refine .of_pure (hnone fun S hS => ?_)
    cases hS
  · obtain rfl := heq.symm.trans hh.denote
    simp only [hs]
    have hk := (ht.admits_part hs (List.mem_cons_self ..)).stands
    have has : ∀ a ∈ as, t.Admits foreign a := fun a ha =>
      ht.admits_part hs (List.mem_cons_of_mem k ha)
    cases hd : t.definition? k with
    | none =>
        refine .of_pure (hnone fun S hS => ?_)
        obtain ⟨c, d, heq, hd', -⟩ := Hierarchy.supertype_applied_iff.mp hS
        have hbind := definition?_stands ht hk
        rw [hd, heq, Term.handle?, Option.bind_some, hd'] at hbind
        cases hbind
    | some d =>
        have hshape := definition?_eq_some_iff.mp hd
        have hσ := substitutes_zip (ht.wellFormed.owned hshape).parameter
          (forall₂_stands has)
        have hread := Reads.mapM
          (F := Term.subst H (d.parameters.zip (as.map t.denote)))
          (interns_substitute (d.parameters.zip as))
          (fun g ht hu hh => reads_substitute (hσ.mono g ht hu) hh)
          (forall₂_statedSupertypes ht hshape h)
        exact hread.mono fun hks =>
          ⟨_, hks, fun S => mem_map_subst_statedSupertypes ht hshape hh⟩
  · obtain rfl := heq.symm.trans hh.denote
    split
    · next d hd =>
        refine .of_pure ⟨_, forall₂_statedSupertypes ht hd h, fun S => ?_⟩
        rw [mem_map_statedSupertypes ht hd hh, Hierarchy.supertype_atom_iff,
          definition?_eq_some_of_shape? ht hd]
        simp
    · next hs' => cases hs _ hs'
    · next hnamed _ =>
        refine .of_pure (hnone fun S hS => ?_)
        obtain ⟨d, hd⟩ := named_of_supertype_atom ht hS
        exact absurd hd (hnamed d)

end Verdicts.Table
