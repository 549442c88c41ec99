import Verdicts.Proofs.Correspondence.Assignability
import Verdicts.Proofs.Types.Declaring

/-!
# Declaring types in corresponding tables

Tables correspond after corresponding declarations, and after the same change to
linked definitions.
-/

namespace Verdicts.Table

variable {foreign : Handle → Prop} {ρ : World} {t u : Table} {a b : Handle}
  {s s' : Shape}

/-! ## Storing -/

/-- Corresponding tables that store corresponding shapes correspond. -/
theorem Matches.push (m : t.Matches foreign ρ u) (hfit : t.Fits foreign s)
    (hfit' : u.Fits foreign s') (hm : s.Matches ρ s')
    (ha : (t.push s).Avoids foreign) (ha' : (u.push s').Avoids foreign) :
    (t.push s).Matches foreign (ρ.link t.fresh u.fresh) (u.push s') where
  left := m.left.push hfit
  right := m.right.push hfit'
  avoidsLeft := ha
  avoidsRight := ha'
  shape {x y} h := by
    have hle := ρ.le_link t.fresh u.fresh
    rcases h with h | ⟨rfl, rfl⟩
    · obtain ⟨z, z', hz, hz', hzm⟩ | ⟨-, -, rfl, hf⟩ := m.shape_cases h
      · rw [shape?_push_of_shape? hz, shape?_push_of_shape? hz']
        exact .some (hzm.mono hle)
      · rw [knows_eq_false_iff.mp (ha x hf), knows_eq_false_iff.mp (ha' x hf)]
        exact .none
    · rw [shape?_push_fresh, shape?_push_fresh]
      exact .some (hm.mono hle)
  unknown {x y} h hnone := by
    rcases h with h | ⟨rfl, rfl⟩
    · obtain ⟨z, z', hz, -⟩ | ⟨-, -, heq, hf⟩ := m.shape_cases h
      · rw [shape?_push_of_shape? hz] at hnone
        cases hnone
      · exact ⟨heq, hf⟩
    · rw [shape?_push_fresh] at hnone
      cases hnone
  rightUnique := by
    have hnew : ∀ {y}, ¬ρ t.fresh y := by
      intro y hy
      rcases m.admitsLeft hy with hk | hf
      · rw [t.knows_fresh] at hk
        cases hk
      · have hk := ha _ hf
        rw [knows_push_iff.mpr (.inl rfl)] at hk
        cases hk
    rintro x y z (hxy | ⟨rfl, rfl⟩) (hxz | ⟨heq, rfl⟩)
    · exact m.rightUnique hxy hxz
    · exact (hnew (heq ▸ hxy)).elim
    · exact (hnew hxz).elim
    · rfl
  leftUnique := by
    have hnew : ∀ {x}, ¬ρ x u.fresh := by
      intro x hx
      rcases m.admitsRight hx with hk | hf
      · rw [u.knows_fresh] at hk
        cases hk
      · have hk := ha' _ hf
        rw [knows_push_iff.mpr (.inl rfl)] at hk
        cases hk
    rintro x y z (hxz | ⟨rfl, rfl⟩) (hyz | ⟨rfl, heq⟩)
    · exact m.leftUnique hxz hyz
    · exact (hnew (heq ▸ hxz)).elim
    · exact (hnew hyz).elim
    · rfl
  named name := by
    have hold := World.rel_mono (ρ.le_link t.fresh u.fresh) (m.named name)
    cases hm with
    | named hd =>
        rw [named?_push_named, named?_push_named, hd.name]
        split
        · exact .some (ρ.link_self _ _)
        · exact hold
    | array | constructed | parameter | other =>
        rw [named?_push_of_not_named name (by simp),
          named?_push_of_not_named name (by simp)]
        exact hold
  builtIn c := by
    have hold := World.rel_mono (ρ.le_link t.fresh u.fresh) (m.builtIn c)
    cases hm with
    | named hd =>
        rw [builtIn?_push_named, builtIn?_push_named, hd.builtIn]
        split
        · exact .some (ρ.link_self _ _)
        · exact hold
    | array | constructed | parameter | other =>
        rw [builtIn?_push_of_not_named c (by simp),
          builtIn?_push_of_not_named c (by simp)]
        exact hold
  conversions := m.conversions.imp fun _ _ h =>
    ConversionsMatch.mono (ρ.le_link t.fresh u.fresh) h

/-! ## Declaring -/

/-- Type parameters with the same name, whose demands correspond. -/
abbrev ParametersMatch (ρ : World) (p q : String × Constraints) : Prop :=
  p.1 = q.1 ∧ p.2.Matches ρ q.2

theorem ParametersMatch.mono {ρ' : World} (h : ρ ≤ ρ')
    {p q : String × Constraints} (hpq : ParametersMatch ρ p q) :
    ParametersMatch ρ' p q :=
  ⟨hpq.1, hpq.2.mono h⟩

/-- Declarations that are the same, up to the linked handles. -/
structure Declaration.Matches (ρ : World) (d e : Declaration) : Prop where
  name : d.name = e.name
  kind : d.kind = e.kind
  builtIn : d.builtIn = e.builtIn
  isClosed : d.isClosed = e.isClosed
  base : Option.Rel ρ d.base e.base
  interfaces : List.Forall₂ ρ d.interfaces e.interfaces
  parameters : List.Forall₂ (ParametersMatch ρ) d.parameters e.parameters

theorem Avoids.of_withParameters {ps : List (String × Constraints)}
    (ha : (t.withParameters ps).Avoids foreign) : t.Avoids foreign := by
  induction ps generalizing t with
  | nil => exact ha
  | cons p ps ih => exact (ih ha).of_push

theorem Matches.withParameters (m : t.Matches foreign ρ u)
    {ps qs : List (String × Constraints)}
    (hps : List.Forall₂ (ParametersMatch ρ) ps qs)
    (ha : (t.withParameters ps).Avoids foreign)
    (ha' : (u.withParameters qs).Avoids foreign) :
    ∃ ρ', ρ ≤ ρ' ∧
      (t.withParameters ps).Matches foreign ρ' (u.withParameters qs) ∧
      List.Forall₂ ρ' (t.upcoming ps.length) (u.upcoming qs.length) := by
  induction ps generalizing t u ρ qs with
  | nil =>
      cases hps
      exact ⟨ρ, le_refl ρ, m, .nil⟩
  | cons p ps ih =>
      cases hps with | @cons _ q _ qs hpq hps =>
      obtain ⟨hname, hc⟩ := hpq
      have hm : Shape.Matches ρ (.parameter p.1 p.2) (.parameter q.1 q.2) := by
        rw [hname]
        exact .parameter hc
      have hpush := Matches.push m
        (fits_parameter p.1 (m.admitsLeft_all hc.types))
        (fits_parameter q.1 (m.admitsRight_all hc.types)) hm
        (Avoids.of_withParameters ha) (Avoids.of_withParameters ha')
      have hle := ρ.le_link t.fresh u.fresh
      obtain ⟨ρ', hle', m', hupcoming⟩ :=
        ih hpush (hps.imp fun _ _ => ParametersMatch.mono hle) ha ha'
      refine ⟨ρ', le_trans hle hle', m', ?_⟩
      rw [List.length_cons, List.length_cons,
        t.upcoming_succ (.parameter p.1 p.2),
        u.upcoming_succ (.parameter q.1 q.2)]
      exact .cons (hle' _ _ (ρ.link_self _ _)) hupcoming

theorem Declaration.Matches.handed {d e : Declaration} (hd : d.Matches ρ e) :
    List.Forall₂ ρ d.handed e.handed := by
  apply List.rel_append
  · exact List.rel_append (World.forall₂_toList hd.base) hd.interfaces
  · exact List.rel_flatMap hd.parameters fun _ _ hpq => hpq.2.types

theorem agree_declare {d e : Declaration} (hd : d.Matches ρ e) :
    Agree foreign ρ (declare d) (declare e) Linked := by
  intro t u m ha ha'
  obtain ⟨a, b, hn, hn', hab⟩ | ⟨hn, hn'⟩ :=
    World.rel_cases (Matches.named m d.name)
  · rw [declare_apply_of_named hn, declare_apply_of_named (hd.name ▸ hn')]
    exact ⟨ρ, le_refl ρ, m, hab⟩
  · rw [hd.name] at hn'
    rw [declare_apply_of_unnamed hn] at ha ⊢
    rw [declare_apply_of_unnamed hn'] at ha' ⊢
    obtain ⟨ρ', hle, m', hupcoming⟩ :=
      Matches.withParameters m hd.parameters ha.of_push ha'.of_push
    have hm : Shape.Matches ρ' (.named (t.declared d))
        (.named (u.declared e)) :=
      .named ⟨hd.name, hd.kind, hd.builtIn, hd.isClosed,
        World.rel_mono hle hd.base, World.forall₂_mono hle hd.interfaces,
        hupcoming⟩
    exact ⟨_, le_trans hle (ρ'.le_link _ _),
      Matches.push m' (fits_declared hn (m.admitsLeft_all hd.handed))
        (fits_declared hn' (m.admitsRight_all hd.handed)) hm ha ha',
      ρ'.link_self _ _⟩

/-! ## Changing links -/

/-- Corresponding tables correspond after linked definitions are changed
alike. -/
theorem Matches.redefined (m : t.Matches foreign ρ u) (hab : ρ a b)
    {change change' : Definition → Definition} (hchange : Relinks change)
    (hchange' : Relinks change')
    (hd : ∀ {d e}, d.Matches ρ e → (change d).Matches ρ (change' e))
    (w : (t.redefined a change).WellFormed foreign)
    (w' : (u.redefined b change').WellFormed foreign) :
    (t.redefined a change).Matches foreign ρ (u.redefined b change') where
  left := w
  right := w'
  avoidsLeft h hh := by
    rw [knows_redefined, m.avoidsLeft h hh]
  avoidsRight h hh := by
    rw [knows_redefined, m.avoidsRight h hh]
  shape {x y} h := by
    rw [shape?_redefined, shape?_redefined]
    by_cases hx : x = a
    · rw [if_pos hx, if_pos ((m.eq_iff h hab).mp hx)]
      obtain ⟨z, z', hz, hz', hzm⟩ | ⟨hz, hz', -⟩ := m.shape_cases h
      · rw [hz, hz']
        apply Option.Rel.some
        cases hzm with
        | named hde => exact .named (hd hde)
        | array he => exact .array he
        | constructed hd hl => exact .constructed hd hl
        | parameter hc => exact .parameter hc
        | other => exact .other
      · rw [hz, hz']
        exact .none
    · rw [if_neg hx, if_neg (mt (m.eq_iff h hab).mpr hx)]
      exact m.shape h
  unknown {x y} h hnone := by
    apply m.unknown h
    rwa [← knows_eq_false_iff, knows_redefined, knows_eq_false_iff] at hnone
  rightUnique := m.rightUnique
  leftUnique := m.leftUnique
  named name := by
    rw [hchange.named?_redefined, hchange'.named?_redefined]
    exact m.named name
  builtIn c := by
    rw [hchange.builtIn?_redefined, hchange'.builtIn?_redefined]
    exact m.builtIn c
  conversions := by
    rw [conversions_redefined, conversions_redefined]
    exact m.conversions

theorem agree_setBase {base base' : Handle} (h : ρ a b) (hb : ρ base base') :
    Agree foreign ρ (setBase a base) (setBase b base') Same := by
  intro t u m _ _
  refine ⟨ρ, le_refl ρ, ?_, rfl⟩
  apply Matches.redefined m h (relinks_setBase base) (relinks_setBase base')
  · intro d e hd
    exact ⟨hd.name, hd.kind, hd.builtIn, hd.isClosed, .some hb, hd.interfaces,
      hd.parameters⟩
  · exact WellFormed.setBase m.left (m.admitsLeft hb)
  · exact WellFormed.setBase m.right (m.admitsRight hb)

theorem Matches.mem_iff (m : t.Matches foreign ρ u) (h : ρ a b)
    {as bs : List Handle} (hs : List.Forall₂ ρ as bs) : a ∈ as ↔ b ∈ bs := by
  induction hs with
  | nil => simp
  | cons hxy _ ih =>
      rw [List.mem_cons, List.mem_cons, m.eq_iff h hxy, ih]

theorem agree_addInterface {interface interface' : Handle} (h : ρ a b)
    (hi : ρ interface interface') :
    Agree foreign ρ (addInterface a interface) (addInterface b interface')
      Same := by
  intro t u m _ _
  refine ⟨ρ, le_refl ρ, ?_, rfl⟩
  apply Matches.redefined m h (relinks_addInterface interface)
    (relinks_addInterface interface')
  · intro d e hd
    have hmem := Matches.mem_iff m hi hd.interfaces
    by_cases hc : interface ∈ d.interfaces
    · rw [if_pos hc, if_pos (hmem.mp hc)]
      exact hd
    · rw [if_neg hc, if_neg (mt hmem.mpr hc)]
      exact ⟨hd.name, hd.kind, hd.builtIn, hd.isClosed, hd.base,
        List.rel_append hd.interfaces (.cons hi .nil), hd.parameters⟩
  · exact WellFormed.addInterface m.left (m.admitsLeft hi)
  · exact WellFormed.addInterface m.right (m.admitsRight hi)

theorem agree_addConversion {source source' destination destination' : Handle}
    (hs : ρ source source') (hd : ρ destination destination')
    (implicit : Bool) :
    Agree foreign ρ (addConversion source destination implicit)
      (addConversion source' destination' implicit) Same := by
  intro t u m ha ha'
  refine ⟨ρ, le_refl ρ, ?_, rfl⟩
  exact
    { left := m.left.addConversion (m.admitsLeft hs) (m.admitsLeft hd) implicit
      right :=
        m.right.addConversion (m.admitsRight hs) (m.admitsRight hd) implicit
      avoidsLeft := ha
      avoidsRight := ha'
      shape := m.shape
      unknown := m.unknown
      rightUnique := m.rightUnique
      leftUnique := m.leftUnique
      named := fun name => by
        rw [named?_addConversion, named?_addConversion]
        exact m.named name
      builtIn := fun b => by
        rw [builtIn?_addConversion, builtIn?_addConversion]
        exact m.builtIn b
      conversions := .cons ⟨hs, hd, rfl⟩ m.conversions }

end Verdicts.Table
