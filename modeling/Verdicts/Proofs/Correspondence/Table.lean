import Mathlib.Data.List.Forall2
import Mathlib.Order.Basic
import Verdicts.Proofs.Types.Storing

/-!
# Corresponding tables

Two tables may hold the same types under different handles.  A world tells which
handle of the one table stands for which handle of the other; the tables
correspond in a world when the shapes of linked handles are made of linked
handles, and names, built-in types and conversions are linked.

Worlds only grow: storing a shape on both sides links its two handles and
leaves all other links as they are.
-/

namespace Verdicts

/-- Which handle of one table stands for which handle of another. -/
abbrev World := Handle → Handle → Prop

namespace World

variable {ρ ρ' : World} {a b : Handle}

/-- The world with one more link. -/
def link (ρ : World) (a b : Handle) : World := fun x y =>
  ρ x y ∨ (x = a ∧ y = b)

theorem le_link (ρ : World) (a b : Handle) : ρ ≤ ρ.link a b :=
  fun _ _ hxy => .inl hxy

theorem link_self (ρ : World) (a b : Handle) : ρ.link a b a b :=
  .inr ⟨rfl, rfl⟩

theorem forall₂_mono (h : ρ ≤ ρ') {as bs : List Handle}
    (hl : List.Forall₂ ρ as bs) : List.Forall₂ ρ' as bs :=
  hl.imp h

theorem rel_mono (h : ρ ≤ ρ') {a b : Option Handle}
    (hl : Option.Rel ρ a b) : Option.Rel ρ' a b := by
  cases hl with
  | some hab => exact .some (h _ _ hab)
  | none => exact .none

theorem rel_cases {α β : Type} {R : α → β → Prop} {x : Option α} {y : Option β}
    (h : Option.Rel R x y) :
    (∃ a b, x = some a ∧ y = some b ∧ R a b) ∨ (x = none ∧ y = none) := by
  cases h with
  | some hab => exact .inl ⟨_, _, rfl, rfl, hab⟩
  | none => exact .inr ⟨rfl, rfl⟩

theorem isEmpty_eq {α β : Type} {R : α → β → Prop} {as : List α} {bs : List β}
    (h : List.Forall₂ R as bs) : as.isEmpty = bs.isEmpty := by
  cases h <;> rfl

theorem rel_orElse {x y x' y' : Option Handle} (h : Option.Rel ρ x y)
    (h' : Option.Rel ρ x' y') : Option.Rel ρ (x <|> x') (y <|> y') := by
  cases h with
  | some hab => exact .some hab
  | none => exact h'

theorem forall₂_toList {x y : Option Handle} (h : Option.Rel ρ x y) :
    List.Forall₂ ρ x.toList y.toList := by
  cases h with
  | some hab => exact .cons hab .nil
  | none => exact .nil

/-- The same entries paired with linked handles. -/
theorem forall₂_zip {γ : Type} (l : List γ) {as bs : List Handle}
    (h : List.Forall₂ ρ as bs) :
    List.Forall₂ (fun x y => x.1 = y.1 ∧ ρ x.2 y.2) (l.zip as) (l.zip bs) := by
  induction h generalizing l with
  | nil =>
      rw [List.zip_nil_right]
      exact .nil
  | cons hab _ ih =>
      cases l with
      | nil => exact .nil
      | cons c l => exact .cons ⟨rfl, hab⟩ (ih l)

/-- Association lists with the same keys have corresponding entries. -/
theorem rel_lookup {κ α β : Type} [BEq κ] {R : α → β → Prop}
    {l : List (κ × α)} {l' : List (κ × β)}
    (h : List.Forall₂ (fun x y => x.1 = y.1 ∧ R x.2 y.2) l l') (k : κ) :
    Option.Rel R (l.lookup k) (l'.lookup k) := by
  induction h with
  | nil => exact .none
  | @cons x y _ _ hxy _ ih =>
      obtain ⟨x₁, x₂⟩ := x
      obtain ⟨y₁, y₂⟩ := y
      obtain ⟨heq, hR⟩ := hxy
      simp only at heq
      rw [List.lookup_cons, List.lookup_cons, heq]
      split
      · exact .some hR
      · exact ih

end World

/-! ## Corresponding shapes -/

/-- Demands that are the same, up to the linked handles. -/
structure Constraints.Matches (ρ : World) (c c' : Constraints) : Prop where
  valueType : c.valueType = c'.valueType
  referenceType : c.referenceType = c'.referenceType
  constructible : c.constructible = c'.constructible
  types : List.Forall₂ ρ c.types c'.types

/-- Definitions that are the same, up to the linked handles. -/
structure Definition.Matches (ρ : World) (d e : Definition) : Prop where
  name : d.name = e.name
  kind : d.kind = e.kind
  builtIn : d.builtIn = e.builtIn
  isClosed : d.isClosed = e.isClosed
  base : Option.Rel ρ d.base e.base
  interfaces : List.Forall₂ ρ d.interfaces e.interfaces
  parameters : List.Forall₂ ρ d.parameters e.parameters

/-- Shapes that are the same, up to the linked handles. -/
inductive Shape.Matches (ρ : World) : Shape → Shape → Prop where
  | named {d e} (h : d.Matches ρ e) : Matches ρ (.named d) (.named e)
  | array {a b} (h : ρ a b) : Matches ρ (.array a) (.array b)
  | constructed {a b as bs} (h : ρ a b) (hs : List.Forall₂ ρ as bs) :
      Matches ρ (.constructed a as) (.constructed b bs)
  | parameter {name c c'} (h : c.Matches ρ c') :
      Matches ρ (.parameter name c) (.parameter name c')
  | other {name kind} : Matches ρ (.other name kind) (.other name kind)

section

variable {ρ ρ' : World} {s s' s'' : Shape}

theorem Constraints.Matches.mono (h : ρ ≤ ρ') {c c' : Constraints}
    (hc : c.Matches ρ c') : c.Matches ρ' c' :=
  ⟨hc.valueType, hc.referenceType, hc.constructible,
    World.forall₂_mono h hc.types⟩

theorem Definition.Matches.mono (h : ρ ≤ ρ') {d e : Definition}
    (hd : d.Matches ρ e) : d.Matches ρ' e :=
  ⟨hd.name, hd.kind, hd.builtIn, hd.isClosed, World.rel_mono h hd.base,
    World.forall₂_mono h hd.interfaces, World.forall₂_mono h hd.parameters⟩

namespace Shape.Matches

theorem mono (h : ρ ≤ ρ') (hs : s.Matches ρ s') : s.Matches ρ' s' := by
  cases hs with
  | named hd => exact .named (hd.mono h)
  | array he => exact .array (h _ _ he)
  | constructed hd hl => exact .constructed (h _ _ hd) (World.forall₂_mono h hl)
  | parameter hc => exact .parameter (hc.mono h)
  | other => exact .other

theorem isStructural_eq (hs : s.Matches ρ s') :
    s.isStructural = s'.isStructural := by
  cases hs <;> rfl

/-- A shape matches itself when every handle in it is linked to itself. -/
theorem of_self (hparts : ∀ c ∈ s.parts, ρ c c) (hlinks : ∀ c ∈ s.links, ρ c c) :
    s.Matches ρ s := by
  have hself : ∀ {l : List Handle}, (∀ c ∈ l, ρ c c) → List.Forall₂ ρ l l :=
    fun hl => List.forall₂_same.mpr hl
  cases s with
  | named d =>
      refine .named ⟨rfl, rfl, rfl, rfl, ?_, ?_, hself hparts⟩
      · cases hd : d.base with
        | none => exact .none
        | some c => exact .some (hlinks c (by simp [Shape.links, hd]))
      · exact hself fun c hc => hlinks c (List.mem_append_right _ hc)
  | array e => exact .array (hparts e (List.mem_singleton_self e))
  | constructed d as =>
      rw [Shape.parts, List.forall_mem_cons] at hparts
      exact .constructed hparts.1 (hself hparts.2)
  | parameter name c => exact .parameter ⟨rfl, rfl, rfl, hself hparts⟩
  | other name kind => exact .other

/-- A structure has one counterpart at most. -/
theorem right_unique (hρ : Relator.RightUnique ρ)
    (hstr : s.isStructural = true) (hs : s.Matches ρ s')
    (hs' : s.Matches ρ s'') : s' = s'' := by
  cases hs with
  | array he =>
      cases hs' with
      | array he' => rw [hρ he he']
  | constructed hd hl =>
      cases hs' with
      | constructed hd' hl' => rw [hρ hd hd', hρ.forall₂ hl hl']
  | named | parameter | other => cases hstr

theorem left_unique (hρ : Relator.LeftUnique ρ)
    (hstr : s''.isStructural = true) (hs : s.Matches ρ s'')
    (hs' : s'.Matches ρ s'') : s = s' := by
  cases hs with
  | array he =>
      cases hs' with
      | array he' => rw [hρ he he']
  | constructed hd hl =>
      cases hs' with
      | constructed hd' hl' => rw [hρ hd hd', hρ.forall₂ hl hl']
  | named | parameter | other => cases hstr

end Shape.Matches

end

/-! ## Corresponding tables -/

/-- A conversion between linked types. -/
def ConversionsMatch (ρ : World) (x y : (Handle × Handle) × Bool) : Prop :=
  ρ x.1.1 y.1.1 ∧ ρ x.1.2 y.1.2 ∧ x.2 = y.2

theorem ConversionsMatch.mono {ρ ρ' : World} (h : ρ ≤ ρ')
    {x y : (Handle × Handle) × Bool} (hxy : ConversionsMatch ρ x y) :
    ConversionsMatch ρ' x y :=
  ⟨h _ _ hxy.1, h _ _ hxy.2.1, hxy.2.2⟩

/-- Tables that hold the same types where handles are linked. -/
structure Table.Matches (foreign : Handle → Prop) (ρ : World) (t u : Table) :
    Prop where
  left : t.WellFormed foreign
  right : u.WellFormed foreign
  avoidsLeft : t.Avoids foreign
  avoidsRight : u.Avoids foreign
  shape : ∀ {a b}, ρ a b → Option.Rel (Shape.Matches ρ) (t.shape? a) (u.shape? b)
  unknown : ∀ {a b}, ρ a b → t.shape? a = none → a = b ∧ foreign a
  rightUnique : Relator.RightUnique ρ
  leftUnique : Relator.LeftUnique ρ
  named : ∀ name, Option.Rel ρ (t.named? name) (u.named? name)
  builtIn : ∀ b, Option.Rel ρ (t.builtIn? b) (u.builtIn? b)
  conversions :
    List.Forall₂ (ConversionsMatch ρ) t.conversions u.conversions

namespace Table

variable {foreign : Handle → Prop} {ρ ρ' : World} {t t' u u' : Table}
  {a b : Handle} {s s' : Shape}

/-- The world in which each admitted handle stands for itself. -/
def itself (foreign : Handle → Prop) (t : Table) : World := fun a b =>
  t.Admits foreign a ∧ a = b

namespace Matches

variable (m : t.Matches foreign ρ u)
include m

theorem shape_cases (h : ρ a b) :
    (∃ s s', t.shape? a = some s ∧ u.shape? b = some s' ∧ s.Matches ρ s') ∨
      (t.shape? a = none ∧ u.shape? b = none ∧ a = b ∧ foreign a) := by
  have hs := m.shape h
  have hunknown := m.unknown h
  cases ha : t.shape? a with
  | none =>
      rw [ha] at hs
      cases hb : u.shape? b with
      | none => exact .inr ⟨rfl, rfl, hunknown ha⟩
      | some s' =>
          rw [hb] at hs
          cases hs
  | some s =>
      rw [ha] at hs
      cases hb : u.shape? b with
      | none =>
          rw [hb] at hs
          cases hs
      | some s' =>
          rw [hb] at hs
          cases hs with
          | some hs => exact .inl ⟨s, s', rfl, rfl, hs⟩

theorem shape_left (h : ρ a b) (hs : t.shape? a = some s) :
    ∃ s', u.shape? b = some s' ∧ s.Matches ρ s' := by
  obtain ⟨s₁, s', hs₁, hs', hm⟩ | ⟨hnone, -⟩ := m.shape_cases h
  · obtain rfl := Option.some.inj (hs₁.symm.trans hs)
    exact ⟨s', hs', hm⟩
  · rw [hnone] at hs
    cases hs

theorem shape_right (h : ρ a b) (hs : u.shape? b = some s') :
    ∃ s, t.shape? a = some s ∧ s.Matches ρ s' := by
  obtain ⟨s, s₁, hs₁, hs', hm⟩ | ⟨-, hnone, -⟩ := m.shape_cases h
  · obtain rfl := Option.some.inj (hs'.symm.trans hs)
    exact ⟨s, hs₁, hm⟩
  · rw [hnone] at hs
    cases hs

theorem knows_eq (h : ρ a b) : t.knows a = u.knows b := by
  obtain ⟨s, s', hs, hs', -⟩ | ⟨hs, hs', -⟩ := m.shape_cases h
  · rw [knows, knows, hs, hs']
    rfl
  · rw [knows, knows, hs, hs']

theorem admitsLeft (h : ρ a b) : t.Admits foreign a := by
  obtain ⟨s, -, hs, -⟩ | ⟨-, -, -, hforeign⟩ := m.shape_cases h
  · exact .inl (knows_of_shape? hs)
  · exact .inr hforeign

theorem admitsRight (h : ρ a b) : u.Admits foreign b := by
  obtain ⟨-, s', -, hs', -⟩ | ⟨-, -, rfl, hforeign⟩ := m.shape_cases h
  · exact .inl (knows_of_shape? hs')
  · exact .inr hforeign

theorem admitsLeft_all {as bs : List Handle} (h : List.Forall₂ ρ as bs) :
    ∀ a ∈ as, t.Admits foreign a := by
  induction h with
  | nil => simp
  | cons hab _ ih => exact List.forall_mem_cons.mpr ⟨m.admitsLeft hab, ih⟩

theorem admitsRight_all {as bs : List Handle} (h : List.Forall₂ ρ as bs) :
    ∀ b ∈ bs, u.Admits foreign b := by
  induction h with
  | nil => simp
  | cons hab _ ih => exact List.forall_mem_cons.mpr ⟨m.admitsRight hab, ih⟩

/-- A link tells handles of the one table apart as those of the other. -/
theorem eq_iff {a' b' : Handle} (h : ρ a b) (h' : ρ a' b') :
    a = a' ↔ b = b' := by
  constructor
  · rintro rfl
    exact m.rightUnique h h'
  · rintro rfl
    exact m.leftUnique h h'

/-! ### Growing -/

/-- Corresponding tables correspond after each has interned types. -/
theorem grow (g : t.GrowsTo t') (g' : u.GrowsTo u')
    (w : t'.WellFormed foreign) (w' : u'.WellFormed foreign)
    (ha : t'.Avoids foreign) (ha' : u'.Avoids foreign) :
    t'.Matches foreign ρ u' where
  left := w
  right := w'
  avoidsLeft := ha
  avoidsRight := ha'
  shape {a b} h := by
    obtain ⟨s, s', hs, hs', hm⟩ | ⟨-, -, rfl, hf⟩ := m.shape_cases h
    · rw [g.shape?_of_some hs, g'.shape?_of_some hs']
      exact .some hm
    · rw [knows_eq_false_iff.mp (ha a hf), knows_eq_false_iff.mp (ha' a hf)]
      exact .none
  unknown {a b} h hnone := by
    obtain ⟨s, s', hs, -⟩ | ⟨-, -, heq, hf⟩ := m.shape_cases h
    · rw [g.shape?_of_some hs] at hnone
      cases hnone
    · exact ⟨heq, hf⟩
  rightUnique := m.rightUnique
  leftUnique := m.leftUnique
  named name := by
    rw [g.named?_eq, g'.named?_eq]
    exact m.named name
  builtIn b := by
    rw [g.builtIn?_eq, g'.builtIn?_eq]
    exact m.builtIn b
  conversions := by
    rw [g.conversions, g'.conversions]
    exact m.conversions

/-- Corresponding structures may be linked. -/
theorem link (hs : t.shape? a = some s) (hs' : u.shape? b = some s')
    (hm : s.Matches ρ s') (hstr : s.isStructural = true) :
    t.Matches foreign (ρ.link a b) u where
  left := m.left
  right := m.right
  avoidsLeft := m.avoidsLeft
  avoidsRight := m.avoidsRight
  shape {x y} h := by
    have hle := ρ.le_link a b
    rcases h with h | ⟨rfl, rfl⟩
    · obtain ⟨z, z', hz, hz', hzm⟩ | ⟨hz, hz', -⟩ := m.shape_cases h
      · rw [hz, hz']
        exact .some (hzm.mono hle)
      · rw [hz, hz']
        exact .none
    · rw [hs, hs']
      exact .some (hm.mono hle)
  unknown {x y} h hnone := by
    rcases h with h | ⟨rfl, rfl⟩
    · exact m.unknown h hnone
    · rw [hs] at hnone
      cases hnone
  rightUnique := by
    have hnew : ∀ {y}, ρ a y → y = b := by
      intro y hy
      obtain ⟨z, hz, hzm⟩ := m.shape_left hy hs
      rw [← hm.right_unique m.rightUnique hstr hzm] at hz
      rw [hm.isStructural_eq] at hstr
      exact m.right.interned hstr hz hs'
    rintro x y z (hxy | ⟨rfl, rfl⟩) (hxz | ⟨heq, rfl⟩)
    · exact m.rightUnique hxy hxz
    · exact hnew (heq ▸ hxy)
    · exact (hnew hxz).symm
    · rfl
  leftUnique := by
    have hnew : ∀ {x}, ρ x b → x = a := by
      intro x hx
      obtain ⟨z, hz, hzm⟩ := m.shape_right hx hs'
      rw [hzm.left_unique m.leftUnique (hm.isStructural_eq ▸ hstr) hm] at hz
      exact m.left.interned hstr hz hs
    rintro x y z (hxz | ⟨rfl, rfl⟩) (hyz | ⟨rfl, heq⟩)
    · exact m.leftUnique hxz hyz
    · exact hnew (heq ▸ hxz)
    · exact (hnew hyz).symm
    · rfl
  named name := World.rel_mono (ρ.le_link a b) (m.named name)
  builtIn c := World.rel_mono (ρ.le_link a b) (m.builtIn c)
  conversions :=
    m.conversions.imp fun _ _ h => ConversionsMatch.mono (ρ.le_link a b) h

end Matches

/-- Names and built-in types find linked types. -/
structure FindsAlike (ρ : World) (t u : Table) : Prop where
  named : ∀ name, Option.Rel ρ (t.named? name) (u.named? name)
  builtIn : ∀ b, Option.Rel ρ (t.builtIn? b) (u.builtIn? b)

theorem Matches.findsAlike (m : t.Matches foreign ρ u) : t.FindsAlike ρ u :=
  ⟨m.named, m.builtIn⟩

/-- A table corresponds to what it grows to, each handle to itself. -/
theorem GrowsTo.matches (g : t.GrowsTo u) (w : t.WellFormed foreign)
    (w' : u.WellFormed foreign) (ha : u.Avoids foreign) :
    t.Matches foreign (t.itself foreign) u := by
  have hfound : ∀ {o : Option Handle}, (∀ c ∈ o, t.knows c = true) →
      Option.Rel (t.itself foreign) o o := by
    rintro (_ | c) hc
    · exact .none
    · exact .some ⟨.inl (hc c rfl), rfl⟩
  refine
    { left := w
      right := w'
      avoidsLeft := g.avoids ha
      avoidsRight := ha
      shape := ?_
      unknown := ?_
      rightUnique := fun _ _ _ h h' => h.2.symm.trans h'.2
      leftUnique := fun _ _ _ h h' => h.2.trans h'.2.symm
      named := ?_
      builtIn := ?_
      conversions := ?_ }
  · rintro x _ ⟨hx, rfl⟩
    rcases hx with hx | hx
    · obtain ⟨s, hs⟩ := exists_shape?_of_knows hx
      rw [g.shape?_of_some hs, hs]
      apply Option.Rel.some
      exact .of_self (fun c hc => ⟨w.admits_part hs hc, rfl⟩)
        fun c hc => ⟨w.linked hs hc, rfl⟩
    · rw [knows_eq_false_iff.mp (ha x hx),
        knows_eq_false_iff.mp (g.avoids ha x hx)]
      exact .none
  · rintro x _ ⟨hx, rfl⟩ hnone
    have hk : t.knows x = false := knows_eq_false_iff.mpr hnone
    refine ⟨rfl, hx.resolve_left ?_⟩
    rw [hk]
    exact Bool.noConfusion
  · intro name
    rw [g.named?_eq]
    exact hfound fun c hc => knows_of_named? hc
  · intro b
    rw [g.builtIn?_eq]
    exact hfound fun c hc => knows_of_builtIn? hc
  · rw [g.conversions]
    refine List.forall₂_same.mpr ?_
    rintro ⟨⟨x, y⟩, implicit⟩ hmem
    have hadm := w.converting hmem
    exact ⟨⟨hadm.1, rfl⟩, ⟨hadm.2, rfl⟩, rfl⟩

end Table

end Verdicts
