import Verdicts.Proofs.Types.Storing

/-!
# Declaring and changing types

A declaration stores the type parameters and then the definition, unless the
name is taken.  Later changes concern the base and the interfaces of a
definition only.
-/

namespace Verdicts

/-- A shape whose definition, if it is one, is changed. -/
def Shape.changed (change : Definition → Definition) : Shape → Shape
  | .named d => .named (change d)
  | s => s

namespace Table

variable {foreign : Handle → Prop} {t u : Table} {h k : Handle} {s : Shape}

/-! ## Declaring -/

namespace Declaration

/-- The definition that a declaration stores, given its type parameters. -/
def definition (d : Declaration) (parameters : List Handle) : Definition :=
  ⟨d.name, d.kind, d.builtIn, d.isClosed, d.base, d.interfaces, parameters⟩

/-- The handles that a declaration is handed. -/
def handed (d : Declaration) : List Handle :=
  d.base.toList ++ d.interfaces ++ d.parameters.flatMap fun p => p.2.types

end Declaration

/-- The definition that a declaration stores in a table. -/
def declared (t : Table) (d : Declaration) : Definition :=
  d.definition (t.upcoming d.parameters.length)

theorem declare_apply_of_named {d : Declaration}
    (hh : t.named? d.name = some h) : declare d t = (h, t) := by
  simp [declare, hh]

theorem declare_apply_of_unnamed {d : Declaration}
    (hh : t.named? d.name = none) :
    declare d t =
      ((t.withParameters d.parameters).fresh,
        (t.withParameters d.parameters).push (.named (t.declared d))) := by
  unfold declare
  rw [bind_apply, get_apply]
  simp only [hh]
  rw [bind_apply, mapM_parameter, store_apply]
  rfl

theorem fits_declared {d : Declaration}
    (hnew : t.named? d.name = none)
    (hd : ∀ c ∈ d.handed, t.Admits foreign c) :
    (t.withParameters d.parameters).Fits foreign (.named (t.declared d)) where
  parts c hc := by
    obtain ⟨name, c', hs⟩ := parameter_of_mem_upcoming hc
    exact .inl (knows_of_shape? hs)
  links c hc := by
    apply Admits.withParameters
    exact hd c (List.mem_append_left _ hc)
  new hstr := by cases hstr
  uncollapsed heq := by cases heq
  unnamed heq := by
    cases heq
    rw [named?_withParameters]
    exact hnew
  owned heq := by
    cases heq
    exact ownsParameters_withParameters d.parameters rfl

theorem WellFormed.declare (w : t.WellFormed foreign) {d : Declaration}
    (hd : ∀ c ∈ d.handed, t.Admits foreign c) :
    (declare d t).2.WellFormed foreign := by
  cases hh : t.named? d.name with
  | some h => rwa [declare_apply_of_named hh]
  | none =>
      rw [declare_apply_of_unnamed hh]
      apply WellFormed.push _ (fits_declared hh hd)
      apply w.withParameters
      intro p hp b hb
      apply hd
      exact List.mem_append_right _ (List.mem_flatMap.mpr ⟨p, hp, hb⟩)

theorem shape?_declare_of_shape? (d : Declaration)
    (hs : t.shape? h = some s) : (declare d t).2.shape? h = some s := by
  cases hh : t.named? d.name with
  | some k => rwa [declare_apply_of_named hh]
  | none =>
      rw [declare_apply_of_unnamed hh]
      exact shape?_push_of_shape?
        (shape?_withParameters_of_shape? d.parameters hs)

theorem named?_declare (d : Declaration) (t : Table) (name : String) :
    (declare d t).2.named? name =
      if d.name = name then some (declare d t).1 else t.named? name := by
  cases hh : t.named? d.name with
  | some h =>
      rw [declare_apply_of_named hh]
      split
      · next heq => rw [← heq, hh]
      · rfl
  | none =>
      rw [declare_apply_of_unnamed hh, named?_push_named,
        named?_withParameters]
      rfl

/-! ## Changing links -/

/-- The change concerns the base and the interfaces only. -/
structure Relinks (change : Definition → Definition) : Prop where
  name : ∀ d, (change d).name = d.name
  kind : ∀ d, (change d).kind = d.kind
  builtIn : ∀ d, (change d).builtIn = d.builtIn
  isClosed : ∀ d, (change d).isClosed = d.isClosed
  parameters : ∀ d, (change d).parameters = d.parameters

theorem relinks_setBase (base : Handle) :
    Relinks fun d => { d with base := some base } :=
  ⟨fun _ => rfl, fun _ => rfl, fun _ => rfl, fun _ => rfl, fun _ => rfl⟩

theorem relinks_addInterface (interface : Handle) :
    Relinks fun d =>
      if interface ∈ d.interfaces then d
      else { d with interfaces := d.interfaces ++ [interface] } := by
  constructor <;> intro d <;> split <;> rfl

section

variable {change : Definition → Definition}

/-- The table in which a definition is changed. -/
def redefined (t : Table) (h : Handle) (change : Definition → Definition) :
    Table :=
  (redefine h change t).2

theorem shape?_redefined (t : Table) (h k : Handle) :
    (t.redefined h change).shape? k =
      if k = h then (t.shape? k).map (Shape.changed change)
      else t.shape? k := by
  rcases h with ⟨_ | n⟩
  · change t.shape? k = _
    rcases k with ⟨_ | m⟩ <;> simp [shape?]
  · rcases k with ⟨_ | m⟩
    · simp [shape?]
    · change (t.shapes.modify n (Shape.changed change))[m]? = _
      rw [Array.getElem?_modify]
      simp only [shape?_mk_succ, Handle.mk.injEq, Nat.add_right_cancel_iff,
        eq_comm (a := n)]

theorem conversions_redefined (t : Table) (h : Handle) :
    (t.redefined h change).conversions = t.conversions := by
  rcases h with ⟨_ | n⟩ <;> rfl

theorem knows_redefined (t : Table) (h k : Handle) :
    (t.redefined h change).knows k = t.knows k := by
  rw [knows, shape?_redefined]
  split <;> simp [knows]

theorem admits_redefined_iff :
    (t.redefined h change).Admits foreign k ↔ t.Admits foreign k := by
  rw [Admits, knows_redefined, Admits]

theorem shape?_redefined_eq_some {s' : Shape}
    (hs : (t.redefined h change).shape? k = some s') :
    (k = h ∧ ∃ s, t.shape? k = some s ∧ s.changed change = s') ∨
      t.shape? k = some s' := by
  rw [shape?_redefined] at hs
  split at hs
  · next heq => exact .inl ⟨heq, Option.map_eq_some_iff.mp hs⟩
  · exact .inr hs

theorem shape?_redefined_of_not_named (hs : t.shape? k = some s)
    (hnot : ∀ d, s ≠ .named d) :
    (t.redefined h change).shape? k = some s := by
  rw [shape?_redefined, hs]
  cases s with
  | named d => exact absurd rfl (hnot d)
  | array | constructed | parameter | other => split <;> rfl

theorem shape?_of_redefined (hs : (t.redefined h change).shape? k = some s)
    (hnot : ∀ d, s ≠ .named d) : t.shape? k = some s := by
  obtain ⟨-, s', hs', heq⟩ | hs := shape?_redefined_eq_some hs
  · cases s' with
    | named d => exact absurd heq.symm (hnot _)
    | array | constructed | parameter | other => rwa [← heq]
  · exact hs

theorem newest?_redefined {p : Shape → Bool}
    (hp : ∀ s, p (s.changed change) = p s) :
    (t.redefined h change).newest? p = t.newest? p := by
  have hiff : ∀ k, (∃ s, (t.redefined h change).shape? k = some s ∧
      p s = true) ↔ ∃ s, t.shape? k = some s ∧ p s = true := by
    intro k
    rw [shape?_redefined]
    split
    · cases t.shape? k with
      | none => simp
      | some s => simp [hp]
    · rfl
  have hnone : ∀ {v : Table} {k : Handle},
      (∀ s, v.shape? k = some s → p s = false) ↔
        ¬∃ s, v.shape? k = some s ∧ p s = true := by
    simp
  cases hh : t.newest? p with
  | none =>
      rw [newest?_eq_none_iff] at hh ⊢
      intro k
      rw [hnone, hiff, ← hnone]
      exact hh k
  | some a =>
      rw [newest?_eq_some_iff] at hh ⊢
      refine ⟨(hiff a).mpr hh.1, ?_⟩
      intro k s hlt
      exact (hnone.mpr fun hk =>
        hnone.mp (fun s => hh.2 k s hlt) ((hiff k).mp hk)) s

namespace Relinks

variable (hchange : Relinks change)
include hchange

/-- Behind every definition of a changed table stands one that differs from it
in the links at most. -/
theorem definition_of_redefined {d : Definition}
    (hd : (t.redefined h change).shape? k = some (.named d)) :
    ∃ d', t.shape? k = some (.named d') ∧ d'.name = d.name ∧
      d'.builtIn = d.builtIn ∧ d'.parameters = d.parameters := by
  obtain ⟨-, s, hs, heq⟩ | hs := shape?_redefined_eq_some hd
  · cases s with
    | named d' =>
        cases heq
        exact ⟨d', hs, (hchange.name d').symm, (hchange.builtIn d').symm,
          (hchange.parameters d').symm⟩
    | array | constructed | parameter | other => cases heq
  · exact ⟨d, hs, rfl, rfl, rfl⟩

theorem named?_redefined (t : Table) (h : Handle) (name : String) :
    (t.redefined h change).named? name = t.named? name := by
  apply newest?_redefined
  intro s
  cases s with
  | named d => simp only [Shape.changed, hchange.name]
  | array | constructed | parameter | other => rfl

theorem builtIn?_redefined (t : Table) (h : Handle) (b : BuiltIn) :
    (t.redefined h change).builtIn? b = t.builtIn? b := by
  apply newest?_redefined
  intro s
  cases s with
  | named d => simp only [Shape.changed, hchange.builtIn]
  | array | constructed | parameter | other => rfl

theorem wellFormed_redefined (w : t.WellFormed foreign)
    (hlinks : ∀ d, ∀ c ∈ (Shape.named (change d)).links,
      c ∈ (Shape.named d).links ∨ t.Admits foreign c) :
    (t.redefined h change).WellFormed foreign where
  older {k s c} hs hc := by
    rw [knows_redefined]
    cases s with
    | named d =>
        obtain ⟨d', hd', -, -, hpars⟩ := hchange.definition_of_redefined hs
        apply w.older hd'
        rwa [Shape.parts, hpars]
    | array | constructed | parameter | other =>
        exact w.older (shape?_of_redefined hs (by simp)) hc
  linked {k s c} hs hc := by
    rw [admits_redefined_iff]
    obtain ⟨-, s', hs', rfl⟩ | hs := shape?_redefined_eq_some hs
    · cases s' with
      | named d =>
          rcases hlinks d c hc with hc | hc
          · exact w.linked hs' hc
          · exact hc
      | array | constructed | parameter | other => cases hc
    · exact w.linked hs hc
  interned {a b s} hstr ha hb := by
    have hnot : ∀ d, s ≠ .named d := by
      rintro d rfl
      cases hstr
    exact w.interned hstr (shape?_of_redefined ha hnot)
      (shape?_of_redefined hb hnot)
  nominal {a b d e} ha hb hname := by
    obtain ⟨d', hd', hdname, -, -⟩ := hchange.definition_of_redefined ha
    obtain ⟨e', he', hename, -, -⟩ := hchange.definition_of_redefined hb
    exact w.nominal hd' he' (by rw [hdname, hename, hname])
  uncollapsed {k definition arguments d} hs hd := by
    obtain ⟨d', hd', -, -, hpars⟩ := hchange.definition_of_redefined hd
    rw [← hpars]
    exact w.uncollapsed (shape?_of_redefined hs (by simp)) hd'
  owned {k d} hs := by
    obtain ⟨d', hd', -, -, hpars⟩ := hchange.definition_of_redefined hs
    have hown := w.owned hd'
    refine ⟨hpars ▸ hown.placed, hpars ▸ hown.below, ?_⟩
    rw [← hpars]
    intro p hp
    obtain ⟨name, c, hpar⟩ := hown.parameter p hp
    exact ⟨name, c, shape?_redefined_of_not_named hpar (by simp)⟩
  converting hc := by
    rw [admits_redefined_iff, admits_redefined_iff]
    rw [conversions_redefined] at hc
    exact w.converting hc

end Relinks

end

/-! ## Bases and interfaces -/

theorem WellFormed.setBase (w : t.WellFormed foreign) {base : Handle}
    (hb : t.Admits foreign base) :
    (setBase h base t).2.WellFormed foreign := by
  apply (relinks_setBase base).wellFormed_redefined w
  intro d c hc
  rw [Shape.links, List.mem_append] at hc
  rcases hc with hc | hc
  · obtain rfl : c = base := by simpa using hc
    exact .inr hb
  · exact .inl (List.mem_append_right _ hc)

theorem WellFormed.addInterface (w : t.WellFormed foreign) {interface : Handle}
    (hi : t.Admits foreign interface) :
    (addInterface h interface t).2.WellFormed foreign := by
  apply (relinks_addInterface interface).wellFormed_redefined w
  intro d c hc
  split at hc
  · exact .inl hc
  · rw [Shape.links, List.mem_append] at hc
    simp only [List.mem_append, List.mem_singleton] at hc
    rcases hc with hc | hc | rfl
    · exact .inl (List.mem_append_left _ hc)
    · exact .inl (List.mem_append_right _ hc)
    · exact .inr hi

/-! ## Defining conversions -/

theorem shape?_addConversion (source destination : Handle) (implicit : Bool)
    (t : Table) (h : Handle) :
    (addConversion source destination implicit t).2.shape? h = t.shape? h := by
  rcases h with ⟨_ | n⟩ <;> rfl

theorem named?_addConversion (source destination : Handle) (implicit : Bool)
    (t : Table) (name : String) :
    (addConversion source destination implicit t).2.named? name =
      t.named? name :=
  newest?_congr (shape?_addConversion source destination implicit t) _

theorem builtIn?_addConversion (source destination : Handle) (implicit : Bool)
    (t : Table) (b : BuiltIn) :
    (addConversion source destination implicit t).2.builtIn? b =
      t.builtIn? b :=
  newest?_congr (shape?_addConversion source destination implicit t) _

theorem WellFormed.addConversion (w : t.WellFormed foreign)
    {source destination : Handle} (hs : t.Admits foreign source)
    (hd : t.Admits foreign destination) (implicit : Bool) :
    (addConversion source destination implicit t).2.WellFormed foreign where
  older := w.older
  linked := w.linked
  interned := w.interned
  nominal := w.nominal
  uncollapsed := w.uncollapsed
  owned hh :=
    ⟨(w.owned hh).placed, (w.owned hh).below, (w.owned hh).parameter⟩
  converting hmem := by
    rcases List.mem_cons.mp hmem with heq | hmem
    · cases heq
      exact ⟨hs, hd⟩
    · exact w.converting hmem

end Table

end Verdicts
