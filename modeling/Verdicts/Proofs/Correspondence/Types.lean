import Verdicts.Judgement.Event
import Verdicts.Proofs.Correspondence.Transition

/-!
# What corresponding tables say about linked types

Linked handles have the same kind, the same built-in type, the same name, and
whatever else can be read off their shapes.
-/

namespace Verdicts.Table

variable {foreign : Handle → Prop} {ρ : World} {t u : Table} {a b : Handle}

/-! ## The head of a type -/

theorem head_of_constructed (w : t.WellFormed foreign)
    (ha : t.Avoids foreign) {definition : Handle} {arguments : List Handle}
    (hs : t.shape? a = some (.constructed definition arguments)) :
    t.head a = t.head definition := by
  rw [head, hs]
  simp only
  split
  · rfl
  · next hlt =>
      -- A definition that is not older is foreign, hence its own head.
      obtain ⟨-, hold⟩ | hforeign := w.older hs (List.mem_cons_self ..)
      · exact absurd hold hlt
      · rw [head, knows_eq_false_iff.mp (ha definition hforeign)]

theorem head_of_not_constructed
    (hs : ∀ definition arguments,
      t.shape? a ≠ some (.constructed definition arguments)) :
    t.head a = a := by
  rw [head]
  split
  · next definition arguments hshape =>
      exact absurd hshape (hs definition arguments)
  · rfl

theorem shape?_head_ne_constructed (w : t.WellFormed foreign)
    (ha : t.Avoids foreign) (a : Handle) :
    ∀ definition arguments,
      t.shape? (t.head a) ≠ some (.constructed definition arguments) := by
  induction hn : a.index using Nat.strongRecOn generalizing a with
  | ind n ih =>
      by_cases hs : ∃ definition arguments,
          t.shape? a = some (.constructed definition arguments)
      · obtain ⟨definition, arguments, hs⟩ := hs
        rw [head_of_constructed w ha hs]
        obtain ⟨-, hold⟩ | hforeign := w.older hs (List.mem_cons_self ..)
        · exact ih definition.index (hn ▸ hold) definition rfl
        · have hnone := knows_eq_false_iff.mp (ha definition hforeign)
          rw [head_of_not_constructed (by simp [hnone]), hnone]
          simp
      · rw [not_exists] at hs
        have hnot : ∀ definition arguments,
            t.shape? a ≠ some (.constructed definition arguments) :=
          fun definition arguments h => hs definition ⟨arguments, h⟩
        rwa [head_of_not_constructed hnot]

theorem kind_of_constructed (w : t.WellFormed foreign)
    (ha : t.Avoids foreign) {definition : Handle} {arguments : List Handle}
    (hs : t.shape? a = some (.constructed definition arguments)) :
    t.kind a = t.kind definition := by
  rw [kind, kind, head_of_constructed w ha hs]

theorem kind_of_named {d : Definition} (hs : t.shape? a = some (.named d)) :
    t.kind a = d.kind := by
  rw [kind, head_of_not_constructed (by simp [hs]), hs]

theorem kind_of_unknown (hs : t.shape? a = none) : t.kind a = .unknown := by
  rw [kind, head_of_not_constructed (by simp [hs]), hs]

theorem knows_of_kind_ne_unknown (hk : t.kind a ≠ .unknown) :
    t.knows a = true := by
  cases h : t.knows a with
  | true => rfl
  | false => exact absurd (kind_of_unknown (knows_eq_false_iff.mp h)) hk

theorem GrowsTo.head_eq (g : t.GrowsTo u) (hk : t.knows (t.head a) = true) :
    u.head a = t.head a := by
  induction hn : a.index using Nat.strongRecOn generalizing a with
  | ind n ih =>
      by_cases hc : ∃ definition arguments,
          t.shape? a = some (.constructed definition arguments)
      · obtain ⟨definition, arguments, hs⟩ := hc
        have hs' := g.shape?_of_some hs
        have hhead : t.head a =
            if definition.index < a.index then t.head definition
            else definition := by rw [head, hs]
        have hhead' : u.head a =
            if definition.index < a.index then u.head definition
            else definition := by rw [head, hs']
        rw [hhead] at hk
        rw [hhead, hhead']
        split
        · next hlt =>
            rw [if_pos hlt] at hk
            exact ih _ (hn ▸ hlt) hk rfl
        · rfl
      · have hnot : ∀ definition arguments,
            t.shape? a ≠ some (.constructed definition arguments) :=
          fun definition arguments h => hc ⟨definition, arguments, h⟩
        rw [head_of_not_constructed hnot] at hk ⊢
        rw [head_of_not_constructed (by rwa [g.shape hk])]

/-- The kind of a type stays, once it is known. -/
theorem GrowsTo.kind_eq (g : t.GrowsTo u) (hk : t.kind a ≠ .unknown) :
    u.kind a = t.kind a := by
  have hhead : t.knows (t.head a) = true := by
    cases h : t.knows (t.head a) with
    | true => rfl
    | false =>
        refine absurd ?_ hk
        rw [kind, knows_eq_false_iff.mp h]
  rw [kind, kind, g.head_eq hhead, g.shape hhead]

theorem GrowsTo.isValueType_eq (g : t.GrowsTo u) (hk : t.kind a ≠ .unknown) :
    u.isValueType a = t.isValueType a := by
  rw [isValueType, isValueType, g.shape (knows_of_kind_ne_unknown hk),
    g.kind_eq hk]

theorem GrowsTo.nullableUnderlying?_eq (g : t.GrowsTo u)
    (hk : t.knows a = true) :
    u.nullableUnderlying? a = t.nullableUnderlying? a := by
  rw [nullableUnderlying?, nullableUnderlying?, g.shape hk]
  simp only [g.tag?_eq]

theorem FindsAlike.impliedBase? (f : t.FindsAlike ρ u) (k : Kind) :
    Option.Rel ρ (t.impliedBase? k) (u.impliedBase? k) := by
  cases k <;> first | exact .none | exact f.builtIn _

namespace Matches

variable (m : t.Matches foreign ρ u)
include m

theorem head (h : ρ a b) : ρ (t.head a) (u.head b) := by
  induction hn : a.index using Nat.strongRecOn generalizing a b with
  | ind n ih =>
      obtain ⟨s, s', hs, hs', hm⟩ | ⟨hs, hs', -⟩ := m.shape_cases h
      · cases hm with
        | constructed hd _ =>
            rw [head_of_constructed m.left m.avoidsLeft hs,
              head_of_constructed m.right m.avoidsRight hs']
            obtain ⟨-, hold⟩ | hforeign :=
              m.left.older hs (List.mem_cons_self ..)
            · exact ih _ (hn ▸ hold) hd rfl
            · have hnone := knows_eq_false_iff.mp (m.avoidsLeft _ hforeign)
              obtain ⟨_, _, hd', -⟩ | ⟨-, hnone', -⟩ := m.shape_cases hd
              · rw [hnone] at hd'
                cases hd'
              · rwa [head_of_not_constructed (by simp [hnone]),
                  head_of_not_constructed (by simp [hnone'])]
        | named | array | parameter | other =>
            rwa [head_of_not_constructed (by simp [hs]),
              head_of_not_constructed (by simp [hs'])]
      · rwa [head_of_not_constructed (by simp [hs]),
          head_of_not_constructed (by simp [hs'])]

theorem kind_eq (h : ρ a b) : t.kind a = u.kind b := by
  rw [kind, kind]
  obtain ⟨s, s', hs, hs', hm⟩ | ⟨hs, hs', -⟩ := m.shape_cases (m.head h)
  · rw [hs, hs']
    cases hm with
    | named hd => exact hd.kind
    | array | constructed | parameter | other => rfl
  · rw [hs, hs']

theorem isClosed_eq (h : ρ a b) : t.isClosed a = u.isClosed b := by
  rw [isClosed, isClosed]
  obtain ⟨s, s', hs, hs', hm⟩ | ⟨hs, hs', -⟩ := m.shape_cases (m.head h)
  · rw [hs, hs']
    cases hm with
    | named hd => exact hd.isClosed
    | array | constructed | parameter | other => rfl
  · rw [hs, hs']

/-! ## Parts of the shape -/

theorem definition? (h : ρ a b) :
    Option.Rel (Definition.Matches ρ) (t.definition? a) (u.definition? b) := by
  rw [Table.definition?, Table.definition?]
  obtain ⟨s, s', hs, hs', hm⟩ | ⟨hs, hs', -⟩ := m.shape_cases h
  · rw [hs, hs']
    cases hm with
    | named hd => exact .some hd
    | array | constructed | parameter | other => exact .none
  · rw [hs, hs']
    exact .none

theorem tag?_eq (h : ρ a b) : t.tag? a = u.tag? b := by
  rw [tag?, tag?]
  obtain ⟨d, e, hd, he, hm⟩ | ⟨hd, he⟩ := World.rel_cases (m.definition? h)
  · rw [hd, he]
    exact hm.builtIn
  · rw [hd, he]

theorem element? (h : ρ a b) :
    Option.Rel ρ (t.element? a) (u.element? b) := by
  rw [Table.element?, Table.element?]
  obtain ⟨s, s', hs, hs', hm⟩ | ⟨hs, hs', -⟩ := m.shape_cases h
  · rw [hs, hs']
    cases hm with
    | array he => exact .some he
    | named | constructed | parameter | other => exact .none
  · rw [hs, hs']
    exact .none

theorem arguments (h : ρ a b) :
    List.Forall₂ ρ (t.arguments a) (u.arguments b) := by
  rw [Table.arguments, Table.arguments]
  obtain ⟨s, s', hs, hs', hm⟩ | ⟨hs, hs', -⟩ := m.shape_cases h
  · rw [hs, hs']
    cases hm with
    | named hd => exact hd.parameters
    | constructed _ has => exact has
    | array | parameter | other => exact .nil
  · rw [hs, hs']
    exact .nil

theorem genericDefinition (h : ρ a b) :
    ρ (t.genericDefinition a) (u.genericDefinition b) := by
  rw [Table.genericDefinition, Table.genericDefinition]
  obtain ⟨s, s', hs, hs', hm⟩ | ⟨hs, hs', -⟩ := m.shape_cases h
  · rw [hs, hs']
    cases hm with
    | constructed hd _ => exact hd
    | named | array | parameter | other => exact h
  · rw [hs, hs']
    exact h

theorem constraints? (h : ρ a b) :
    Option.Rel (Constraints.Matches ρ) (t.constraints? a)
      (u.constraints? b) := by
  rw [Table.constraints?, Table.constraints?]
  obtain ⟨s, s', hs, hs', hm⟩ | ⟨hs, hs', -⟩ := m.shape_cases h
  · rw [hs, hs']
    cases hm with
    | parameter hc => exact .some hc
    | named | array | constructed | other => exact .none
  · rw [hs, hs']
    exact .none

theorem nullableUnderlying? (h : ρ a b) :
    Option.Rel ρ (t.nullableUnderlying? a) (u.nullableUnderlying? b) := by
  rw [Table.nullableUnderlying?, Table.nullableUnderlying?]
  obtain ⟨s, s', hs, hs', hm⟩ | ⟨hs, hs', -⟩ := m.shape_cases h
  · rw [hs, hs']
    cases hm with
    | constructed hd has =>
        simp only [m.tag?_eq hd]
        split
        · cases has with
          | nil => exact .none
          | cons ha _ => exact .some ha
        · exact .none
    | named | array | parameter | other => exact .none
  · rw [hs, hs']
    exact .none

/-! ## Values and references -/

theorem isValueType_eq (h : ρ a b) : t.isValueType a = u.isValueType b := by
  rw [isValueType, isValueType, m.kind_eq h]
  obtain ⟨s, s', hs, hs', hm⟩ | ⟨hs, hs', -⟩ := m.shape_cases h
  · rw [hs, hs']
    cases hm with
    | parameter hc => exact hc.valueType
    | named | array | constructed | other => rfl
  · rw [hs, hs']

theorem any_forcesReference_eq {as bs : List Handle}
    (h : List.Forall₂ ρ as bs) :
    as.any t.forcesReference = bs.any u.forcesReference := by
  induction h with
  | nil => rfl
  | cons hab _ ih =>
      rw [List.any_cons, List.any_cons, ih, forcesReference, forcesReference,
        m.kind_eq hab, m.tag?_eq hab]

theorem isReferenceType_eq (h : ρ a b) :
    t.isReferenceType a = u.isReferenceType b := by
  rw [isReferenceType, isReferenceType, m.kind_eq h]
  obtain ⟨s, s', hs, hs', hm⟩ | ⟨hs, hs', -⟩ := m.shape_cases h
  · rw [hs, hs']
    cases hm with
    | parameter hc =>
        simp only [hc.referenceType, m.any_forcesReference_eq hc.types]
    | named | array | constructed | other => rfl
  · rw [hs, hs']

/-! ## Supertypes and conversions -/

theorem statedSupertypes (h : ρ a b) {d e : Definition} (hd : d.Matches ρ e) :
    List.Forall₂ ρ (t.statedSupertypes a d) (u.statedSupertypes b e) := by
  have hbase : Option.Rel ρ (d.base <|> t.impliedBase? d.kind)
      (e.base <|> u.impliedBase? e.kind) := by
    rw [hd.kind]
    exact World.rel_orElse hd.base (m.findsAlike.impliedBase? e.kind)
  apply List.rel_append _ hd.interfaces
  apply World.forall₂_toList
  revert hbase
  generalize (d.base <|> t.impliedBase? d.kind) = x
  generalize (e.base <|> u.impliedBase? e.kind) = y
  rintro (hxy | _)
  · simp only [Option.filter_some, ne_eq, m.eq_iff hxy h]
    split
    · exact .some hxy
    · exact .none
  · exact .none

theorem conversion?_eq {a' b' : Handle} (h : ρ a b) (h' : ρ a' b') :
    t.conversion? a a' = u.conversion? b b' := by
  rw [conversion?, conversion?]
  have hc := m.conversions
  revert hc
  generalize t.conversions = cs
  generalize u.conversions = cs'
  intro hc
  induction hc with
  | nil => rfl
  | @cons x y _ _ hxy _ ih =>
      obtain ⟨⟨x₁, x₂⟩, implicit⟩ := x
      obtain ⟨⟨y₁, y₂⟩, implicit'⟩ := y
      obtain ⟨h₁, h₂, heq⟩ := hxy
      have hkey : ((a, a') == (x₁, x₂)) = ((b, b') == (y₁, y₂)) := by
        rw [Bool.eq_iff_iff, beq_iff_eq, beq_iff_eq, Prod.mk.injEq,
          Prod.mk.injEq, m.eq_iff h h₁, m.eq_iff h' h₂]
      rw [List.lookup_cons, List.lookup_cons, hkey, ih]
      simp only at heq
      rw [heq]

/-! ## Names -/

/-- Types have the same name when each handle stands for itself: the name of a
type may mention the handle of what is no definition. -/
theorem displayWithin_eq (hid : ∀ {a b}, ρ a b → a = b) (levels : Nat)
    (h : ρ a b) : t.displayWithin levels a = u.displayWithin levels b := by
  have hall : ∀ {levels : Nat}, (∀ {a b}, ρ a b →
        t.displayWithin levels a = u.displayWithin levels b) →
      ∀ {as bs : List Handle}, List.Forall₂ ρ as bs →
        as.map (t.displayWithin levels) = bs.map (u.displayWithin levels) := by
    intro levels ih as bs has
    induction has with
    | nil => rfl
    | cons hab _ ih' => rw [List.map_cons, List.map_cons, ih hab, ih']
  induction levels generalizing a b with
  | zero => rfl
  | succ levels ih =>
      rw [displayWithin, displayWithin]
      obtain ⟨s, s', hs, hs', hm⟩ | ⟨hs, hs', rfl, -⟩ := m.shape_cases h
      · rw [hs, hs']
        cases hm with
        | named hd =>
            simp only [hd.builtIn, hd.name, hall ih hd.parameters,
              World.isEmpty_eq hd.parameters]
        | array he => simp only [ih he]
        | @constructed d e as bs hd has =>
            obtain rfl := hid hd
            obtain ⟨_, _, hn, hn', hu⟩ | ⟨hn, hn'⟩ :=
              World.rel_cases (m.nullableUnderlying? h)
            · simp only [hn, hn', ih hu]
            · simp only [hn, hn', hall ih has]
              obtain ⟨_, _, hde, hde', hdm⟩ | ⟨hde, hde'⟩ :=
                World.rel_cases (m.definition? hd)
              · simp only [hde, hde', hdm.name]
              · simp only [hde, hde']
        | parameter | other => rfl
      · rw [hs, hs']

theorem display_eq (hid : ∀ {a b}, ρ a b → a = b) (h : ρ a b) :
    t.display a = u.display b :=
  m.displayWithin_eq hid _ h

end Matches

end Verdicts.Table
