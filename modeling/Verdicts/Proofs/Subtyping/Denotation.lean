import Verdicts.Proofs.Lists
import Verdicts.Proofs.Subtyping.Below
import Verdicts.Proofs.Types.Reachable
import Verdicts.Proofs.Types.Walk

/-!
# The types of a table, written out

In a sound table every handle stands for a term, different handles for different
terms, and a table that only interns keeps the terms and the hierarchy of flat
types that it has.  What the walk of assignability reads about a handle can be
read off its term.
-/

namespace Verdicts.Table

variable {foreign : Handle → Prop} {t u : Table} {h k : Handle} {s : Shape}

/-- The table is well-formed and has given out no foreign handle. -/
structure Sound (foreign : Handle → Prop) (t : Table) : Prop where
  wellFormed : t.WellFormed foreign
  avoids : t.Avoids foreign

/-- The type of a handle, written out. -/
def denote (t : Table) (h : Handle) : Term :=
  match t.shape? h with
  | some (.array e) => .array (if e.index < h.index then t.denote e else .atom e)
  | some (.constructed d as) =>
    .applied (if d.index < h.index then t.denote d else .atom d)
      (as.map fun a => if a.index < h.index then t.denote a else .atom a)
  | _ => .atom h
termination_by h.index

/-! ## Terms of handles -/

theorem denote_flat (hs : ∀ s, t.shape? h = some s → s.isStructural = false) :
    t.denote h = .atom h := by
  rw [denote]
  split
  · next hs' => cases hs _ hs'
  · next hs' => cases hs _ hs'
  · rfl

theorem denote_of_unknown (hs : t.shape? h = none) : t.denote h = .atom h :=
  denote_flat (by simp [hs])

theorem denote_of_shape? (hs : t.shape? h = some s)
    (hstr : s.isStructural = false) : t.denote h = .atom h :=
  denote_flat fun s' hs' => by
    obtain rfl := Option.some.inj (hs.symm.trans hs')
    exact hstr

namespace Sound

variable (ht : t.Sound foreign)
include ht

theorem shape?_of_foreign (hh : foreign h) : t.shape? h = none :=
  knows_eq_false_iff.mp (ht.avoids h hh)

theorem admits_part {c : Handle} (hs : t.shape? h = some s) (hc : c ∈ s.parts) :
    t.Admits foreign c :=
  ht.wellFormed.admits_part hs hc

theorem denote_part {c : Handle} (hs : t.shape? h = some s)
    (hc : c ∈ s.parts) :
    (if c.index < h.index then t.denote c else .atom c) = t.denote c := by
  rcases ht.wellFormed.older hs hc with ⟨-, hlt⟩ | hforeign
  · rw [if_pos hlt]
  · rw [denote_of_unknown (ht.shape?_of_foreign hforeign), ite_self]

theorem denote_array {e : Handle} (hs : t.shape? h = some (.array e)) :
    t.denote h = .array (t.denote e) := by
  rw [denote, hs]
  simp only
  rw [ht.denote_part hs (by simp [Shape.parts])]

theorem denote_constructed {d : Handle} {as : List Handle}
    (hs : t.shape? h = some (.constructed d as)) :
    t.denote h = .applied (t.denote d) (as.map t.denote) := by
  rw [denote, hs]
  simp only
  rw [ht.denote_part hs (by simp [Shape.parts])]
  congr 1
  apply List.map_congr_left
  intro a ha
  exact ht.denote_part hs (by simp [Shape.parts, ha])

/-- How a handle is denoted: as an array, as an application or as a flat
type. -/
theorem denote_cases (h : Handle) :
    (∃ e, t.shape? h = some (.array e) ∧ t.denote h = .array (t.denote e)) ∨
      (∃ d as, t.shape? h = some (.constructed d as) ∧
        t.denote h = .applied (t.denote d) (as.map t.denote)) ∨
      (∀ s, t.shape? h = some s → s.isStructural = false) ∧
        t.denote h = .atom h := by
  cases hs : t.shape? h with
  | none => exact .inr (.inr ⟨by simp, denote_of_unknown hs⟩)
  | some s =>
      cases s with
      | array e => exact .inl ⟨e, rfl, ht.denote_array hs⟩
      | constructed d as =>
          exact .inr (.inl ⟨d, as, rfl, ht.denote_constructed hs⟩)
      | named | parameter | other =>
          refine .inr (.inr ⟨?_, denote_of_shape? hs rfl⟩)
          rintro _ ⟨⟩
          rfl

theorem eq_of_denote_eq_atom (hh : t.denote h = .atom k) : h = k := by
  rcases ht.denote_cases h with ⟨e, -, heq⟩ | ⟨d, as, -, heq⟩ | ⟨-, heq⟩
  · cases heq.symm.trans hh
  · cases heq.symm.trans hh
  · exact Term.atom.inj (heq.symm.trans hh)

/-- Different handles stand for different types. -/
theorem denote_injective (ha : t.Admits foreign h) (hb : t.Admits foreign k)
    (heq : t.denote h = t.denote k) : h = k := by
  induction hn : h.index using Nat.strongRecOn generalizing h k with
  | ind n ih =>
      subst hn
      -- Parts of the first type are older or stand for themselves.
      have hpart : ∀ {s c c'}, t.shape? h = some s → c ∈ s.parts →
          t.Admits foreign c' → t.denote c = t.denote c' → c = c' := by
        intro s c c' hs hc hc' heq
        rcases ht.wellFormed.older hs hc with ⟨hk, hlt⟩ | hforeign
        · exact ih c.index hlt (.inl hk) hc' heq rfl
        · rw [denote_of_unknown (ht.shape?_of_foreign hforeign)] at heq
          exact (ht.eq_of_denote_eq_atom heq.symm).symm
      rcases ht.denote_cases h with
        ⟨e, hs, hh⟩ | ⟨d, as, hs, hh⟩ | ⟨-, hh⟩
      · rcases ht.denote_cases k with
          ⟨e', hs', hk⟩ | ⟨d', as', hs', hk⟩ | ⟨-, hk⟩
        · rw [hh, hk, Term.array.injEq] at heq
          obtain rfl := hpart hs (by simp [Shape.parts])
            (ht.admits_part hs' (by simp [Shape.parts])) heq
          exact ht.wellFormed.interned rfl hs hs'
        · rw [hh, hk] at heq
          cases heq
        · rw [hk] at heq
          exact ht.eq_of_denote_eq_atom heq
      · rcases ht.denote_cases k with
          ⟨e', hs', hk⟩ | ⟨d', as', hs', hk⟩ | ⟨-, hk⟩
        · rw [hh, hk] at heq
          cases heq
        · rw [hh, hk, Term.applied.injEq] at heq
          obtain rfl := hpart hs (by simp [Shape.parts])
            (ht.admits_part hs' (by simp [Shape.parts])) heq.1
          have has : as = as' := by
            refine eq_of_map_eq_map (fun a ha b hb => ?_) heq.2
            exact hpart hs (by simp [Shape.parts, ha])
              (ht.admits_part hs' (by simp [Shape.parts, hb]))
          subst has
          exact ht.wellFormed.interned rfl hs hs'
        · rw [hk] at heq
          exact ht.eq_of_denote_eq_atom heq
      · rw [hh] at heq
        exact (ht.eq_of_denote_eq_atom heq.symm).symm

end Sound

/-- A handle goes on to stand for the type for which it stood. -/
theorem PersistsIn.denote_eq (p : t.PersistsIn u) (ht : t.Sound foreign)
    (hu : u.Avoids foreign) (ha : t.Admits foreign h) :
    u.denote h = t.denote h := by
  induction hn : h.index using Nat.strongRecOn generalizing h with
  | ind n ih =>
      subst hn
      have hpart : ∀ {s c}, t.shape? h = some s → c ∈ s.parts →
          (if c.index < h.index then u.denote c else .atom c) =
            if c.index < h.index then t.denote c else .atom c := by
        intro s c hs hc
        split
        · next hlt => exact ih c.index hlt (ht.admits_part hs hc) rfl
        · rfl
      rcases ha with hk | hforeign
      · obtain ⟨s, hs⟩ := exists_shape?_of_knows hk
        cases s with
        | named d =>
            obtain ⟨e, he, -⟩ := p.definition hs
            rw [denote_of_shape? hs rfl, denote_of_shape? he rfl]
        | array e =>
            rw [denote, denote, p.shape?_of_some hs (by simp), hs]
            simp only
            rw [hpart hs (by simp [Shape.parts])]
        | constructed d as =>
            rw [denote, denote, p.shape?_of_some hs (by simp), hs]
            simp only
            rw [hpart hs (by simp [Shape.parts])]
            congr 1
            apply List.map_congr_left
            intro a ha
            exact hpart hs (by simp [Shape.parts, ha])
        | parameter | other =>
            rw [denote_of_shape? hs rfl,
              denote_of_shape? (p.shape?_of_some hs (by simp)) rfl]
      · rw [denote_of_unknown (ht.shape?_of_foreign hforeign),
          denote_of_unknown (knows_eq_false_iff.mp (hu h hforeign))]

/-! ## The hierarchy of a table -/

/-- The shape of a type that is made of no others. -/
def flat? (t : Table) (h : Handle) : Option Shape :=
  (t.shape? h).filter fun s => !s.isStructural

/-- A definition, in terms. -/
def nominal (t : Table) (d : Definition) : Nominal where
  parameters := d.parameters
  base? := (d.base <|> t.impliedBase? d.kind).map t.denote
  interfaces := d.interfaces.map t.denote

/-- What a type parameter demands, in terms. -/
def demands (t : Table) (c : Constraints) : Demands where
  valueType := c.valueType
  referenceType := c.referenceType || c.types.any t.forcesReference
  bounds := c.types.map t.denote

/-- What the table knows about flat types. -/
def hierarchy (t : Table) : Hierarchy where
  knows h := (t.flat? h).isSome
  kind h :=
    match t.flat? h with
    | some (.named d) => d.kind
    | some (.parameter _ _) => .typeParameter
    | some (.other _ kind) => kind
    | _ => .unknown
  tag? := t.tag?
  definition? h := (t.definition? h).map t.nominal
  parameter? h := (t.constraints? h).map t.demands

theorem flat?_of_shape? (hs : t.shape? h = some s) (hstr : s.isStructural = false) :
    t.flat? h = some s := by
  rw [flat?, hs, Option.filter_some, hstr]
  rfl

theorem GrowsTo.flat?_eq (g : t.GrowsTo u) (h : Handle) :
    u.flat? h = t.flat? h := by
  cases hk : t.knows h with
  | true => rw [flat?, flat?, g.shape hk]
  | false =>
      rw [flat?, flat?, knows_eq_false_iff.mp hk, Option.filter_none,
        Option.filter_eq_none_iff]
      intro s hs
      simp [g.structural hk hs]

theorem GrowsTo.constraints?_eq (g : t.GrowsTo u) (h : Handle) :
    u.constraints? h = t.constraints? h := by
  cases hk : t.knows h with
  | true => rw [constraints?, constraints?, g.shape hk]
  | false =>
      rw [constraints?, constraints?, knows_eq_false_iff.mp hk]
      split
      · next hs => cases g.structural hk hs
      · rfl

theorem constraints?_eq_some_iff {c : Constraints} :
    t.constraints? h = some c ↔ ∃ name, t.shape? h = some (.parameter name c) := by
  rw [constraints?]
  split
  · next hs => simp [hs]
  · next hs =>
      constructor
      · intro hc
        cases hc
      · rintro ⟨name, hname⟩
        exact absurd hname (hs name c)

/-- A table that only interns keeps its hierarchy. -/
theorem GrowsTo.hierarchy_eq (g : t.GrowsTo u) (ht : t.Sound foreign)
    (hu : u.Sound foreign) : u.hierarchy = t.hierarchy := by
  have hdenote : ∀ {k}, t.Admits foreign k → u.denote k = t.denote k :=
    g.persistsIn.denote_eq ht hu.avoids
  have hmatches := g.matches ht.wellFormed hu.wellFormed hu.avoids
  have hnominal : ∀ h, (u.definition? h).map u.nominal =
      (t.definition? h).map t.nominal := by
    intro h
    rw [g.definition?_eq]
    cases hd : t.definition? h with
    | none => rfl
    | some d =>
        rw [definition?_eq_some_iff] at hd
        simp only [Option.map_some, nominal,
          impliedBase?_congr g.builtIn?_eq, Option.some.injEq,
          Nominal.mk.injEq, true_and]
        constructor
        · apply Option.map_congr
          intro k hk
          exact hdenote (ht.wellFormed.admits_base hd hk)
        · apply List.map_congr_left
          intro k hk
          exact hdenote (ht.wellFormed.admits_interface hd hk)
  have hdemands : ∀ h, (u.constraints? h).map u.demands =
      (t.constraints? h).map t.demands := by
    intro h
    rw [g.constraints?_eq]
    cases hc : t.constraints? h with
    | none => rfl
    | some c =>
        obtain ⟨name, hs⟩ := constraints?_eq_some_iff.mp hc
        have hadmits : ∀ k ∈ c.types, t.Admits foreign k := fun k hk =>
          ht.admits_part hs hk
        have hforces :=
          hmatches.any_forcesReference_eq (forall₂_itself hadmits)
        simp only [Option.map_some, demands, hforces, Option.some.injEq,
          Demands.mk.injEq, true_and]
        exact List.map_congr_left fun k hk => hdenote (hadmits k hk)
  have hflat : u.flat? = t.flat? := funext g.flat?_eq
  rw [hierarchy, hierarchy, hflat, Hierarchy.mk.injEq]
  exact ⟨rfl, rfl, funext g.tag?_eq, funext hnominal, funext hdemands⟩

/-! ## Reading terms -/

theorem tag?_denote (ht : t.Sound foreign) (h : Handle) :
    (t.denote h).tag? t.hierarchy = t.tag? h := by
  rcases ht.denote_cases h with ⟨e, hs, heq⟩ | ⟨d, as, hs, heq⟩ | ⟨-, heq⟩
  · rw [heq, tag?, definition?, hs]
    rfl
  · rw [heq, tag?, definition?, hs]
    rfl
  · rw [heq]
    rfl

theorem known_denote_iff (ht : t.Sound foreign) (h : Handle) :
    (t.denote h).Known t.hierarchy ↔ t.knows h = true := by
  rcases ht.denote_cases h with ⟨e, hs, heq⟩ | ⟨d, as, hs, heq⟩ | ⟨hs, heq⟩
  · simp [heq, Term.Known, knows_of_shape? hs]
  · simp [heq, Term.Known, knows_of_shape? hs]
  · rw [heq, Term.Known]
    change (t.flat? h).isSome = true ↔ _
    cases hs' : t.shape? h with
    | none => simp [flat?, knows, hs']
    | some s => simp [flat?_of_shape? hs' (hs s hs'), knows, hs']

theorem kind_hierarchy (hs : ∀ s, t.shape? h = some s → s.isStructural = false) :
    t.hierarchy.kind h = t.kind h := by
  have hhead : t.head h = h := head_of_not_constructed fun d as hs' => by
    cases hs _ hs'
  rw [kind, hhead]
  change (match t.flat? h with
    | some (.named d) => d.kind
    | some (.parameter _ _) => .typeParameter
    | some (.other _ kind) => kind
    | _ => .unknown) = _
  cases hs' : t.shape? h with
  | none => simp [flat?, hs']
  | some s =>
      have hstr := hs s hs'
      rw [flat?_of_shape? hs' hstr]
      cases s with
      | named | parameter | other => rfl
      | array | constructed => cases hstr

theorem kind_denote (ht : t.Sound foreign) (h : Handle) :
    (t.denote h).kind t.hierarchy = t.kind h := by
  induction hn : h.index using Nat.strongRecOn generalizing h with
  | ind n ih =>
      subst hn
      rcases ht.denote_cases h with ⟨e, hs, heq⟩ | ⟨d, as, hs, heq⟩ | ⟨hs, heq⟩
      · rw [heq, kind, head_of_not_constructed (by simp [hs]), hs]
        rfl
      · rw [heq, Term.kind, kind_of_constructed ht.wellFormed ht.avoids hs]
        rcases ht.wellFormed.older hs (List.mem_cons_self ..) with
          ⟨-, hlt⟩ | hforeign
        · exact ih d.index hlt d rfl
        · have hnone := ht.shape?_of_foreign hforeign
          rw [denote_of_unknown hnone]
          exact kind_hierarchy (by simp [hnone])
      · rw [heq]
        exact kind_hierarchy hs

theorem isReference_denote (ht : t.Sound foreign) (h : Handle) :
    (t.denote h).isReference t.hierarchy = t.isReferenceType h := by
  have hparameter : ((t.denote h).handle?.bind t.hierarchy.parameter?) =
      (t.constraints? h).map t.demands := by
    rcases ht.denote_cases h with ⟨e, hs, heq⟩ | ⟨d, as, hs, heq⟩ | ⟨-, heq⟩
    · rw [heq, constraints?, hs]
      rfl
    · rw [heq, constraints?, hs]
      rfl
    · rw [heq]
      rfl
  rw [Term.isReference, hparameter, kind_denote ht, isReferenceType,
    constraints?]
  cases hs : t.shape? h with
  | none =>
      rw [kind_of_unknown hs]
      rfl
  | some s =>
      cases s with
      | parameter => rfl
      | named | array | constructed | other =>
          simp only [Option.map_none]
          cases t.kind h <;> rfl

theorem definition?_hierarchy (t : Table) (h : Handle) :
    t.hierarchy.definition? h = (t.definition? h).map t.nominal := rfl

theorem parameter?_hierarchy (t : Table) (h : Handle) :
    t.hierarchy.parameter? h = (t.constraints? h).map t.demands := rfl

theorem parameter?_eq_none_of_named {d : Definition}
    (hd : t.shape? h = some (.named d)) : t.hierarchy.parameter? h = none := by
  rw [parameter?_hierarchy, constraints?, hd]
  rfl

/-! ## Demands of arrays -/

theorem takesArrays_denote_iff (ht : t.Sound foreign) (h : Handle) :
    (t.denote h).TakesArrays t.hierarchy ↔ t.arrayDemand h = .free := by
  rw [Term.TakesArrays, tag?_denote ht, arrayDemand, tag?, definition?]
  cases hs : t.shape? h with
  | none => simp
  | some s =>
      cases s with
      | named d =>
          by_cases harray : d.builtIn = some .array <;> simp [harray]
      | constructed d as =>
          cases as with
          | nil => simp
          | cons a as =>
              by_cases hd : isArrayCollection (t.tag? d) = true <;> simp [hd]
      | array | parameter | other => simp

theorem takesElements_denote_iff (ht : t.Sound foreign) (h : Handle) (E : Term) :
    (t.denote h).TakesElements t.hierarchy E ↔
      ∃ e, t.arrayDemand h = .element e ∧ t.denote e = E := by
  rw [arrayDemand]
  rcases ht.denote_cases h with ⟨e, hs, heq⟩ | ⟨d, as, hs, heq⟩ | ⟨hs, heq⟩
  · rw [heq, hs]
    constructor
    · rintro ⟨⟩
      exact ⟨e, rfl, rfl⟩
    · rintro ⟨e', he, rfl⟩
      cases he
      exact .array
  · rw [heq, hs]
    constructor
    · intro hE
      cases as with
      | nil => cases hE
      | cons a as =>
          rw [List.map_cons] at hE
          cases hE with
          | collection hd =>
              rw [tag?_denote ht] at hd
              exact ⟨a, if_pos hd, rfl⟩
    · rintro ⟨e, he, rfl⟩
      cases as with
      | nil => cases he
      | cons a as =>
          dsimp only at he
          split at he
          · next hd =>
              cases he
              exact .collection (by rwa [tag?_denote ht])
          · cases he
  · rw [heq]
    constructor
    · intro hE
      cases hE
    · rintro ⟨e, he, -⟩
      cases hs' : t.shape? h with
      | none => simp [hs'] at he
      | some s =>
          have hstr := hs s hs'
          rw [hs'] at he
          cases s with
          | named d =>
              dsimp only at he
              split at he <;> cases he
          | parameter | other => cases he
          | array | constructed => cases hstr

end Verdicts.Table
