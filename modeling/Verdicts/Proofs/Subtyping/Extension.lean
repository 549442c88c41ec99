import Verdicts.Proofs.Subtyping.Walk
import Verdicts.Proofs.Types.Enriching

/-!
# More supertypes revoke no assignment

A hierarchy may be extended by interfaces of the definitions that it has, and by
definitions that it did not have.  Terms of old flat types are read as before in
the extended one, up to more supertypes, so what was below a type stays there,
within the same number of levels.
-/

namespace Verdicts

/-- The second definition is the first one, with more interfaces. -/
structure Nominal.ExtendedTo (d d' : Nominal) : Prop where
  parameters : d'.parameters = d.parameters
  base? : d'.base? = d.base?
  interfaces : d.interfaces ⊆ d'.interfaces

theorem Nominal.ExtendedTo.states {d d' : Nominal} (hd : d.ExtendedTo d')
    {A S : Term} (h : Hierarchy.States d A S) : Hierarchy.States d' A S :=
  h.imp (fun hS => hd.interfaces hS) fun hS => ⟨hd.base?.trans hS.1, hS.2⟩

namespace Hierarchy

/-- The second hierarchy says all that the first one does about flat types with
a property, and these are closed under what the first one says about them. -/
structure ExtendedTo (D : Handle → Prop) (H H' : Hierarchy) : Prop where
  knows : ∀ {h}, D h → H'.knows h = H.knows h
  kind : ∀ {h}, D h → H'.kind h = H.kind h
  tag? : ∀ {h}, D h → H'.tag? h = H.tag? h
  parameter? : ∀ {h}, D h → H'.parameter? h = H.parameter? h
  defined : ∀ {h d}, D h → H.definition? h = some d →
    ∃ d', H'.definition? h = some d' ∧ d.ExtendedTo d'
  undefined : ∀ {h}, D h → H.definition? h = none → H'.definition? h = none
  base : ∀ {h d S}, D h → H.definition? h = some d → d.base? = some S → S.Over D
  interface : ∀ {h d S}, D h → H.definition? h = some d → S ∈ d.interfaces →
    S.Over D
  bound : ∀ {h c S}, D h → H.parameter? h = some c → S ∈ c.bounds → S.Over D

namespace ExtendedTo

variable {D : Handle → Prop} {H H' : Hierarchy} (e : H.ExtendedTo D H')
  {T A B S E : Term} {as : List Term}
include e

/-! ## Reading terms -/

theorem kind_eq (hT : T.Over D) : T.kind H' = T.kind H := by
  induction hT with
  | atom hh => exact e.kind hh
  | array => rfl
  | applied _ _ ih => exact ih

theorem tag?_eq (hT : T.Over D) : T.tag? H' = T.tag? H := by
  cases hT with
  | atom hh => exact e.tag? hh
  | array | applied => rfl

theorem known_iff (hT : T.Over D) : T.Known H' ↔ T.Known H := by
  cases hT with
  | atom hh => rw [Term.Known, Term.Known, e.knows hh]
  | array | applied => exact Iff.rfl

theorem isReference_eq (hT : T.Over D) :
    T.isReference H' = T.isReference H := by
  have hparameter : T.handle?.bind H'.parameter? =
      T.handle?.bind H.parameter? := by
    cases hT with
    | atom hh => exact e.parameter? hh
    | array | applied => rfl
  rw [Term.isReference, Term.isReference, hparameter, e.kind_eq hT]

theorem takesElements (hB : B.Over D) (h : B.TakesElements H E) :
    B.TakesElements H' E ∧ E.Over D := by
  cases h with
  | array => exact ⟨.array, Term.over_array_iff.mp hB⟩
  | collection hd =>
      obtain ⟨hdefinition, hall⟩ := Term.over_applied_iff.mp hB
      rw [← e.tag?_eq hdefinition] at hd
      exact ⟨.collection hd, hall E (List.mem_cons_self ..)⟩

/-! ## Substituting -/

theorem ownsAll_eq (hT : T.Over D) (as : List Term) :
    Term.ownsAll H' T as = Term.ownsAll H T as := by
  rw [Term.ownsAll, Term.ownsAll]
  cases hT with
  | @atom h hh =>
      rw [Term.handle?, Option.bind_some, Option.bind_some]
      cases hd : H.definition? h with
      | none => rw [e.undefined hh hd]
      | some d =>
          obtain ⟨d', hd', hextended⟩ := e.defined hh hd
          rw [hd', Option.any_some, Option.any_some, hextended.parameters]
  | array | applied => rfl

theorem substWithin_eq {σ : List (Handle × Term)} (levels : Nat)
    (hT : T.Over D) : T.substWithin H' σ levels = T.substWithin H σ levels := by
  induction levels generalizing T with
  | zero => rfl
  | succ levels ih =>
      cases hT with
      | atom => rfl
      | array he => rw [Term.substWithin, Term.substWithin, ih he]
      | applied hd has =>
          rw [Term.substWithin, Term.substWithin, Term.apply, Term.apply,
            e.ownsAll_eq hd, List.map_congr_left fun a ha => ih (has a ha)]

theorem subst_eq {σ : List (Handle × Term)} (hT : T.Over D) :
    T.subst H' σ = T.subst H σ := by
  rw [Term.subst, Term.subst, e.substWithin_eq _ hT]

/-! ## Going up -/

theorem over_of_states {h : Handle} {d : Nominal} (hh : D h)
    (hd : H.definition? h = some d) (hS : States d A S) : S.Over D :=
  hS.elim (fun hS => e.interface hh hd hS) fun hS => e.base hh hd hS.1

theorem supertype (hA : A.Over D) (hS : H.Supertype A S) :
    H'.Supertype A S ∧ S.Over D := by
  cases hS with
  | @named h d S hd hS =>
      have hh := Term.over_atom_iff.mp hA
      obtain ⟨d', hd', hextended⟩ := e.defined hh hd
      exact ⟨.named hd' (hextended.states hS), e.over_of_states hh hd hS⟩
  | @applied h d as S hd hS =>
      obtain ⟨hdefinition, has⟩ := Term.over_applied_iff.mp hA
      have hh := Term.over_atom_iff.mp hdefinition
      obtain ⟨d', hd', hextended⟩ := e.defined hh hd
      have hover := e.over_of_states hh hd hS
      constructor
      · rw [← e.subst_eq hover, ← hextended.parameters]
        exact .applied hd' (hextended.states hS)
      · exact .subst H (fun x hx => has _ (List.of_mem_zip hx).2) hover

/-- What was below a type stays below it. -/
theorem below {levels : Nat} (hA : A.Over D) (hB : B.Over D)
    (h : H.Below levels A B) : H'.Below levels A B := by
  induction levels generalizing A B with
  | zero => exact ⟨h.1, (e.known_iff hA).mpr h.2⟩
  | succ levels ih =>
      rcases h with h | ⟨hmeets, h⟩
      · exact .inl ⟨h.1, (e.known_iff hA).mpr h.2⟩
      have hmeets' : H'.Meets A B := by
        refine ⟨?_, ?_⟩
        · rw [e.kind_eq hA, hmeets.source]
        · rw [e.kind_eq hB, hmeets.target]
      refine .inr ⟨hmeets', ?_⟩
      rcases h with h | h
      · exact .inl ((e.tag?_eq hB).trans h)
      right
      cases h with
      | taken htakes =>
          rw [Term.TakesArrays, ← e.tag?_eq hB] at htakes
          exact .taken htakes
      | same htakes => exact .same (e.takesElements hB htakes).1
      | element htakes hreference h =>
          have hE := Term.over_array_iff.mp hA
          obtain ⟨htakes', hE'⟩ := e.takesElements hB htakes
          exact .element htakes' ((e.isReference_eq hE).trans hreference)
            (ih hE hE' h)
      | valueType hp hvalue htag =>
          refine .valueType ?_ hvalue ((e.tag?_eq hB).trans htag)
          rw [e.parameter? (Term.over_atom_iff.mp hA), hp]
      | bound hp hmem h =>
          have hh := Term.over_atom_iff.mp hA
          exact .bound ((e.parameter? hh).trans hp) hmem
            (ih (e.bound hh hp hmem) hB h)
      | direct hS => exact .direct (e.supertype hA hS).1
      | supertype hS h =>
          obtain ⟨hS', hover⟩ := e.supertype hA hS
          exact .supertype hS' (ih hover hB h)

end ExtendedTo

end Hierarchy

/-! ## Enriched tables -/

namespace Table

variable {foreign : Handle → Prop} {t u : Table} {a b h : Handle}

/-- A type is made of types of the table. -/
theorem Sound.over_denote (ht : t.Sound foreign) (ha : t.Admits foreign h) :
    (t.denote h).Over (t.Admits foreign) := by
  induction hn : h.index using Nat.strongRecOn generalizing h with
  | ind n ih =>
      subst hn
      have hpart : ∀ {s c}, t.shape? h = some s → c ∈ s.parts →
          (t.denote c).Over (t.Admits foreign) := by
        intro s c hs hc
        rcases ht.wellFormed.older hs hc with ⟨hk, hlt⟩ | hforeign
        · exact ih c.index hlt (.inl hk) rfl
        · rw [denote_of_unknown (ht.shape?_of_foreign hforeign)]
          exact .atom (.inr hforeign)
      rcases ht.denote_cases h with ⟨e, hs, heq⟩ | ⟨d, as, hs, heq⟩ | ⟨-, heq⟩
      · rw [heq]
        exact .array (hpart hs (by simp [Shape.parts]))
      · rw [heq]
        refine .applied (hpart hs (by simp [Shape.parts])) fun A hA => ?_
        obtain ⟨a, ha, rfl⟩ := List.mem_map.mp hA
        exact hpart hs (by simp [Shape.parts, ha])
      · rw [heq]
        exact .atom ha

namespace EnrichedTo

variable (e : t.EnrichedTo u) (ht : t.Sound foreign) (hu : u.Sound foreign)
include e ht hu

theorem denote_eq (ha : t.Admits foreign h) : u.denote h = t.denote h :=
  e.persistsIn.denote_eq ht hu.avoids ha

theorem map_demands_eq (ha : t.Admits foreign h) :
    (u.constraints? h).map u.demands = (t.constraints? h).map t.demands := by
  rw [e.constraints?_eq hu.avoids ha]
  cases hc : t.constraints? h with
  | none => rfl
  | some c =>
      obtain ⟨name, hs⟩ := constraints?_eq_some_iff.mp hc
      have hadmits : ∀ k ∈ c.types, t.Admits foreign k := fun k hk =>
        ht.admits_part hs hk
      have hforces : c.types.any u.forcesReference =
          c.types.any t.forcesReference := by
        rw [Bool.eq_iff_iff, List.any_eq_true, List.any_eq_true]
        apply exists_congr
        intro k
        rw [and_congr_right_iff]
        intro hk
        rw [forcesReference, forcesReference,
          e.tag?_eq hu.avoids (hadmits k hk),
          e.kind_eq ht.wellFormed hu.wellFormed hu.avoids (hadmits k hk)]
      have hbounds : c.types.map u.denote = c.types.map t.denote :=
        List.map_congr_left fun k hk => e.denote_eq ht hu (hadmits k hk)
      rw [Option.map_some, Option.map_some, demands, demands, hforces, hbounds]

theorem nominal_extendedTo {d : Definition} {interfaces : List Handle}
    (hd : t.shape? h = some (.named d)) (hsubset : d.interfaces ⊆ interfaces) :
    (t.nominal d).ExtendedTo
      (u.nominal { d with interfaces := interfaces }) where
  parameters := rfl
  base? := by
    rw [nominal, nominal]
    simp only [impliedBase?_congr e.builtIn]
    apply Option.map_congr
    intro k hk
    exact e.denote_eq ht hu (ht.wellFormed.admits_base hd hk)
  interfaces := by
    intro S hS
    obtain ⟨k, hk, rfl⟩ := List.mem_map.mp hS
    rw [← e.denote_eq ht hu (ht.wellFormed.admits_interface hd hk)]
    exact List.mem_map_of_mem (hsubset hk)

/-- The hierarchy of an enriched table extends that of the table. -/
theorem hierarchy : t.hierarchy.ExtendedTo (t.Admits foreign) u.hierarchy where
  knows {h} ha := by
    unfold Table.hierarchy flat?
    dsimp only
    rcases e.shape?_cases hu.avoids ha with heq | ⟨d, interfaces, hs, hs'⟩
    · rw [heq]
    · rw [hs, hs']
      rfl
  kind {h} ha := by
    unfold Table.hierarchy flat?
    dsimp only
    rcases e.shape?_cases hu.avoids ha with heq | ⟨d, interfaces, hs, hs'⟩
    · rw [heq]
    · rw [hs, hs']
      rfl
  tag? ha := e.tag?_eq hu.avoids ha
  parameter? ha := e.map_demands_eq ht hu ha
  defined {h n} ha hn := by
    obtain ⟨d, hd, rfl⟩ := Option.map_eq_some_iff.mp hn
    rw [definition?_eq_some_iff] at hd
    obtain ⟨interfaces, hsubset, hd'⟩ := e.definition hd
    refine ⟨_, ?_, e.nominal_extendedTo ht hu hd hsubset⟩
    rw [definition?_hierarchy, definition?_eq_some_iff.mpr hd']
    rfl
  undefined {h} ha hnone := by
    rw [definition?_hierarchy, Option.map_eq_none_iff, definition?] at hnone ⊢
    rcases e.shape?_cases hu.avoids ha with heq | ⟨d, interfaces, hs, hs'⟩
    · rwa [heq]
    · rw [hs] at hnone
      cases hnone
  base {h n S} ha hn hS := by
    obtain ⟨d, hd, rfl⟩ := Option.map_eq_some_iff.mp hn
    obtain ⟨k, hk, rfl⟩ := Option.map_eq_some_iff.mp hS
    exact ht.over_denote
      (ht.wellFormed.admits_base (definition?_eq_some_iff.mp hd) hk)
  interface {h n S} ha hn hS := by
    obtain ⟨d, hd, rfl⟩ := Option.map_eq_some_iff.mp hn
    obtain ⟨k, hk, rfl⟩ := List.mem_map.mp hS
    exact ht.over_denote
      (ht.wellFormed.admits_interface (definition?_eq_some_iff.mp hd) hk)
  bound {h n S} ha hn hS := by
    obtain ⟨c, hc, rfl⟩ := Option.map_eq_some_iff.mp hn
    obtain ⟨k, hk, rfl⟩ := List.mem_map.mp hS
    obtain ⟨name, hs⟩ := constraints?_eq_some_iff.mp hc
    exact ht.over_denote (ht.admits_part hs hk)

end EnrichedTo

/-! ## Assignments -/

/-- A value of the source type can be stored in a place of the target type,
whatever has been interned. -/
def Assigns (t : Table) (a b : Handle) : Prop :=
  t.hierarchy.Below (depthLimit + 1) (t.denote a) (t.denote b)

theorem Sound.assignable_iff (ht : t.Sound foreign) (ha : t.Admits foreign a)
    (hb : t.Admits foreign b) (havoids : (assignable a b t).2.Avoids foreign) :
    (assignable a b t).1 = true ↔ t.Assigns a b :=
  ht.assignableWithin_iff ha hb havoids

theorem GrowsTo.assigns_iff (g : t.GrowsTo u) (ht : t.Sound foreign)
    (hu : u.Sound foreign) (ha : t.Admits foreign a) (hb : t.Admits foreign b) :
    u.Assigns a b ↔ t.Assigns a b := by
  rw [Assigns, Assigns, g.hierarchy_eq ht hu,
    g.persistsIn.denote_eq ht hu.avoids ha, g.persistsIn.denote_eq ht hu.avoids hb]

/-- An enriched table revokes no assignment. -/
theorem EnrichedTo.assigns (e : t.EnrichedTo u) (ht : t.Sound foreign)
    (hu : u.Sound foreign) (ha : t.Admits foreign a) (hb : t.Admits foreign b)
    (h : t.Assigns a b) : u.Assigns a b := by
  rw [Assigns, e.denote_eq ht hu ha, e.denote_eq ht hu hb]
  exact (e.hierarchy ht hu).below (ht.over_denote ha) (ht.over_denote hb) h

end Table

end Verdicts
