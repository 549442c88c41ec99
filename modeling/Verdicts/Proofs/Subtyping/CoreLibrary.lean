import Verdicts.Proofs.Subtyping.Walk
import Verdicts.Proofs.Types.CoreLibrary

/-!
# The top of the hierarchy

The core library puts the object type on top, under it the types above which
values and arrays stand, and the collections that arrays provide.  Tables that
define no further built-in types and leave those of the core library alone have
the same top, whatever else they define.
-/

namespace Verdicts.Table

open Hierarchy

variable {foreign : Handle → Prop} {t u : Table} {h k : Handle}
  {d : Definition} {b : BuiltIn}

/-! ## The core library -/

/-- Whether a collection interface over one type parameter states only
collections over the same parameter, and the plain sequence. -/
def checksCollection (t : Table) (d : Definition) : Bool :=
  (d.base <|> t.impliedBase? d.kind).isNone &&
    match d.parameters with
    | [p] => d.interfaces.all fun k =>
      t.tag? k = some .iEnumerable ||
        match t.shape? k with
        | some (.constructed c as) => as = [p] && isArrayCollection (t.tag? c)
        | _ => false
    | _ => false

/-- Whether a definition has above it what its built-in type demands. -/
def checksTop (t : Table) (h : Handle) (d : Definition) : Bool :=
  match d.builtIn with
  | some .object | some .iEnumerable => (t.statedSupertypes h d).isEmpty
  | some .array => (t.statedSupertypes h d).all fun k =>
    t.tag? k = some .object || t.tag? k = some .iEnumerable
  | some .valueType => (t.statedSupertypes h d).all fun k => t.tag? k = some .object
  | b => !isArrayCollection b || t.checksCollection d

theorem checksTop_coreLibrary : (coreLibrary.handles.all fun h =>
    (coreLibrary.definition? h).all (coreLibrary.checksTop h)) = true := by
  decide +kernel

theorem checksTop_of_shape? (hd : coreLibrary.shape? h = some (.named d)) :
    coreLibrary.checksTop h d = true :=
  of_all_definitions checksTop_coreLibrary hd

theorem exists_of_isArrayCollection {o : Option BuiltIn}
    (ho : isArrayCollection o = true) : ∃ b, o = some b := by
  cases o with
  | none => cases ho
  | some b => exact ⟨b, rfl⟩

theorem checksCollection_of_shape? (hd : coreLibrary.shape? h = some (.named d))
    (hb : isArrayCollection d.builtIn = true) :
    (d.base <|> coreLibrary.impliedBase? d.kind) = none ∧
      ∃ p, d.parameters = [p] ∧ ∀ k ∈ d.interfaces,
        coreLibrary.tag? k = some .iEnumerable ∨
          ∃ c, coreLibrary.shape? k = some (.constructed c [p]) ∧
            isArrayCollection (coreLibrary.tag? c) = true := by
  have hcheck : coreLibrary.checksCollection d = true := by
    have hcheck := checksTop_of_shape? hd
    rw [checksTop] at hcheck
    split at hcheck
    iterate 4
      next heq =>
        rw [heq] at hb
        cases hb
    · simpa [hb] using hcheck
  rw [checksCollection, Bool.and_eq_true, Option.isNone_iff_eq_none] at hcheck
  obtain ⟨hbase, hcheck⟩ := hcheck
  split at hcheck
  · next p hp =>
      refine ⟨hbase, p, hp, fun k hk => ?_⟩
      have hk := List.all_eq_true.mp hcheck k hk
      rw [Bool.or_eq_true, decide_eq_true_iff] at hk
      refine hk.imp_right fun hk => ?_
      split at hk
      · next c as hs =>
          rw [Bool.and_eq_true, decide_eq_true_iff] at hk
          obtain ⟨rfl, hc⟩ := hk
          exact ⟨c, hs, hc⟩
      · cases hk
  · cases hcheck

/-! ## Tables with the same built-in types -/

/-- The second table has the shapes of the first one, up to links, and no other
built-in types, with the links that they have in the first one. -/
structure KeepsBuiltIn (t u : Table) : Prop where
  persists : t.PersistsIn u
  builtIn : ∀ b, u.builtIn? b = t.builtIn? b
  tagged : ∀ {h d b}, u.shape? h = some (.named d) → d.builtIn = some b →
    t.shape? h = some (.named d)

namespace KeepsBuiltIn

theorem tag?_of_some (c : t.KeepsBuiltIn u) (hb : t.tag? h = some b) :
    u.tag? h = some b :=
  (c.persists.tag?_eq (knows_of_tag? hb)).trans hb

theorem exists_definition (c : t.KeepsBuiltIn u) (hb : u.tag? h = some b) :
    ∃ d, t.shape? h = some (.named d) ∧ u.shape? h = some (.named d) ∧
      d.builtIn = some b := by
  rw [tag?, Option.bind_eq_some_iff] at hb
  obtain ⟨d, hd, hb⟩ := hb
  have hs := definition?_eq_some_iff.mp hd
  exact ⟨d, c.tagged hs hb, hs, hb⟩

/-- What a supertype of a built-in type stands for, it stood for in the first
table. -/
theorem supertype_cases (c : t.KeepsBuiltIn u) (hu : u.Sound foreign)
    {S : Term} (hb : u.tag? h = some b) (hS : u.hierarchy.Supertype (.atom h) S) :
    ∃ d, t.shape? h = some (.named d) ∧ d.builtIn = some b ∧
      ∃ k ∈ t.statedSupertypes h d, u.denote k = S := by
  obtain ⟨d, hd, hs, hb⟩ := c.exists_definition hb
  obtain ⟨d', hd', hS⟩ := supertype_atom_iff.mp hS
  rw [definition?_hierarchy, definition?_eq_some_iff.mpr hs, Option.map_some,
    Option.some.injEq] at hd'
  subst hd'
  have hh : u.Stands foreign h (.atom h) :=
    ⟨.inl (knows_of_shape? hs), denote_of_shape? hs rfl⟩
  rw [← mem_map_statedSupertypes hu.shows hs hh,
    statedSupertypes_congr c.builtIn, List.mem_map] at hS
  exact ⟨d, hd, hb, hS⟩

theorem tag?_denote_of_some (c : t.KeepsBuiltIn u) (hu : u.Sound foreign)
    (hb : t.tag? k = some b) : (u.denote k).tag? u.hierarchy = some b :=
  (tag?_denote hu k).trans (c.tag?_of_some hb)

end KeepsBuiltIn

/-! ## The top -/

theorem parameter?_eq_none_of_tag? (hb : t.tag? h = some b) :
    t.hierarchy.parameter? h = none := by
  rw [tag?, Option.bind_eq_some_iff] at hb
  obtain ⟨d, hd, -⟩ := hb
  exact parameter?_eq_none_of_named (definition?_eq_some_iff.mp hd)

/-- A definition over bound arguments is not over its own type parameters. -/
theorem Sound.ownsAll_eq_false (ht : t.Sound foreign) {D E : Term}
    {rest : List Term} (hE : t.hierarchy.Bound E) :
    Term.ownsAll t.hierarchy D (E :: rest) = false := by
  cases hown : Term.ownsAll t.hierarchy D (E :: rest) with
  | false => rfl
  | true =>
      rw [Term.ownsAll, Option.any_eq_true] at hown
      obtain ⟨n, hn, heq⟩ := hown
      obtain ⟨c, -, hc⟩ := Option.bind_eq_some_iff.mp hn
      rw [definition?_hierarchy, Option.map_eq_some_iff] at hc
      obtain ⟨d, hd, rfl⟩ := hc
      rw [decide_eq_true_iff, Term.map_handle?_eq_iff] at heq
      obtain ⟨p, ps, hps, hp, -⟩ := List.map_eq_cons_iff.mp heq.symm
      obtain ⟨name, cs, hs⟩ := (ht.wellFormed.owned
        (definition?_eq_some_iff.mp hd)).parameter p
          (by rw [show d.parameters = p :: ps from hps]; simp)
      rw [← hp, Bound, Term.over_atom_iff, parameter?_hierarchy,
        constraints?_eq_some_iff.mpr ⟨name, hs⟩] at hE
      cases hE

namespace KeepsBuiltIn

variable (c : coreLibrary.KeepsBuiltIn t) (ht : t.Sound foreign)
include c ht

/-- The supertypes of a collection over a bound type. -/
theorem collection {E S : Term} {rest : List Term}
    (hh : isArrayCollection (t.tag? h) = true) (hE : t.hierarchy.Bound E)
    (hS : t.hierarchy.Supertype (.applied (.atom h) (E :: rest)) S) :
    S.tag? t.hierarchy = some .iEnumerable ∨
      ∃ k, isArrayCollection (t.tag? k) = true ∧ S = .applied (.atom k) [E] := by
  obtain ⟨h', n, heq, hn, S', hS', rfl⟩ := supertype_applied_iff.mp hS
  obtain rfl := Term.atom.inj heq
  obtain ⟨b, hb⟩ := exists_of_isArrayCollection hh
  obtain ⟨d, hd, hs, hbuiltIn⟩ := c.exists_definition hb
  rw [definition?_hierarchy, definition?_eq_some_iff.mpr hs, Option.map_some,
    Option.some.injEq] at hn
  subst hn
  obtain ⟨hbase, p, hp, hinterfaces⟩ := checksCollection_of_shape? hd
    (by rw [hbuiltIn, ← hb, hh])
  obtain ⟨name, cs, hparameter⟩ :=
    (ht.wellFormed.owned hs).parameter p (by simp [hp])
  have hmem : ∃ k ∈ d.interfaces, t.denote k = S' := by
    rcases hS' with hS' | ⟨hS', -⟩
    · exact List.mem_map.mp hS'
    · rw [nominal, impliedBase?_congr c.builtIn, hbase] at hS'
      cases hS'
  obtain ⟨k, hk, rfl⟩ := hmem
  have hzip : (t.nominal d).parameters.zip (E :: rest) = [(p, E)] := by
    rw [show (t.nominal d).parameters = [p] from hp]
    simp
  rw [hzip]
  rcases hinterfaces k hk with hk | ⟨k', hk, hk'⟩
  · obtain ⟨e, -, he, -⟩ := c.exists_definition (c.tag?_of_some hk)
    have hne : k ≠ p := by
      rintro rfl
      rw [he] at hparameter
      cases hparameter
    rw [denote_of_shape? he rfl, Term.subst_atom_of_ne hne]
    exact .inl (c.tag?_of_some hk)
  · have hs' := c.persists.shape?_of_some hk (by simp)
    obtain ⟨b', hb'⟩ := exists_of_isArrayCollection hk'
    obtain ⟨e, -, he, -⟩ := c.exists_definition (c.tag?_of_some hb')
    refine .inr ⟨k', by rwa [c.tag?_of_some hb', ← hb'], ?_⟩
    rw [ht.denote_constructed hs', denote_of_shape? he rfl, List.map_singleton,
      denote_of_shape? hparameter rfl, Term.subst_applied_parameter, Term.apply,
      ht.ownsAll_eq_false hE]
    rfl

/-- The core library is the top of the hierarchy. -/
theorem topped : t.hierarchy.Topped where
  bound := parameter?_eq_none_of_tag?
  object {h S} hh hS := by
    obtain ⟨d, hd, hb, k, hk, -⟩ := c.supertype_cases ht hh hS
    have hcheck := checksTop_of_shape? hd
    rw [checksTop, hb] at hcheck
    simp only [List.isEmpty_iff] at hcheck
    rw [hcheck] at hk
    cases hk
  sequence {h S} hh hS := by
    obtain ⟨d, hd, hb, k, hk, -⟩ := c.supertype_cases ht hh hS
    have hcheck := checksTop_of_shape? hd
    rw [checksTop, hb] at hcheck
    simp only [List.isEmpty_iff] at hcheck
    rw [hcheck] at hk
    cases hk
  array {h S} hh hS := by
    obtain ⟨d, hd, hb, k, hk, rfl⟩ := c.supertype_cases ht hh hS
    have hcheck := checksTop_of_shape? hd
    rw [checksTop, hb] at hcheck
    simp only [List.all_eq_true, Bool.or_eq_true, decide_eq_true_iff] at hcheck
    exact (hcheck k hk).imp (c.tag?_denote_of_some ht) (c.tag?_denote_of_some ht)
  valueType {h S} hh hS := by
    obtain ⟨d, hd, hb, k, hk, rfl⟩ := c.supertype_cases ht hh hS
    have hcheck := checksTop_of_shape? hd
    rw [checksTop, hb] at hcheck
    simp only [List.all_eq_true, decide_eq_true_iff] at hcheck
    exact c.tag?_denote_of_some ht (hcheck k hk)
  collection := c.collection ht

end KeepsBuiltIn

end Verdicts.Table
