import Verdicts.Manifest.Loading
import Verdicts.Proofs.Libraries.Declared
import Verdicts.Proofs.Lists
import Verdicts.Proofs.Types.Persistence
import Verdicts.Proofs.Types.Walk

/-!
# Declaring the types of a manifest

First all types are declared, each under the base that its kind implies and
without interfaces.  Whatever the table held before stays as it was, and every
declared type gets a handle of its own.
-/

namespace Verdicts

variable {p p' : Program} {t u v : Table} {h : Handle}

theorem Program.onTable_apply {α : Type} (work : StateM Table α)
    (p : Program) : Program.onTable work p =
      ((work p.table).1, { p with table := (work p.table).2 }) := rfl

/-- Work on the types that succeeds leaves the rest of the program alone. -/
theorem Loading.naming_eq_ok {α : Type} {work : Naming α} {a : α}
    (hw : Loading.naming work p = (.ok a, p')) :
    ∃ u, work p.table = (.ok a, u) ∧ p' = { p with table := u } := by
  change ((work p.table).1.mapError LoadError.naming,
    { p with table := (work p.table).2 }) = _ at hw
  rcases hr : work p.table with ⟨e | b, u⟩
  · rw [hr] at hw
    cases hw
  · rw [hr] at hw
    cases hw
    exact ⟨u, rfl, rfl⟩

theorem Loading.naming_apply_ok {α : Type} {work : Naming α} {a : α}
    (hw : work p.table = (.ok a, u)) :
    Loading.naming work p = (.ok a, { p with table := u }) := by
  change ((work p.table).1.mapError LoadError.naming,
    { p with table := (work p.table).2 }) = _
  rw [hw]
  rfl

namespace Table

/-- The second table has every shape of the first one, links included, and the
same built-in types and conversions; what it defines besides is of a known
kind. -/
structure Retains (t u : Table) : Prop where
  shape : ∀ {h s}, t.shape? h = some s → u.shape? h = some s
  builtIn : ∀ b, u.builtIn? b = t.builtIn? b
  conversions : u.conversions = t.conversions
  known : ∀ {h e}, u.shape? h = some (.named e) →
    t.shape? h = some (.named e) ∨ isInertTarget e.kind = false

namespace Retains

theorem refl (t : Table) : t.Retains t where
  shape hs := hs
  builtIn _ := rfl
  conversions := rfl
  known := .inl

theorem trans (r : t.Retains u) (r' : u.Retains v) : t.Retains v where
  shape hs := r'.shape (r.shape hs)
  builtIn b := (r'.builtIn b).trans (r.builtIn b)
  conversions := r'.conversions.trans r.conversions
  known he := (r'.known he).elim r.known .inr

theorem unknown (r : t.Retains u) (hk : u.knows h = false) :
    t.knows h = false := by
  cases ht : t.knows h with
  | false => rfl
  | true =>
      obtain ⟨s, hs⟩ := exists_shape?_of_knows ht
      rw [← hk, knows_of_shape? (r.shape hs)]

end Retains

theorem Retains.persistsIn (r : t.Retains u) : t.PersistsIn u :=
  .of_shape? r.shape

theorem GrowsTo.retains (g : t.GrowsTo u) : t.Retains u where
  shape := g.shape?_of_some
  builtIn := g.builtIn?_eq
  conversions := g.conversions
  known {h e} he := by
    cases hk : t.knows h with
    | true => exact .inl ((g.shape hk).symm.trans he)
    | false => cases g.structural hk he

theorem retains_declare {d : Declaration} (hd : d.builtIn = none)
    (hkind : isInertTarget d.kind = false) (t : Table) :
    t.Retains (declare d t).2 where
  shape := shape?_declare_of_shape? d
  builtIn := builtIn?_declare hd t
  conversions := conversions_declare d t
  known he := by
    obtain ⟨-, rfl⟩ | he := definition_of_declare he
    · exact .inr hkind
    · exact .inl he

theorem growsTo_mapM_resolveText {texts : List String} {hs : List Handle}
    (h : texts.mapM resolveText t = (.ok hs, u)) : t.GrowsTo u := by
  refine (mapM_apply_ok (Q := fun _ _ => True) GrowsTo.refl GrowsTo.trans ?_ h).1
  intro text _ t' u' b hb
  have g := interns_resolveText text t'
  rw [show (resolveText text).run t' = _ from hb] at g
  exact ⟨g, trivial⟩

/-- Every definition is of a known kind. -/
def KnownKinds (t : Table) : Prop :=
  ∀ ⦃h d⦄, t.shape? h = some (.named d) → isInertTarget d.kind = false

theorem KnownKinds.retained (hk : t.KnownKinds) (r : t.Retains u) :
    u.KnownKinds :=
  fun _ _ hd => (r.known hd).elim (fun hd => hk hd) id

theorem KnownKinds.steady (hk : t.KnownKinds) (q : t.Steady u) :
    u.KnownKinds := by
  intro h e he
  obtain ⟨d, hd, hkind⟩ := q.definition he
  rw [← hkind]
  exact hk hd

end Table

open Table

theorem DeclaredKind.isInertTarget_kind (k : DeclaredKind) :
    isInertTarget k.kind = false := by
  cases k <;> rfl

namespace ParameterDeclaration

/-- The demands are those that the type parameter states, if it names no types
in them. -/
def Demands (d : ParameterDeclaration) (c : Constraints) : Prop :=
  d.constraintTypes = [] → c = ParameterConstraint.demands d.constraint

theorem demands_without_types (constraint : Option ParameterConstraint) :
    { ParameterConstraint.demands constraint with types := [] } =
      ParameterConstraint.demands constraint := by
  cases constraint with
  | none => rfl
  | some constraint => cases constraint <;> rfl

theorem types_demands (constraint : Option ParameterConstraint) :
    (ParameterConstraint.demands constraint).types = [] := by
  rw [← demands_without_types]

theorem constraints_eq_ok (d : ParameterDeclaration)
    {c : Constraints} (hc : d.constraints t = (.ok c, u)) :
    t.GrowsTo u ∧ d.Demands c := by
  rw [constraints] at hc
  obtain ⟨types, s, htypes, hlast⟩ := bind_apply_eq_ok hc
  cases hlast
  refine ⟨growsTo_mapM_resolveText htypes, fun hnone => ?_⟩
  rw [hnone] at htypes
  cases htypes
  exact demands_without_types d.constraint

end ParameterDeclaration

namespace TypeDeclaration

variable {d : TypeDeclaration}

theorem resolveParameters_eq_ok {ps : List (String × Constraints)}
    (hps : d.resolveParameters t = (.ok ps, u)) :
    t.GrowsTo u ∧
      List.Forall₂ (fun q x => x.1 = q.name ∧ q.Demands x.2) d.parameters ps := by
  refine mapM_apply_ok GrowsTo.refl GrowsTo.trans ?_ hps
  intro q _ t' u' b hb
  obtain ⟨c, s, hc, hlast⟩ := bind_apply_eq_ok hb
  cases hlast
  obtain ⟨g, hdemands⟩ := q.constraints_eq_ok hc
  exact ⟨g, rfl, hdemands⟩

/-- What is stored for a type, given its type parameters. -/
def stored (d : TypeDeclaration) (t : Table) (ps : List (String × Constraints)) :
    Table.Declaration :=
  d.declaration (d.kind.impliedBase?.bind t.builtIn?) ps

/-- Declaring a type succeeds if its name is new and the demands of its type
parameters can be resolved. -/
theorem declare_eq_ok_iff :
    d.declare p = (.ok h, p') ↔ p.table.named? d.storedName = none ∧
      ∃ ps t u, d.resolveParameters p.table = (.ok ps, t) ∧
        Table.declare (d.stored p.table ps) t = (h, u) ∧
        p' = { p with table := u } := by
  have hget : (get : Loading Program) p = (.ok p, p) := rfl
  rw [declare, bind_apply_ok hget]
  dsimp only
  cases hn : p.table.named? d.storedName with
  | some k =>
      rw [Option.isSome_some, if_pos rfl]
      constructor
      · intro hd
        cases hd
      · rintro ⟨⟨⟩, -⟩
  | none =>
      rw [Option.isSome_none, if_neg Bool.false_ne_true]
      constructor
      · intro hd
        obtain ⟨ps, q, hps, hlast⟩ := bind_apply_eq_ok hd
        obtain ⟨t, ht, rfl⟩ := Loading.naming_eq_ok hps
        have hlast := eq_of_liftM_apply_ok hlast
        rw [Program.onTable_apply, Prod.mk.injEq] at hlast
        exact ⟨rfl, ps, t, _, ht, Prod.ext hlast.1 rfl, hlast.2.symm⟩
      · rintro ⟨-, ps, t, u, ht, hu, rfl⟩
        rw [bind_apply_ok (Loading.naming_apply_ok ht), liftM_apply_except,
          Program.onTable_apply]
        dsimp only
        rw [← stored, hu]

/-- The definition stored for a declared type, its links apart. -/
structure Stored (d : TypeDeclaration) (t : Table) (h : Handle)
    (e : Definition) : Prop where
  shape : t.shape? h = some (.named e)
  name : e.name = d.storedName
  kind : e.kind = d.kind.kind
  builtIn : e.builtIn = none
  isClosed : e.isClosed =
    d.isClosed.getD (d.kind.kind = .struct || d.kind.kind = .enum)
  parameters : List.Forall₂
    (fun q k => ∃ c, t.shape? k = some (.parameter q.name c) ∧ q.Demands c)
    d.parameters e.parameters

theorem Stored.length_parameters {e : Definition} (hd : d.Stored t h e) :
    e.parameters.length = d.parameters.length :=
  hd.parameters.length_eq.symm

theorem Stored.relinked {e : Definition} (hd : d.Stored t h e)
    {base : Option Handle} {interfaces : List Handle}
    (hs : u.shape? h =
      some (.named { e with base := base, interfaces := interfaces }))
    (q : t.PersistsIn u) :
    d.Stored u h { e with base := base, interfaces := interfaces } where
  shape := hs
  name := hd.name
  kind := hd.kind
  builtIn := hd.builtIn
  isClosed := hd.isClosed
  parameters := hd.parameters.imp fun _ _ ⟨c, hc, hdemands⟩ =>
    ⟨c, q.shape?_of_some hc (by simp), hdemands⟩

theorem Stored.persists {e : Definition} (hd : d.Stored t h e)
    (hs : u.shape? h = some (.named e)) (q : t.PersistsIn u) : d.Stored u h e := by
  have hsame : u.shape? h =
      some (.named { e with base := e.base, interfaces := e.interfaces }) := hs
  exact hd.relinked hsame q

/-- The type is declared, and not yet connected. -/
structure Declared (d : TypeDeclaration) (t : Table) (h : Handle)
    (e : Definition) : Prop extends d.Stored t h e where
  base : e.base = t.impliedBase? e.kind
  interfaces : e.interfaces = []

theorem Declared.persists {e : Definition} (hd : d.Declared t h e)
    (hs : u.shape? h = some (.named e)) (q : t.PersistsIn u)
    (hb : ∀ b, u.builtIn? b = t.builtIn? b) : d.Declared u h e where
  toStored := hd.toStored.persists hs q
  base := hd.base.trans (impliedBase?_congr hb e.kind).symm
  interfaces := hd.interfaces

theorem impliedBase?_kind (k : DeclaredKind) (t : Table) :
    k.impliedBase?.bind t.builtIn? = t.impliedBase? k.kind := by
  cases k <;> rfl

/-- Declaring a type stores it under a fresh handle. -/
theorem declare_eq_ok (hd : d.declare p = (.ok h, p')) :
    p.table.Retains p'.table ∧ p.table.knows h = false ∧
      ∃ e, d.Declared p'.table h e := by
  obtain ⟨hnew, ps, t, u, hps, hu, rfl⟩ := declare_eq_ok_iff.mp hd
  obtain ⟨g, hdemands⟩ := resolveParameters_eq_ok hps
  have hunnamed : t.named? (d.stored p.table ps).name = none :=
    (g.named?_eq _).trans hnew
  have hretains := g.retains.trans
    (retains_declare (d := d.stored p.table ps) rfl d.kind.isInertTarget_kind t)
  rw [hu] at hretains
  rw [declare_apply_of_unnamed hunnamed, Prod.mk.injEq] at hu
  obtain ⟨rfl, rfl⟩ := hu
  refine ⟨hretains, ?_, t.declared (d.stored p.table ps), ?_⟩
  · cases hk : p.table.knows (t.withParameters ps).fresh with
    | false => exact hk
    | true =>
        have hknown := knows_withParameters ps (g.knows hk)
        rw [knows_fresh] at hknown
        cases hknown
  · refine
      { shape := shape?_push_fresh _ _
        name := rfl
        kind := rfl
        builtIn := rfl
        isClosed := rfl
        parameters := ?_
        base := (impliedBase?_kind d.kind p.table).trans
          (impliedBase?_congr hretains.builtIn _).symm
        interfaces := rfl }
    refine (forall₂_of_common hdemands (t.shape?_upcoming ps)).imp ?_
    rintro q k ⟨x, ⟨hname, hx⟩, hk⟩
    exact ⟨x.2, hname ▸ shape?_push_of_shape? hk, hx⟩

/-- Every declared type gets a handle of its own. -/
theorem mapM_declare_eq_ok {ds : List TypeDeclaration} {hs : List Handle}
    (h : ds.mapM declare p = (.ok hs, p')) :
    p.table.Retains p'.table ∧ hs.Nodup ∧
      (∀ h ∈ hs, p.table.knows h = false) ∧
        List.Forall₂ (fun d h => ∃ e, d.Declared p'.table h e) ds hs := by
  induction ds generalizing p hs with
  | nil =>
      cases h
      exact ⟨.refl _, .nil, by simp, .nil⟩
  | cons d ds ih =>
      rw [List.mapM_cons] at h
      obtain ⟨a, p₁, hd, hrest⟩ := bind_apply_eq_ok h
      obtain ⟨as, p₂, hds, hlast⟩ := bind_apply_eq_ok hrest
      cases hlast
      obtain ⟨r, hnew, e, he⟩ := declare_eq_ok hd
      obtain ⟨r', hnodup, hnew', hall⟩ := ih hds
      refine ⟨r.trans r', List.nodup_cons.mpr ⟨?_, hnodup⟩, ?_, ?_⟩
      · intro hmem
        have hknown := knows_of_shape? he.shape
        rw [hnew' a hmem] at hknown
        cases hknown
      · rw [List.forall_mem_cons]
        exact ⟨hnew, fun k hk => r.unknown (hnew' k hk)⟩
      · exact .cons ⟨e, he.persists (r'.shape he.shape) r'.persistsIn r'.builtIn⟩ hall

/-- Declaring types leaves the rest of the program alone. -/
theorem rest_of_mapM_declare {ds : List TypeDeclaration} {hs : List Handle}
    (h : ds.mapM declare p = (.ok hs, p')) : p' = { p with table := p'.table } := by
  refine (mapM_apply_ok (R := fun p p' : Program => p' = { p with table := p'.table })
    (Q := fun _ _ => True) (fun _ => rfl) (fun h h' => by rw [h', h]) ?_ h).1
  intro d _ s s' b hd
  obtain ⟨-, ps, t, u, -, -, rfl⟩ := declare_eq_ok_iff.mp hd
  exact ⟨rfl, trivial⟩

/-! ## What is declared besides -/

/-- Declaring a type adds no other definition, and its type parameters with
it. -/
theorem definition_of_declare (hd : d.declare p = (.ok h, p')) {k : Handle}
    {e : Definition} (he : p'.table.shape? k = some (.named e)) :
    p.table.shape? k = some (.named e) ∨
      k = h ∧ ∀ q ∈ e.parameters, p.table.knows q = false := by
  obtain ⟨hnew, ps, t, u, hps, hu, rfl⟩ := declare_eq_ok_iff.mp hd
  obtain ⟨g, -⟩ := resolveParameters_eq_ok hps
  have hunnamed : t.named? (d.stored p.table ps).name = none :=
    (g.named?_eq _).trans hnew
  rw [declare_apply_of_unnamed hunnamed, Prod.mk.injEq] at hu
  obtain ⟨rfl, rfl⟩ := hu
  obtain ⟨rfl, heq⟩ | he := shape?_push_eq_some he
  · cases heq
    refine .inr ⟨rfl, fun q hq => ?_⟩
    exact g.retains.unknown (knows_of_mem_upcoming hq)
  · obtain he | ⟨q, -, heq⟩ := shape?_withParameters_eq_some he
    · rw [← definition?_eq_some_iff, g.definition?_eq, definition?_eq_some_iff] at he
      exact .inl he
    · cases heq

theorem definition_of_mapM_declare {ds : List TypeDeclaration} {hs : List Handle}
    (hds : ds.mapM declare p = (.ok hs, p')) {k : Handle} {e : Definition}
    (he : p'.table.shape? k = some (.named e)) :
    p.table.shape? k = some (.named e) ∨
      k ∈ hs ∧ ∀ q ∈ e.parameters, p.table.knows q = false := by
  induction ds generalizing p hs with
  | nil =>
      cases hds
      exact .inl he
  | cons d ds ih =>
      rw [List.mapM_cons] at hds
      obtain ⟨h, p₁, hd, hrest⟩ := bind_apply_eq_ok hds
      obtain ⟨hs, p₂, hds, hlast⟩ := bind_apply_eq_ok hrest
      cases hlast
      have r := (declare_eq_ok hd).1
      rcases ih hds with he | ⟨hk, hfresh⟩
      · obtain he | ⟨rfl, hfresh⟩ := definition_of_declare hd he
        · exact .inl he
        · exact .inr ⟨List.mem_cons_self, hfresh⟩
      · exact .inr ⟨List.mem_cons_of_mem h hk, fun q hq => r.unknown (hfresh q hq)⟩

end TypeDeclaration

end Verdicts
