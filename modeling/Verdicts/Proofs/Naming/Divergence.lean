import Verdicts.Proofs.Naming.Instances

/-!
# Where table and text part

Replacing the names of type parameters in a written expression always leads to
some type.  It is the type that the table puts in place of the expression if and
only if the expression nowhere mentions the declared type over its own type
parameters.
-/

namespace Verdicts

namespace TypeExpr

variable {foreign : Handle → Prop} {t u : Table} {h : Handle} {scope : Scope}

/-! ## Expressions that name something -/

theorem growsTo_resolveIn {e : TypeExpr} {r : Except NamingError Handle}
    (he : e.resolveIn scope t = (r, u)) : t.GrowsTo u := by
  have g := interns_resolveIn scope e t
  rwa [show (e.resolveIn scope).run t = _ from he] at g

theorem wellFormed_resolveIn (w : t.WellFormed noneForeign)
    {e : TypeExpr} {r : Except NamingError Handle}
    (he : e.resolveIn [] t = (r, u)) : u.WellFormed noneForeign := by
  have hself : AgreeOrFail noneForeign (t.itself noneForeign) (e.resolveIn [])
      (e.resolveIn []) Linked := agree_resolveIn .nil e
  have hu := w.of_agree (interns_resolveIn [] e) (Table.avoids_noneForeign _)
    hself
  rwa [show (e.resolveIn []).run t = _ from he] at hu

end TypeExpr

namespace Table

variable {c t u : Table} {h s : Handle} {d : Definition} {names : List String}
  {es : List TypeExpr} {as : List Handle}

/-- The expression resolves in every table that grows out of the given one. -/
def Resolves (c : Table) (e : TypeExpr) : Prop :=
  ∀ ⦃t⦄, c.GrowsTo t → t.WellFormed noneForeign →
    ∃ b u, e.resolveIn [] t = (.ok b, u)

theorem Resolves.array {e : TypeExpr} (he : c.Resolves e) :
    c.Resolves (.array e) := by
  intro t g w
  obtain ⟨b, u, hb⟩ := he g w
  exact ⟨_, _, by rw [TypeExpr.resolveIn, bind_apply_ok hb, liftM_apply_except]⟩

theorem Resolves.nullable {e : TypeExpr} (he : c.Resolves e) {k : Handle}
    (hk : c.builtIn? .nullableT = some k) : c.Resolves (.nullable e) := by
  intro t g w
  obtain ⟨b, u, hb⟩ := he g w
  have hk' : u.builtIn? .nullableT = some k := by
    rw [(TypeExpr.growsTo_resolveIn hb).builtIn?_eq, g.builtIn?_eq, hk]
  have hnull : nullableOf b u =
      (some (construct k [b] u).1, (construct k [b] u).2) := by
    rw [nullableOf, bind_apply, get_apply]
    simp only [hk', map_apply]
  refine ⟨(construct k [b] u).1, (construct k [b] u).2, ?_⟩
  rw [TypeExpr.resolveIn, bind_apply_ok hb, bind_apply_except, liftM_apply_except,
    hnull]
  rfl

theorem resolves_all {xs : List TypeExpr} (hxs : ∀ x ∈ xs, c.Resolves x)
    (g : c.GrowsTo t) (w : t.WellFormed noneForeign) :
    ∃ bs u, TypeExpr.resolveAllIn [] xs t = (.ok bs, u) := by
  induction xs generalizing t with
  | nil => exact ⟨[], t, rfl⟩
  | cons x xs ih =>
      rw [List.forall_mem_cons] at hxs
      obtain ⟨b, t', hb⟩ := hxs.1 g w
      obtain ⟨bs, u, hbs⟩ :=
        ih hxs.2 (g.trans (TypeExpr.growsTo_resolveIn hb)) (TypeExpr.wellFormed_resolveIn w hb)
      refine ⟨b :: bs, u, ?_⟩
      rw [TypeExpr.resolveAllIn, bind_apply_ok hb, bind_apply_ok hbs]
      rfl

theorem Resolves.applied {name : String} {xs : List TypeExpr}
    (hne : xs ≠ []) (hxs : ∀ x ∈ xs, c.Resolves x) {k : Handle}
    (hk : c.generic? name xs.length = some k) :
    c.Resolves (.named name xs) := by
  intro t g w
  obtain _ | ⟨first, rest⟩ := xs
  · exact absurd rfl hne
  rw [List.forall_mem_cons] at hxs
  have hget : (get : Naming Table) t = (.ok t, t) := rfl
  have hd : TypeExpr.genericDefinition t name (first :: rest) = .ok k := by
    rw [genericDefinition_eq_ok_iff, g.steady.generic?_eq, hk]
  obtain ⟨b, t', hb⟩ := hxs.1 g w
  obtain ⟨bs, u, hbs⟩ := resolves_all hxs.2
    (g.trans (TypeExpr.growsTo_resolveIn hb)) (TypeExpr.wellFormed_resolveIn w hb)
  refine ⟨(construct k (b :: bs) u).1, (construct k (b :: bs) u).2, ?_⟩
  rw [TypeExpr.resolveIn, bind_apply_ok hget]
  simp only [hd]
  rw [bind_apply_ok hb, bind_apply_ok hbs, liftM_apply_except]

theorem resolves_of_names {e : TypeExpr} (he : c.Names [] e s) :
    c.Resolves e :=
  fun t g w => ⟨s, t, TypeExpr.resolveIn_of_names w (g.steady.names he)⟩

namespace Instance

variable (i : c.Instance h d names es as) (w : c.WellFormed noneForeign)
include i w

/-- An expression that names a type in the declaration names one with the
arguments in place of the type parameters. -/
theorem resolves_replaced {own : TypeExpr.Application} {e : TypeExpr}
    (he : c.Names (names.zip d.parameters) e s) :
    c.Resolves (e.instantiate own d.name (names.zip es)) := by
  induction e using TypeExpr.induction generalizing s with
  | array e ih =>
      rw [Names] at he
      obtain ⟨a, ha, -⟩ := he
      rw [TypeExpr.instantiate]
      exact (ih ha).array
  | nullable e ih =>
      rw [Names] at he
      obtain ⟨a, k, ha, hk, -⟩ := he
      rw [TypeExpr.instantiate]
      exact (ih ha).nullable hk
  | plain name =>
      rw [Names] at he
      rw [TypeExpr.instantiate]
      obtain hl | ⟨hl, -⟩ := nameType?_cases he
      · obtain ⟨x, a, hx, -, hxa⟩ := lookup_zip_zip i.names i.length
          i.arguments (w.parameters_nodup i.shape) hl
        rw [hx]
        exact resolves_of_names hxa
      · rw [lookup_zip_eq_none_of i.names hl]
        rw [nameType?, hl] at he
        apply resolves_of_names (s := s)
        rw [Option.getD_none, Names, nameType?, List.lookup_nil]
        exact he
  | applied name first rest ih =>
      cases hown : own name (first :: rest) with
      | true =>
          rw [TypeExpr.instantiate_own hown]
          exact resolves_of_names (i.names_bare w (.refl c))
      | false =>
          rw [names_applied_iff] at he
          obtain ⟨k, bs, hk, hall, -⟩ := he
          rw [TypeExpr.instantiate_applied hown]
          apply Resolves.applied (by simp)
          · intro x hx
            obtain ⟨y, hy, rfl⟩ := List.mem_map.mp hx
            obtain ⟨b, -, hb⟩ := exists_of_forall₂ hall hy
            exact ih y hy hb
          · rw [List.length_map]
            exact hk

theorem resolves_substitute {e : TypeExpr}
    (he : c.Names (names.zip d.parameters) e s) :
    c.Resolves (e.substitute (names.zip es)) := by
  rw [← TypeExpr.instantiate_eq_substitute (TypeExpr.mentions_none e)]
  exact i.resolves_replaced w he

theorem resolves_instantiate {e : TypeExpr}
    (he : c.Names (names.zip d.parameters) e s) :
    c.Resolves (c.instantiate d.name names es e) :=
  i.resolves_replaced w he

/-- Where the declared type is mentioned over its own parameters, the table
puts another type in place of the expression than the text says. -/
theorem ne_of_mentions {e : TypeExpr}
    (hm : e.mentions (c.appliesOwn d.name names) = true) (g : c.GrowsTo t)
    (wt : t.WellFormed noneForeign) {a b : Handle}
    (ha : t.Names [] (c.instantiate d.name names es e) a)
    (hb : t.Names [] (e.substitute (names.zip es)) b) : a ≠ b := by
  induction e using TypeExpr.induction generalizing a b with
  | array e ih =>
      rw [TypeExpr.mentions] at hm
      rw [instantiate, TypeExpr.instantiate, Names] at ha
      rw [TypeExpr.substitute, Names] at hb
      obtain ⟨a', ha', hsa⟩ := ha
      obtain ⟨b', hb', hsb⟩ := hb
      rintro rfl
      cases hsa.symm.trans hsb
      exact ih hm ha' hb' rfl
  | nullable e ih =>
      rw [TypeExpr.mentions] at hm
      rw [instantiate, TypeExpr.instantiate, Names] at ha
      rw [TypeExpr.substitute, Names] at hb
      obtain ⟨a', k, ha', -, ha⟩ := ha
      obtain ⟨b', k', hb', -, hb⟩ := hb
      have hsa := shape?_of_applies_closed wt (by simp) (.cons ha' .nil) ha
      have hsb := shape?_of_applies_closed wt (by simp) (.cons hb' .nil) hb
      rintro rfl
      cases hsa.symm.trans hsb
      exact ih hm ha' hb' rfl
  | plain name => cases hm
  | applied name first rest ih =>
      rw [TypeExpr.substitute_applied, List.map_cons, names_applied_iff] at hb
      obtain ⟨k, bs, -, hbs, hb⟩ := hb
      have hsb := shape?_of_applies_closed wt (by simp) hbs hb
      rw [instantiate] at ha
      cases hown : c.appliesOwn d.name names name (first :: rest) with
      | true =>
          rw [TypeExpr.instantiate_own hown] at ha
          obtain rfl := wt.names_unique ha (i.names_bare w g)
          rintro rfl
          cases hsb.symm.trans (g.shape?_of_some i.shape)
      | false =>
          rw [TypeExpr.instantiate_applied hown, List.map_cons,
            names_applied_iff] at ha
          obtain ⟨k', as', -, has, ha⟩ := ha
          have hsa := shape?_of_applies_closed wt (by simp) has ha
          rintro rfl
          cases hsa.symm.trans hsb
          rw [TypeExpr.mentions_applied, hown, Bool.false_or,
            List.any_eq_true] at hm
          obtain ⟨x, hx, hmx⟩ := hm
          rw [← List.map_cons, List.forall₂_map_left_iff] at has hbs
          have hboth := List.Forall₂.mp (fun _ _ => And.intro) has hbs
          obtain ⟨b', -, hxa, hxb⟩ := exists_of_forall₂ hboth hx
          exact ih x hx hmx hxa hxb rfl

/-- Table and text agree on an expression exactly where it does not mention the
declared type over its own parameters. -/
theorem eq_iff_not_mentions {e : TypeExpr} (g : c.GrowsTo t)
    (wt : t.WellFormed noneForeign) {a b : Handle}
    (ha : t.Names [] (c.instantiate d.name names es e) a)
    (hb : t.Names [] (e.substitute (names.zip es)) b) :
    a = b ↔ e.mentions (c.appliesOwn d.name names) = false := by
  constructor
  · intro heq
    rw [← Bool.not_eq_true]
    intro hm
    exact i.ne_of_mentions w hm g wt ha hb heq
  · intro hm
    rw [instantiate, TypeExpr.instantiate_eq_substitute hm] at ha
    exact wt.names_unique ha hb

end Instance

end Table

end Verdicts
