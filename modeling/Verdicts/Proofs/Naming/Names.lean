import Verdicts.Proofs.Types.Canonical

/-!
# What expressions name, as a relation

Resolving an expression stores the types that it names.  The relation of this
module says which type an expression names in a table that has all of them; it
stores nothing, and it stays as a table grows.  Resolving answers a handle
exactly when the expression names it afterwards.
-/

namespace Verdicts

variable {foreign : Handle → Prop} {t u : Table} {h : Handle} {scope : Scope}

namespace Table

/-- The generic definition of a name with a number of type arguments. -/
def generic? (t : Table) (name : String) (n : Nat) : Option Handle :=
  t.lookup? (name ++ "`" ++ Text.numeral n)

/-- The handle is that of a definition applied to arguments: the definition
itself, when these are its own type parameters. -/
def Applies (t : Table) (definition : Handle) (arguments : List Handle)
    (h : Handle) : Prop :=
  if t.ownsAll definition arguments = true then h = definition
  else t.shape? h = some (.constructed definition arguments)

mutual

/-- The expression names the handle. -/
def Names (t : Table) (scope : Scope) : TypeExpr → Handle → Prop
  | .array e, h => ∃ a, Names t scope e a ∧ t.shape? h = some (.array a)
  | .nullable e, h => ∃ a d, Names t scope e a ∧
      t.builtIn? .nullableT = some d ∧ t.Applies d [a] h
  | .named name [], h => t.nameType? scope name = some h
  | .named name (first :: rest), h => ∃ d a as,
      t.generic? name (rest.length + 1) = some d ∧
        Names t scope first a ∧ NamesAll t scope rest as ∧
          t.Applies d (a :: as) h

/-- The expressions name the handles, one by one. -/
def NamesAll (t : Table) (scope : Scope) : List TypeExpr → List Handle → Prop
  | [], hs => hs = []
  | e :: rest, hs => ∃ a as, hs = a :: as ∧
      Names t scope e a ∧ NamesAll t scope rest as

end

theorem namesAll_iff {es : List TypeExpr} {hs : List Handle} :
    t.NamesAll scope es hs ↔ List.Forall₂ (t.Names scope) es hs := by
  induction es generalizing hs with
  | nil => simp [NamesAll]
  | cons e es ih =>
      rw [NamesAll, List.forall₂_cons_left_iff]
      simp only [ih]
      constructor
      · rintro ⟨a, as, rfl, ha, has⟩
        exact ⟨a, as, ha, has, rfl⟩
      · rintro ⟨a, as, ha, has, rfl⟩
        exact ⟨a, as, rfl, ha, has⟩

theorem names_applied_iff {name : String} {first : TypeExpr}
    {rest : List TypeExpr} :
    t.Names scope (.named name (first :: rest)) h ↔ ∃ d as,
      t.generic? name (rest.length + 1) = some d ∧
        List.Forall₂ (t.Names scope) (first :: rest) as ∧
          t.Applies d as h := by
  rw [Names]
  simp only [namesAll_iff]
  constructor
  · rintro ⟨d, a, as, hd, ha, has, hh⟩
    exact ⟨d, a :: as, hd, .cons ha has, hh⟩
  · rintro ⟨d, as, hd, hall, hh⟩
    cases hall with
    | cons ha has => exact ⟨d, _, _, hd, ha, has, hh⟩

theorem genericDefinition_eq_ok_iff {name : String} {es : List TypeExpr} :
    TypeExpr.genericDefinition t name es = .ok h ↔
      t.generic? name es.length = some h := by
  rw [TypeExpr.genericDefinition, generic?]
  split
  · next d hd => simp [hd]
  · next hnone =>
      rw [hnone]
      split <;> simp

/-! ## Applications -/

theorem growsTo_arrayOf (element : Handle) (t : Table) :
    t.GrowsTo (arrayOf element t).2 :=
  interns_arrayOf element t

theorem growsTo_construct (definition : Handle) (arguments : List Handle)
    (t : Table) : t.GrowsTo (construct definition arguments t).2 :=
  interns_construct definition arguments t

theorem applies_construct (definition : Handle) (arguments : List Handle)
    (t : Table) :
    (construct definition arguments t).2.Applies definition arguments
      (construct definition arguments t).1 := by
  obtain ⟨hown, heq⟩ | hs := construct_cases definition arguments t
  · rw [heq, Applies, if_pos hown]
  · have g := growsTo_construct definition arguments t
    rw [Applies, g.steady.ownsAll_eq]
    split
    · next hown => rw [construct_apply_of_own hown]
    · exact hs

theorem construct_of_applies (w : t.WellFormed foreign) {d : Handle}
    {as : List Handle} (hh : t.Applies d as h) : construct d as t = (h, t) := by
  rw [Applies] at hh
  split at hh
  · next hown => rw [construct_apply_of_own hown, hh]
  · next hown =>
      rw [construct_apply_of_not_own hown]
      exact intern_apply_of_some (w.stored?_of_shape? rfl hh)

theorem Applies.mono (q : t.Steady u) {d : Handle} {as : List Handle}
    (hh : t.Applies d as h) : u.Applies d as h := by
  rw [Applies] at hh ⊢
  rw [q.ownsAll_eq]
  split at hh
  · next hown => rwa [if_pos hown]
  · next hown =>
      rw [if_neg hown]
      exact q.shape?_of_some hh (by simp)

theorem shape?_of_applies {d : Handle} {as : List Handle}
    (hh : t.Applies d as h) :
    (∃ e, t.shape? h = some (.named e)) ∨
      t.shape? h = some (.constructed d as) := by
  rw [Applies] at hh
  split at hh
  · next hown =>
      obtain ⟨e, he, -⟩ := ownsAll_iff.mp hown
      rw [hh]
      exact .inl ⟨e, he⟩
  · exact .inr hh

theorem not_parameter_of_applies {d : Handle} {as : List Handle}
    (hh : t.Applies d as h) (name : String) (c : Constraints) :
    t.shape? h ≠ some (.parameter name c) := by
  rcases shape?_of_applies hh with ⟨e, he⟩ | hs
  · simp [he]
  · simp [hs]

/-! ## Names of parameters -/

theorem definition_of_lookup? {name : String} (hh : t.lookup? name = some h) :
    ∃ d, t.shape? h = some (.named d) := by
  rw [lookup?] at hh
  cases hn : t.named? name with
  | some k =>
      rw [hn] at hh
      cases hh
      obtain ⟨d, hd, -⟩ := definition?_of_named? hn
      exact ⟨d, hd⟩
  | none =>
      rw [hn] at hh
      obtain ⟨space, -, hspace⟩ := List.exists_of_findSome?_eq_some hh
      obtain ⟨d, hd, -⟩ := definition?_of_named? hspace
      exact ⟨d, hd⟩

/-- A plain name names a type parameter in scope or a type with a name of its
own. -/
theorem nameType?_cases {name : String}
    (hh : t.nameType? scope name = some h) :
    scope.lookup name = some h ∨
      scope.lookup name = none ∧ ∃ d, t.shape? h = some (.named d) := by
  rw [nameType?] at hh
  cases hl : scope.lookup name with
  | some p =>
      rw [hl] at hh
      exact .inl hh
  | none =>
      rw [hl] at hh
      refine .inr ⟨rfl, ?_⟩
      dsimp only at hh
      split at hh
      · obtain ⟨d, hd, -⟩ := definition?_of_builtIn? hh
        exact ⟨d, hd⟩
      · exact definition_of_lookup? hh

/-- A type parameter is named by its plain name only. -/
theorem plain_of_names_parameter {e : TypeExpr} (he : t.Names scope e h)
    {n : String} {c : Constraints} (hs : t.shape? h = some (.parameter n c)) :
    ∃ name, e = .named name [] ∧ scope.lookup name = some h := by
  match e with
  | .array e =>
      rw [Names] at he
      obtain ⟨a, -, ha⟩ := he
      rw [hs] at ha
      cases ha
  | .nullable e =>
      rw [Names] at he
      obtain ⟨a, d, -, -, hh⟩ := he
      exact absurd hs (not_parameter_of_applies hh n c)
  | .named name [] =>
      rw [Names] at he
      obtain hl | ⟨-, d, hd⟩ := nameType?_cases he
      · exact ⟨name, rfl, hl⟩
      · rw [hs] at hd
        cases hd
  | .named name (first :: rest) =>
      rw [names_applied_iff] at he
      obtain ⟨d, as, -, -, hh⟩ := he
      exact absurd hs (not_parameter_of_applies hh n c)

/-! ## Names of arrays and constructed types -/

/-- Outside all scopes, expressions name definitions, arrays of what is named
and definitions applied to what is named. -/
theorem shape?_of_closed {e : TypeExpr} (he : t.Names [] e h) :
    (∃ d, t.shape? h = some (.named d)) ∨
      (∃ a e', t.shape? h = some (.array a) ∧ t.Names [] e' a) ∨
        ∃ d as es, t.shape? h = some (.constructed d as) ∧
          (∃ e', t.shape? d = some (.named e')) ∧ es ≠ [] ∧
            List.Forall₂ (t.Names []) es as := by
  match e with
  | .array e =>
      rw [Names] at he
      obtain ⟨a, ha, hs⟩ := he
      exact .inr (.inl ⟨a, e, hs, ha⟩)
  | .nullable e =>
      rw [Names] at he
      obtain ⟨a, d, ha, hd, hh⟩ := he
      rcases shape?_of_applies hh with hs | hs
      · exact .inl hs
      · obtain ⟨e', he', -⟩ := definition?_of_builtIn? hd
        exact .inr (.inr ⟨d, [a], [e], hs, ⟨e', he'⟩, by simp, .cons ha .nil⟩)
  | .named name [] =>
      rw [Names] at he
      obtain hl | ⟨-, hd⟩ := nameType?_cases he
      · cases hl
      · exact .inl hd
  | .named name (first :: rest) =>
      rw [names_applied_iff] at he
      obtain ⟨d, as, hd, has, hh⟩ := he
      rcases shape?_of_applies hh with hs | hs
      · exact .inl hs
      · exact .inr (.inr ⟨d, as, _, hs, definition_of_lookup? hd,
          List.cons_ne_nil _ _, has⟩)

/-! ## Steady tables -/

namespace Steady

variable (q : t.Steady u)
include q

theorem lookup?_eq (name : String) : u.lookup? name = t.lookup? name := by
  simp only [lookup?, q.named]

theorem generic?_eq (name : String) (n : Nat) :
    u.generic? name n = t.generic? name n :=
  q.lookup?_eq _

theorem nameType?_eq (scope : Scope) (name : String) :
    u.nameType? scope name = t.nameType? scope name := by
  simp only [nameType?, q.builtIn, q.lookup?_eq]

/-- An expression goes on to name what it named. -/
theorem names {e : TypeExpr} (he : t.Names scope e h) : u.Names scope e h := by
  induction e using TypeExpr.induction generalizing h with
  | array e ih =>
      rw [Names] at he ⊢
      obtain ⟨a, ha, hs⟩ := he
      exact ⟨a, ih ha, q.shape?_of_some hs (by simp)⟩
  | nullable e ih =>
      rw [Names] at he ⊢
      obtain ⟨a, d, ha, hd, hh⟩ := he
      exact ⟨a, d, ih ha, (q.builtIn _).trans hd, hh.mono q⟩
  | plain name =>
      rw [Names] at he ⊢
      rwa [q.nameType?_eq]
  | applied name first rest ih =>
      rw [names_applied_iff] at he ⊢
      obtain ⟨d, as, hd, has, hh⟩ := he
      refine ⟨d, as, (q.generic?_eq _ _).trans hd, ?_, hh.mono q⟩
      have hboth : List.Forall₂
          (fun e a => (∀ h, t.Names scope e h → u.Names scope e h) ∧
            t.Names scope e a) (first :: rest) as :=
        List.forall₂_and_left _ _ |>.mpr ⟨fun e he _ => ih e he, has⟩
      exact hboth.imp fun e a hea => hea.1 a hea.2

theorem namesAll {es : List TypeExpr} {hs : List Handle}
    (he : List.Forall₂ (t.Names scope) es hs) :
    List.Forall₂ (u.Names scope) es hs :=
  he.imp fun _ _ => q.names

end Steady

end Table

namespace TypeExpr

/-! ## Resolving -/

theorem growsTo_resolveAllIn {es : List TypeExpr} {hs : List Handle}
    (hes : resolveAllIn scope es t = (.ok hs, u)) : t.GrowsTo u := by
  have hinterns : Interns (resolveAllIn scope es).run :=
    interns_resolveAllIn fun e _ => interns_resolveIn scope e
  have g := hinterns t
  rwa [show (resolveAllIn scope es).run t = _ from hes] at g

theorem namesAll_of_resolveAllIn {es : List TypeExpr} {hs : List Handle}
    (ih : ∀ e ∈ es, ∀ {t u : Table} {h : Handle},
      e.resolveIn scope t = (.ok h, u) → u.Names scope e h)
    (hes : resolveAllIn scope es t = (.ok hs, u)) :
    List.Forall₂ (u.Names scope) es hs := by
  induction es generalizing t hs with
  | nil =>
      cases hes
      exact .nil
  | cons e es ihes =>
      rw [List.forall_mem_cons] at ih
      rw [resolveAllIn] at hes
      obtain ⟨a, s, ha, hrest⟩ := bind_apply_eq_ok hes
      obtain ⟨as, s', has, hlast⟩ := bind_apply_eq_ok hrest
      cases hlast
      have g := growsTo_resolveAllIn has
      exact .cons (g.steady.names (ih.1 ha)) (ihes ih.2 has)

/-- A resolved expression names the handle that was answered. -/
theorem names_of_resolveIn {e : TypeExpr}
    (he : e.resolveIn scope t = (.ok h, u)) : u.Names scope e h := by
  induction e using TypeExpr.induction generalizing t u h with
  | array e ih =>
      rw [resolveIn] at he
      obtain ⟨a, s, ha, hlast⟩ := bind_apply_eq_ok he
      have hlast := eq_of_liftM_apply_ok hlast
      have g := Table.growsTo_arrayOf a s
      have hs := Table.shape?_arrayOf a s
      rw [hlast] at g hs
      rw [Table.Names]
      exact ⟨a, g.steady.names (ih ha), hs⟩
  | nullable e ih =>
      rw [resolveIn] at he
      obtain ⟨a, s, ha, hrest⟩ := bind_apply_eq_ok he
      obtain ⟨b, s', hnull, hlast⟩ := bind_apply_eq_ok hrest
      have hnull := eq_of_liftM_apply_ok hnull
      rw [Table.nullableOf, bind_apply, get_apply] at hnull
      cases hd : s.builtIn? .nullableT with
      | none =>
          simp only [hd, pure_apply] at hnull
          cases hnull
          cases hlast
      | some d =>
          simp only [hd, map_apply] at hnull
          cases hnull
          cases hlast
          have g := Table.growsTo_construct d [a] s
          rw [Table.Names]
          exact ⟨a, d, g.steady.names (ih ha), (g.builtIn?_eq _).trans hd,
            Table.applies_construct d [a] s⟩
  | plain name =>
      rw [resolveIn] at he
      obtain ⟨s, s', hget, hlast⟩ := bind_apply_eq_ok he
      cases hget
      rw [Table.Names]
      cases hn : t.nameType? scope name with
      | none =>
          simp only [hn] at hlast
          cases hlast
      | some b =>
          simp only [hn] at hlast
          cases hlast
          exact hn
  | applied name first rest ih =>
      rw [resolveIn] at he
      obtain ⟨s, s', hget, hrest⟩ := bind_apply_eq_ok he
      cases hget
      cases hd : genericDefinition t name (first :: rest) with
      | error e =>
          simp only [hd] at hrest
          cases hrest
      | ok d =>
          simp only [hd] at hrest
          obtain ⟨a, s₁, ha, hrest⟩ := bind_apply_eq_ok hrest
          obtain ⟨as, s₂, has, hlast⟩ := bind_apply_eq_ok hrest
          have hlast := eq_of_liftM_apply_ok hlast
          have hall : resolveAllIn scope (first :: rest) t =
              (.ok (a :: as), s₂) := by
            rw [resolveAllIn, bind_apply_ok ha, bind_apply_ok has]
            rfl
          have g := growsTo_resolveAllIn hall
          have g' := Table.growsTo_construct d (a :: as) s₂
          have hh := Table.applies_construct d (a :: as) s₂
          rw [hlast] at g' hh
          dsimp only at g' hh
          rw [Table.names_applied_iff]
          refine ⟨d, a :: as, ?_, ?_, hh⟩
          · have hgeneric := Table.genericDefinition_eq_ok_iff.mp hd
            exact ((g.trans g').steady.generic?_eq _ _).trans hgeneric
          · exact g'.steady.namesAll (namesAll_of_resolveAllIn ih hall)

theorem resolveAllIn_of_namesAll {es : List TypeExpr} {hs : List Handle}
    (ih : ∀ e ∈ es, ∀ h, t.Names scope e h →
      e.resolveIn scope t = (.ok h, t))
    (hes : List.Forall₂ (t.Names scope) es hs) :
    resolveAllIn scope es t = (.ok hs, t) := by
  induction hes with
  | nil => rfl
  | cons ha _ ihes =>
      rw [List.forall_mem_cons] at ih
      rw [resolveAllIn, bind_apply_ok (ih.1 _ ha), bind_apply_ok (ihes ih.2)]
      rfl

/-- An expression that names a handle resolves to it, and stores nothing. -/
theorem resolveIn_of_names (w : t.WellFormed foreign) {e : TypeExpr}
    (he : t.Names scope e h) : e.resolveIn scope t = (.ok h, t) := by
  induction e using TypeExpr.induction generalizing h with
  | array e ih =>
      rw [Table.Names] at he
      obtain ⟨a, ha, hs⟩ := he
      rw [resolveIn, bind_apply_ok (ih ha), liftM_apply_except,
        Table.arrayOf_eq_intern,
        Table.intern_apply_of_some (w.stored?_of_shape? rfl hs)]
  | nullable e ih =>
      rw [Table.Names] at he
      obtain ⟨a, d, ha, hd, hh⟩ := he
      have hnull : Table.nullableOf a t = (some h, t) := by
        rw [Table.nullableOf, bind_apply, get_apply]
        simp only [hd, map_apply, Table.construct_of_applies w hh]
      rw [resolveIn, bind_apply_ok (ih ha), bind_apply_except,
        liftM_apply_except, hnull]
      rfl
  | plain name =>
      rw [Table.Names] at he
      have hget : (get : Naming Table) t = (.ok t, t) := rfl
      rw [resolveIn, bind_apply_ok hget]
      simp only [he]
      rfl
  | applied name first rest ih =>
      rw [Table.names_applied_iff] at he
      obtain ⟨d, as, hd, has, hh⟩ := he
      have hd : genericDefinition t name (first :: rest) = .ok d :=
        Table.genericDefinition_eq_ok_iff.mpr hd
      have hget : (get : Naming Table) t = (.ok t, t) := rfl
      rw [List.forall_mem_cons] at ih
      cases has with
      | cons ha has =>
          have hrest : resolveAllIn scope rest t = _ :=
            resolveAllIn_of_namesAll (fun e he h => ih.2 e he) has
          rw [resolveIn, bind_apply_ok hget]
          simp only [hd]
          rw [bind_apply_ok (ih.1 ha), bind_apply_ok hrest,
            liftM_apply_except, Table.construct_of_applies w hh]

end TypeExpr

/-! ## Answers -/

namespace Table.WellFormed

variable (w : t.WellFormed foreign)
include w

/-- An expression names one handle. -/
theorem names_unique {e : TypeExpr} {k : Handle} (hh : t.Names scope e h)
    (hk : t.Names scope e k) : h = k := by
  have heq := (TypeExpr.resolveIn_of_names w hh).symm.trans
    (TypeExpr.resolveIn_of_names w hk)
  exact Except.ok.inj (congrArg Prod.fst heq)

theorem knows_of_names {e : TypeExpr}
    (hscope : ∀ p ∈ scope, t.knows p.2 = true) (hh : t.Names scope e h) :
    t.knows h = true :=
  e.knows_resolveIn hscope (TypeExpr.resolveIn_of_names w hh)

end Table.WellFormed

end Verdicts
