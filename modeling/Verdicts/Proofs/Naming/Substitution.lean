import Verdicts.TypeExpr.Basic

/-!
# Substitution in expressions

A reader who replaces type parameters by type arguments replaces plain names in
an expression.  A second form of replacing leaves certain applications standing
as bare names; where an expression mentions none of these, the two forms do the
same.
-/

namespace Verdicts

namespace TypeExpr

/-! ## Expressions -/

/-- The name, if the expression is a plain name. -/
def plainName? : TypeExpr → Option String
  | .named name [] => some name
  | _ => none

theorem plainName?_eq_some_iff {e : TypeExpr} {name : String} :
    e.plainName? = some name ↔ e = .named name [] := by
  match e with
  | .named n [] => simp [plainName?]
  | .named n (first :: rest) => simp [plainName?]
  | .array e | .nullable e => simp [plainName?]

theorem map_plainName?_iff {es : List TypeExpr} {names : List String} :
    es.map plainName? = names.map some ↔
      es = names.map fun name => .named name [] := by
  induction es generalizing names with
  | nil => cases names <;> simp
  | cons e es ih =>
      cases names with
      | nil => simp
      | cons name names =>
          simp only [List.map_cons, List.cons.injEq, ih,
            plainName?_eq_some_iff]

mutual

/-- The number of levels of an expression above its deepest name. -/
def depth : TypeExpr → Nat
  | .array e => e.depth + 1
  | .nullable e => e.depth + 1
  | .named _ arguments => depthAll arguments

/-- The number of levels that arguments add. -/
def depthAll : List TypeExpr → Nat
  | [] => 0
  | e :: rest => max (e.depth + 1) (depthAll rest)

end

mutual

/-- The expression with other expressions in place of plain names. -/
def substitute (σ : List (String × TypeExpr)) : TypeExpr → TypeExpr
  | .array e => .array (e.substitute σ)
  | .nullable e => .nullable (e.substitute σ)
  | .named name [] => (σ.lookup name).getD (.named name [])
  | .named name (first :: rest) =>
    .named name (first.substitute σ :: substituteAll σ rest)

/-- The expressions with other expressions in place of plain names. -/
def substituteAll (σ : List (String × TypeExpr)) :
    List TypeExpr → List TypeExpr
  | [] => []
  | e :: rest => e.substitute σ :: substituteAll σ rest

end

/-- A condition on a name with type arguments. -/
abbrev Application := String → List TypeExpr → Bool

mutual

/-- The expression with other expressions in place of plain names, and a bare
name in place of the applications that satisfy a condition. -/
def instantiate (own : Application) (bare : String)
    (σ : List (String × TypeExpr)) : TypeExpr → TypeExpr
  | .array e => .array (e.instantiate own bare σ)
  | .nullable e => .nullable (e.instantiate own bare σ)
  | .named name [] => (σ.lookup name).getD (.named name [])
  | .named name (first :: rest) =>
    if own name (first :: rest) then .named bare []
    else .named name
      (first.instantiate own bare σ :: instantiateAll own bare σ rest)

/-- The expressions with other expressions in place of plain names, and a bare
name in place of the applications that satisfy a condition. -/
def instantiateAll (own : Application) (bare : String)
    (σ : List (String × TypeExpr)) : List TypeExpr → List TypeExpr
  | [] => []
  | e :: rest => e.instantiate own bare σ :: instantiateAll own bare σ rest

end

mutual

/-- Whether an application in the expression satisfies a condition. -/
def mentions (own : Application) : TypeExpr → Bool
  | .array e => e.mentions own
  | .nullable e => e.mentions own
  | .named _ [] => false
  | .named name (first :: rest) =>
    own name (first :: rest) || first.mentions own || mentionsAny own rest

/-- Whether an application in some expression satisfies a condition. -/
def mentionsAny (own : Application) : List TypeExpr → Bool
  | [] => false
  | e :: rest => e.mentions own || mentionsAny own rest

end

section

variable {own : Application} {bare name : String}
  {σ : List (String × TypeExpr)} {first : TypeExpr} {rest : List TypeExpr}

theorem substitute_applied : substitute σ (.named name (first :: rest)) =
    .named name ((first :: rest).map (substitute σ)) := by
  have hall : ∀ es, substituteAll σ es = es.map (substitute σ) := by
    intro es
    induction es with
    | nil => rfl
    | cons e es ih => rw [substituteAll, ih, List.map_cons]
  rw [substitute, hall, List.map_cons]

theorem instantiate_own (hown : own name (first :: rest) = true) :
    instantiate own bare σ (.named name (first :: rest)) = .named bare [] := by
  rw [instantiate, if_pos hown]

theorem instantiate_applied (hown : own name (first :: rest) = false) :
    instantiate own bare σ (.named name (first :: rest)) =
      .named name ((first :: rest).map (instantiate own bare σ)) := by
  have hall : ∀ es,
      instantiateAll own bare σ es = es.map (instantiate own bare σ) := by
    intro es
    induction es with
    | nil => rfl
    | cons e es ih => rw [instantiateAll, ih, List.map_cons]
  rw [instantiate, if_neg (by simp [hown]), hall, List.map_cons]

theorem mentions_applied : mentions own (.named name (first :: rest)) =
    (own name (first :: rest) || (first :: rest).any (mentions own)) := by
  have hany : ∀ es, mentionsAny own es = es.any (mentions own) := by
    intro es
    induction es with
    | nil => rfl
    | cons e es ih => rw [mentionsAny, ih, List.any_cons]
  rw [mentions, hany, List.any_cons, Bool.or_assoc]

theorem depth_lt_of_mem {es : List TypeExpr} {e : TypeExpr} (he : e ∈ es) :
    e.depth < (TypeExpr.named name es).depth := by
  rw [depth]
  induction es with
  | nil => cases he
  | cons e' es ih =>
      rw [depthAll]
      rcases List.mem_cons.mp he with rfl | he
      · omega
      · have := ih he
        omega

/-- Where no application satisfies the condition, only names are replaced. -/
theorem instantiate_eq_substitute {e : TypeExpr}
    (he : e.mentions own = false) :
    e.instantiate own bare σ = e.substitute σ := by
  induction e using TypeExpr.induction with
  | array e ih =>
      rw [mentions] at he
      rw [instantiate, substitute, ih he]
  | nullable e ih =>
      rw [mentions] at he
      rw [instantiate, substitute, ih he]
  | plain name => rw [instantiate, substitute]
  | applied name first rest ih =>
      rw [mentions_applied, Bool.or_eq_false_iff, List.any_eq_false] at he
      rw [instantiate_applied he.1, substitute_applied]
      congr 1
      apply List.map_congr_left
      intro e hmem
      exact ih e hmem (by simpa using he.2 e hmem)

theorem mentions_none (e : TypeExpr) :
    e.mentions (fun _ _ => false) = false := by
  induction e using TypeExpr.induction with
  | array e ih => rwa [mentions]
  | nullable e ih => rwa [mentions]
  | plain name => rw [mentions]
  | applied name first rest ih =>
      rw [mentions_applied, Bool.false_or, List.any_eq_false]
      intro e he
      rw [ih e he]
      decide

end

end TypeExpr

end Verdicts
