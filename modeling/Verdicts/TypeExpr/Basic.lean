/-!
# Type expressions

A type expression names a type the way a user writes it: a name, possibly with
type arguments, followed by array brackets and question marks.
-/

namespace Verdicts

/-- A written type. -/
inductive TypeExpr where
  /-- A name, with type arguments unless the list is empty. -/
  | named (name : String) (arguments : List TypeExpr)
  | array (element : TypeExpr)
  | nullable (underlying : TypeExpr)
  deriving Repr, Inhabited

namespace TypeExpr

mutual

/-- The characters of a type expression. -/
def chars : TypeExpr → List Char
  | .named name [] => name.toList
  | .named name (first :: rest) =>
    name.toList ++ '<' :: first.chars ++ charsOfRest rest ++ ['>']
  | .array element => element.chars ++ ['[', ']']
  | .nullable underlying => underlying.chars ++ ['?']

/-- The later arguments, each after a comma and a blank. -/
def charsOfRest : List TypeExpr → List Char
  | [] => []
  | argument :: rest => ',' :: ' ' :: argument.chars ++ charsOfRest rest

end

/-- The text of a type expression. -/
def text (e : TypeExpr) : String :=
  String.ofList e.chars

/-! ## Induction -/

/-- A property of all type expressions follows from its being handed on by
every form of expression; a name without arguments is a form of its own. -/
theorem induction {P : TypeExpr → Prop} (array : ∀ e, P e → P (.array e))
    (nullable : ∀ e, P e → P (.nullable e))
    (plain : ∀ name, P (.named name []))
    (applied : ∀ name first rest, (∀ e ∈ first :: rest, P e) →
      P (.named name (first :: rest))) (e : TypeExpr) : P e := by
  have hall : ∀ name arguments, (∀ e ∈ arguments, P e) →
      P (.named name arguments) := by
    rintro name (_ | ⟨first, rest⟩) hargs
    · exact plain name
    · exact applied name first rest hargs
  refine TypeExpr.rec (motive_1 := P)
    (motive_2 := fun arguments => ∀ e ∈ arguments, P e)
    hall array nullable ?_ ?_ e
  · intro e he
    cases he
  · intro first rest hfirst hrest
    exact List.forall_mem_cons.mpr ⟨hfirst, hrest⟩

end TypeExpr

end Verdicts
