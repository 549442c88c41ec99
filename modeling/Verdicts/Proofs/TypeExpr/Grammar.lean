import Mathlib.Data.List.Infix
import Verdicts.TypeExpr.Basic
import Verdicts.Text

/-!
# The grammar of type expressions

A derivation of a text from the grammar is a relation between the characters of
the text and the expression they stand for.  It does not mention a reader: a
type may be cut out of the text anywhere, and blanks may stand between any two
tokens.  The last section shows that the printed form of an expression is
derivable as soon as its names are.
-/

namespace Verdicts.TypeExpr

/-! ## Derivations -/

/-- A run of blanks, possibly empty. -/
def IsBlank (bs : List Char) : Prop :=
  ∀ c ∈ bs, Text.isBlank c = true

/-- The characters that may begin a name. -/
def IsLetter (c : Char) : Prop :=
  c.isAlpha = true ∨ c = '_'

/-- The characters that may go on with a name, of which the last is the
backtick. -/
def IsNamePart (c : Char) : Prop :=
  c.isAlphanum = true ∨ c = '_' ∨ c = '.' ∨ c = '\x60'

/-- The names of the grammar. -/
structure IsName (cs : List Char) : Prop where
  spelled : ∃ first rest,
    cs = first :: rest ∧ IsLetter first ∧ ∀ c ∈ rest, IsNamePart c
  noLastDot : ¬['.'] <:+ cs
  noDoubleDot : ¬['.', '.'] <:+: cs

mutual

/-- A text is derivable as a type, and the expression is the tree of the
derivation.  Neither end of the text is blank. -/
inductive IsType : List Char → TypeExpr → Prop
  | primary {cs e} (h : IsPrimary cs e) : IsType cs e
  | array {cs bs bs' e} (h : IsType cs e) (hb : IsBlank bs) (hb' : IsBlank bs') :
      IsType (cs ++ bs ++ '[' :: bs' ++ [']']) (.array e)
  | nullable {cs bs e} (h : IsType cs e) (hb : IsBlank bs) :
      IsType (cs ++ bs ++ ['?']) (.nullable e)

/-- A text is derivable as a name, possibly with type arguments. -/
inductive IsPrimary : List Char → TypeExpr → Prop
  | plain {name} (h : IsName name) : IsPrimary name (.named (String.ofList name) [])
  | applied {name bs cs es} (h : IsName name) (hb : IsBlank bs)
      (hs : IsArguments cs es) :
      IsPrimary (name ++ bs ++ '<' :: cs ++ ['>']) (.named (String.ofList name) es)

/-- A text is derivable as types that are separated by commas. -/
inductive IsArguments : List Char → List TypeExpr → Prop
  | last {bs cs bs' e} (hb : IsBlank bs) (h : IsType cs e) (hb' : IsBlank bs') :
      IsArguments (bs ++ cs ++ bs') [e]
  | more {bs cs bs' cs' e es} (hb : IsBlank bs) (h : IsType cs e)
      (hb' : IsBlank bs') (hs : IsArguments cs' es) :
      IsArguments (bs ++ cs ++ bs' ++ ',' :: cs') (e :: es)

end

/-- A text is derivable as one type, up to the blanks around it. -/
def Derives (cs : List Char) (e : TypeExpr) : Prop :=
  ∃ bs used bs', cs = bs ++ used ++ bs' ∧ IsBlank bs ∧ IsType used e ∧ IsBlank bs'

/-! ## Blanks and names -/

theorem isBlank_nil : IsBlank [] :=
  fun _ hc => absurd hc List.not_mem_nil

theorem IsType.derives {cs : List Char} {e : TypeExpr} (h : IsType cs e) :
    Derives cs e :=
  ⟨[], cs, [], by simp, isBlank_nil, h, isBlank_nil⟩

theorem IsLetter.isNamePart {c : Char} (h : IsLetter c) : IsNamePart c := by
  rcases h with h | rfl
  · exact .inl (by simp [Char.isAlphanum, h])
  · exact .inr (.inl rfl)

/-- A dot between two names makes no double dot. -/
theorem not_infix_append {cs ds : List Char} (hcs : ¬['.', '.'] <:+: cs)
    (hlast : ¬['.'] <:+ cs) (hds : ¬['.', '.'] <:+: ds) (hfirst : ¬['.'] <+: ds) :
    ¬['.', '.'] <:+: cs ++ '.' :: ds := by
  induction cs with
  | nil =>
      rw [List.nil_append, List.infix_cons_iff, List.cons_prefix_cons]
      exact not_or.mpr ⟨fun h => hfirst h.2, hds⟩
  | cons c cs ih =>
      rw [List.infix_cons_iff, not_or] at hcs
      rw [List.suffix_cons_iff, not_or] at hlast
      rw [List.cons_append, List.infix_cons_iff, List.cons_prefix_cons]
      refine not_or.mpr ⟨?_, ih hcs.2 hlast.2⟩
      rintro ⟨rfl, hnext⟩
      cases cs with
      | nil => exact hlast.1 rfl
      | cons c cs =>
          rw [List.cons_append, List.cons_prefix_cons] at hnext
          obtain ⟨rfl, -⟩ := hnext
          exact hcs.1 (by simp)

theorem IsName.append {cs ds : List Char} (hcs : IsName cs) (hds : IsName ds) :
    IsName (cs ++ '.' :: ds) := by
  obtain ⟨first, rest, rfl, hfirst, hrest⟩ := hcs.spelled
  obtain ⟨next, more, rfl, hnext, hmore⟩ := hds.spelled
  refine ⟨⟨first, rest ++ '.' :: next :: more, rfl, hfirst, ?_⟩, ?_, ?_⟩
  · rw [List.forall_mem_append, List.forall_mem_cons, List.forall_mem_cons]
    exact ⟨hrest, .inr (.inr (.inl rfl)), hnext.isNamePart, hmore⟩
  · have hlast := hds.noLastDot
    rw [List.singleton_suffix_iff_getLast?_eq_some] at hlast ⊢
    rwa [List.getLast?_append_of_ne_nil _ (List.cons_ne_nil _ _),
      List.getLast?_cons_cons]
  · refine not_infix_append hcs.noDoubleDot hcs.noLastDot hds.noDoubleDot ?_
    rw [List.cons_prefix_cons]
    rintro ⟨rfl, -⟩
    exact absurd hnext (by simp [IsLetter])

mutual

/-- The names that an expression mentions. -/
def names : TypeExpr → List String
  | .named name arguments => name :: namesOfAll arguments
  | .array e => e.names
  | .nullable e => e.names

/-- The names that arguments mention. -/
def namesOfAll : List TypeExpr → List String
  | [] => []
  | e :: rest => e.names ++ namesOfAll rest

end

theorem mem_namesOfAll {name : String} {es : List TypeExpr} :
    name ∈ namesOfAll es ↔ ∃ e ∈ es, name ∈ e.names := by
  induction es with
  | nil => simp [namesOfAll]
  | cons e es ih => simp [namesOfAll, ih]

/-- Every name of the expression is one of the grammar's. -/
def WellNamed (e : TypeExpr) : Prop :=
  ∀ name ∈ e.names, IsName name.toList

theorem wellNamed_array {e : TypeExpr} : (TypeExpr.array e).WellNamed ↔ e.WellNamed :=
  Iff.rfl

theorem wellNamed_nullable {e : TypeExpr} :
    (TypeExpr.nullable e).WellNamed ↔ e.WellNamed :=
  Iff.rfl

theorem wellNamed_named {name : String} {es : List TypeExpr} :
    (TypeExpr.named name es).WellNamed ↔
      IsName name.toList ∧ ∀ e ∈ es, e.WellNamed := by
  simp only [WellNamed, names, List.forall_mem_cons, mem_namesOfAll]
  constructor
  · exact fun ⟨hname, hes⟩ => ⟨hname, fun e he n hn => hes n ⟨e, he, hn⟩⟩
  · exact fun ⟨hname, hes⟩ => ⟨hname, fun n ⟨e, he, hn⟩ => hes e he n hn⟩

mutual

/-- Derivable texts stand for expressions whose names are the grammar's. -/
theorem IsType.wellNamed {cs : List Char} {e : TypeExpr} : IsType cs e → e.WellNamed
  | .primary h => h.wellNamed
  | .array h _ _ => wellNamed_array.mpr h.wellNamed
  | .nullable h _ => wellNamed_nullable.mpr h.wellNamed

theorem IsPrimary.wellNamed {cs : List Char} {e : TypeExpr} :
    IsPrimary cs e → e.WellNamed
  | .plain h => wellNamed_named.mpr ⟨by simpa using h, by simp⟩
  | .applied h _ hs => wellNamed_named.mpr ⟨by simpa using h, hs.wellNamed⟩

theorem IsArguments.wellNamed {cs : List Char} {es : List TypeExpr} :
    IsArguments cs es → ∀ e ∈ es, e.WellNamed
  | .last _ h _ => List.forall_mem_singleton.mpr h.wellNamed
  | .more _ h _ hs => List.forall_mem_cons.mpr ⟨h.wellNamed, hs.wellNamed⟩

end

theorem Derives.wellNamed {cs : List Char} {e : TypeExpr} (h : Derives cs e) :
    e.WellNamed := by
  obtain ⟨-, used, -, -, -, h, -⟩ := h
  exact h.wellNamed

/-! ## Printed expressions -/

/-- The printed form of arguments is derivable if that of each one is. -/
theorem isArguments_chars (first : TypeExpr) (rest : List TypeExpr)
    (h : ∀ e ∈ first :: rest, IsType e.chars e) :
    IsArguments (first.chars ++ charsOfRest rest) (first :: rest) := by
  have haround : IsArguments (first.chars ++ charsOfRest rest) (first :: rest) ∧
      IsArguments (' ' :: first.chars ++ charsOfRest rest) (first :: rest) := by
    have hfirst := h first List.mem_cons_self
    have hspace : IsBlank [' '] := by
      intro c hc
      obtain rfl := List.mem_singleton.mp hc
      decide
    induction rest generalizing first with
    | nil =>
        exact ⟨by simpa [charsOfRest] using
            IsArguments.last isBlank_nil hfirst isBlank_nil,
          by simpa [charsOfRest] using IsArguments.last hspace hfirst isBlank_nil⟩
    | cons next rest ih =>
        have hrest : ∀ e ∈ next :: rest, IsType e.chars e :=
          fun e he => h e (List.mem_cons_of_mem _ he)
        have hnext := (ih next hrest (hrest next List.mem_cons_self)).2
        exact ⟨by simpa [charsOfRest] using
            IsArguments.more isBlank_nil hfirst isBlank_nil hnext,
          by simpa [charsOfRest] using
            IsArguments.more hspace hfirst isBlank_nil hnext⟩
  exact haround.1

/-- The printed form of an expression whose names are the grammar's is
derivable, and the expression is its tree. -/
theorem isType_chars {e : TypeExpr} (h : e.WellNamed) : IsType e.chars e := by
  induction e using TypeExpr.induction with
  | array e ih =>
      simpa [chars] using
        IsType.array (ih (wellNamed_array.mp h)) isBlank_nil isBlank_nil
  | nullable e ih =>
      simpa [chars] using IsType.nullable (ih (wellNamed_nullable.mp h)) isBlank_nil
  | plain name =>
      simpa [chars] using
        IsType.primary (IsPrimary.plain (wellNamed_named.mp h).1)
  | applied name first rest ih =>
      obtain ⟨hname, hes⟩ := wellNamed_named.mp h
      have hargs := isArguments_chars first rest fun e he => ih e he (hes e he)
      simpa [chars] using
        IsType.primary (IsPrimary.applied hname isBlank_nil hargs)

end Verdicts.TypeExpr
