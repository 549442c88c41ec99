import Mathlib.Data.List.Basic
import Verdicts.Proofs.Naming.Instances
import Verdicts.Proofs.TypeExpr.Parsing
import Verdicts.Types.Display

/-!
# Display names as expressions

A display name is the text of an expression.  The names in that expression are
those that the table stores, without the number of type parameters: each of them
is looked up as it stands, so that neither a keyword nor an open namespace can
lead elsewhere, and the number of type arguments finds the definition again.
-/

namespace Verdicts

open Table

/-- The name holds no backtick, behind which a number of type parameters would
stand. -/
def Unmarked (name : String) : Prop :=
  '\x60' ∉ name.toList

instance (name : String) : Decidable (Unmarked name) :=
  inferInstanceAs (Decidable ('\x60' ∉ name.toList))

/-! ## Texts -/

namespace TypeExpr

theorem text_array (e : TypeExpr) : (array e).text = e.text ++ "[]" := by
  simp [text, chars]

theorem text_nullable (e : TypeExpr) : (nullable e).text = e.text ++ "?" := by
  simp [text, chars]

theorem text_plain (name : String) : (named name []).text = name := by
  simp [text, chars]

theorem toList_intercalate_text (first : TypeExpr) (rest : List TypeExpr) :
    (", ".intercalate ((first :: rest).map text)).toList =
      first.chars ++ charsOfRest rest := by
  induction rest generalizing first with
  | nil => simp [text, charsOfRest]
  | cons next rest ih =>
      have hrest := ih next
      rw [List.map_cons] at hrest
      rw [List.map_cons, List.map_cons, String.intercalate_cons_cons]
      rw [String.toList_append, String.toList_append, hrest]
      simp [text, charsOfRest]

theorem text_applied (name : String) {es : List TypeExpr} (hne : es ≠ []) :
    (named name es).text = Table.applied name (es.map text) := by
  obtain ⟨first, rest, rfl⟩ := List.exists_cons_of_ne_nil hne
  rw [← String.toList_inj, Table.applied]
  simp only [String.toList_append, toList_intercalate_text]
  simp [text, chars]

end TypeExpr

/-! ## Names -/

theorem plainName_append {name : String} (h : Unmarked name) (rest : List Char) :
    plainName (name ++ String.ofList ('\x60' :: rest)) = name := by
  have hfront : ∀ c ∈ name.toList, decide (c ≠ '\x60') = true := by
    intro c hc
    rw [decide_eq_true_iff]
    rintro rfl
    exact h hc
  rw [plainName, String.toList_append, String.toList_ofList,
    List.takeWhile_append_of_pos hfront, List.takeWhile_cons_of_neg (by decide),
    List.append_nil, String.ofList_toList]

theorem marked_eq_append (name : String) (n : ℕ) :
    name ++ "`" ++ Text.numeral n =
      name ++ String.ofList ('\x60' :: Text.decimal n) := by
  simp [← String.toList_inj, Text.numeral]

theorem plainName_marked {name : String} (h : Unmarked name) (n : ℕ) :
    plainName (name ++ "`" ++ Text.numeral n) = name := by
  rw [marked_eq_append, plainName_append h]

theorem plainName_of_unmarked {name : String} (h : Unmarked name) :
    plainName name = name := by
  have hall : name.toList.takeWhile (· ≠ '\x60') = name.toList := by
    rw [List.takeWhile_eq_self_iff]
    intro c hc
    rw [decide_eq_true_iff]
    rintro rfl
    exact h hc
  rw [plainName, hall, String.ofList_toList]

theorem eq_of_marked_eq {name other : String} (h : Unmarked name) {m n : ℕ}
    (heq : name ++ "`" ++ Text.numeral m = other ++ "`" ++ Text.numeral n) :
    name = other ∧ m = n := by
  have hdigits : ∀ n, '\x60' ∉ Text.decimal n := by
    intro n hmem
    exact absurd (Text.isDigit_of_mem_decimal hmem) (by decide)
  have hlist : name.toList ++ '\x60' :: Text.decimal m =
      other.toList ++ '\x60' :: Text.decimal n := by
    simpa [← String.toList_inj, Text.numeral] using heq
  obtain ⟨hname, -, hn⟩ :=
    (List.append_cons_inj_of_notMem h (hdigits m)).mp hlist
  exact ⟨String.toList_inj.mp hname, Text.decimal_injective hn⟩

/-- The qualified name is the name as written or under an open namespace. -/
def Qualifies (name qualified : String) : Prop :=
  qualified = name ∨ ∃ space ∈ openNamespaces, qualified = space ++ "." ++ name

theorem Table.exists_of_lookup? {t : Table} {name : String} {h : Handle}
    (hh : t.lookup? name = some h) :
    ∃ d, t.shape? h = some (.named d) ∧ Qualifies name d.name := by
  rw [lookup?] at hh
  cases hn : t.named? name with
  | some k =>
      rw [hn] at hh
      cases hh
      obtain ⟨d, hd, hname⟩ := definition?_of_named? hn
      exact ⟨d, hd, .inl hname⟩
  | none =>
      rw [hn] at hh
      obtain ⟨space, hspace, hfound⟩ := List.exists_of_findSome?_eq_some hh
      obtain ⟨d, hd, hname⟩ := definition?_of_named? hfound
      exact ⟨d, hd, .inr ⟨space, hspace, hname⟩⟩

theorem unmarked_openNamespaces : ∀ space ∈ openNamespaces, Unmarked space := by
  decide

namespace Qualifies

variable {name qualified : String} (h : Qualifies name qualified)
include h

theorem unmarked (hname : Unmarked name) : Unmarked qualified := by
  rcases h with rfl | ⟨space, hspace, rfl⟩
  · exact hname
  · have hs := unmarked_openNamespaces space hspace
    simpa [Unmarked] using ⟨hs, hname⟩

/-- No keyword is qualified by a namespace. -/
theorem ofKeyword?_eq_none (hname : BuiltIn.ofKeyword? name = none) :
    BuiltIn.ofKeyword? qualified = none := by
  rcases h with rfl | ⟨space, hspace, rfl⟩
  · exact hname
  · have hplain : ∀ b ∈ BuiltIn.all, ∀ keyword ∈ b.keyword?,
        '.' ∉ keyword.toList := by
      decide
    rw [BuiltIn.ofKeyword?, List.find?_eq_none]
    intro b hb heq
    exact hplain b hb _ (by simpa using heq) (by simp)

theorem isName (hname : TypeExpr.IsName name.toList) :
    TypeExpr.IsName qualified.toList := by
  rcases h with rfl | ⟨space, hspace, rfl⟩
  · exact hname
  · have hspaces : ∀ space ∈ openNamespaces,
        TypeExpr.readName space.toList = .ok (space, []) := by
      decide
    have hs := (TypeExpr.isName_of_readName (hspaces space hspace)).1
    simpa using hs.append hname

end Qualifies

/-- The number of type parameters stays behind the name that qualifies. -/
theorem exists_of_qualifies_marked {name qualified : String} {n : ℕ}
    (h : Qualifies (name ++ "`" ++ Text.numeral n) qualified) :
    ∃ plain, Qualifies name plain ∧ qualified = plain ++ "`" ++ Text.numeral n := by
  rcases h with rfl | ⟨space, hspace, rfl⟩
  · exact ⟨name, .inl rfl, rfl⟩
  · exact ⟨space ++ "." ++ name, .inr ⟨space, hspace, rfl⟩, by simp [String.append_assoc]⟩

/-! ## Keywords -/

theorem BuiltIn.ofKeyword?_of_keyword? {b : BuiltIn} {keyword : String}
    (h : b.keyword? = some keyword) : ofKeyword? keyword = some b := by
  cases hfound : ofKeyword? keyword with
  | none =>
      rw [ofKeyword?, List.find?_eq_none] at hfound
      exact absurd h (by simpa using hfound b b.mem_all)
  | some b' =>
      have hb' : b'.keyword? = some keyword := by
        simpa using List.find?_some hfound
      rw [keyword?_injective hb' h]

theorem BuiltIn.isName_of_keyword? {b : BuiltIn} {keyword : String}
    (h : b.keyword? = some keyword) : TypeExpr.IsName keyword.toList := by
  have hall : ∀ b ∈ all, ∀ keyword ∈ b.keyword?,
      TypeExpr.readName keyword.toList = .ok (keyword, []) := by
    decide
  exact (TypeExpr.isName_of_readName (hall b b.mem_all keyword h)).1

/-! ## Tables whose types are shown -/

namespace Table

variable {t u : Table} {h a k : Handle} {levels : ℕ}

/-- A table from whose display names the types can be found again. -/
structure Showable (t : Table) : Prop where
  wellFormed : t.WellFormed noneForeign
  parameters : ∀ {h d}, t.shape? h = some (.named d) → Unmarked d.name →
    d.parameters = []
  builtIn : ∀ {h d b}, t.shape? h = some (.named d) → d.builtIn = some b →
    t.builtIn? b = some h
  nullable : ∀ {h d}, t.shape? h = some (.named d) →
    d.builtIn = some .nullableT → d.name = "System.Nullable`1"

theorem Showable.grow (ht : t.Showable) (g : t.GrowsTo u)
    (w : u.WellFormed noneForeign) : u.Showable := by
  have hold : ∀ {h d}, u.shape? h = some (.named d) →
      t.shape? h = some (.named d) := by
    intro h d hd
    cases hk : t.knows h with
    | true => exact (g.shape hk).symm.trans hd
    | false => cases g.structural hk hd
  exact
    { wellFormed := w
      parameters := fun hd => ht.parameters (hold hd)
      builtIn := fun hd hb => (g.builtIn?_eq _).trans (ht.builtIn (hold hd) hb)
      nullable := fun hd => ht.nullable (hold hd) }

/-- Down to a number of levels, the type is shown as the text of an expression
that names it. -/
def Shown (t : Table) (levels : ℕ) (h : Handle) : Prop :=
  ∃ e : TypeExpr, e.WellNamed ∧ t.displayWithin levels h = e.text ∧ t.Names [] e h

theorem Shown.array (ha : t.Shown levels a) (hs : t.shape? h = some (.array a)) :
    t.Shown (levels + 1) h := by
  obtain ⟨e, hnamed, hdisplay, hnames⟩ := ha
  refine ⟨.array e, TypeExpr.wellNamed_array.mpr hnamed, ?_, ?_⟩
  · simp only [displayWithin, hs]
    rw [hdisplay, TypeExpr.text_array]
  · rw [Names]
    exact ⟨a, hnames, hs⟩

theorem Shown.nullable (w : t.WellFormed noneForeign) (ha : t.Shown levels a)
    (hk : t.builtIn? .nullableT = some k) (hs : t.shape? h = some (.constructed k [a])) :
    t.Shown (levels + 1) h := by
  obtain ⟨e, hnamed, hdisplay, hnames⟩ := ha
  obtain ⟨d, hd, hb⟩ := definition?_of_builtIn? hk
  have hnullable : t.nullableUnderlying? h = some a := by
    simp [nullableUnderlying?, hs, tag?, definition?, hd, hb]
  refine ⟨.nullable e, TypeExpr.wellNamed_nullable.mpr hnamed, ?_, ?_⟩
  · simp only [displayWithin, hs, hnullable]
    rw [hdisplay, TypeExpr.text_nullable]
  · rw [Names]
    refine ⟨a, k, hnames, hk, ?_⟩
    rw [Applies, if_neg (not_owns_of_closed w (List.cons_ne_nil e []) (.cons hnames .nil))]
    exact hs

theorem nameType?_of_keyword? {b : BuiltIn} {keyword : String}
    (h : b.keyword? = some keyword) : t.nameType? [] keyword = t.builtIn? b := by
  rw [nameType?, BuiltIn.ofKeyword?_of_keyword? h]
  rfl

theorem nameType?_of_named? {name : String} (hkeyword : BuiltIn.ofKeyword? name = none)
    (hh : t.named? name = some h) : t.nameType? [] name = some h := by
  rw [nameType?, hkeyword]
  change t.lookup? name = some h
  rw [lookup?, hh]
  rfl

theorem Showable.shown_keyword (ht : t.Showable) {d : Definition} {b : BuiltIn}
    {keyword : String} (hd : t.shape? h = some (.named d)) (hb : d.builtIn = some b)
    (hkeyword : b.keyword? = some keyword) (levels : ℕ) : t.Shown (levels + 1) h := by
  refine ⟨.named keyword [], ?_, ?_, ?_⟩
  · exact TypeExpr.wellNamed_named.mpr ⟨BuiltIn.isName_of_keyword? hkeyword, by simp⟩
  · simp only [displayWithin, hd, hb, Option.bind_some, hkeyword]
    rw [TypeExpr.text_plain]
  · rw [Names, nameType?_of_keyword? hkeyword]
    exact ht.builtIn hd hb

/-- What a plain name names is shown as a keyword or as its qualified name. -/
theorem Showable.shown_plain (ht : t.Showable) {name : String}
    (hname : TypeExpr.IsName name.toList) (hunmarked : Unmarked name)
    (hh : t.nameType? [] name = some h) (levels : ℕ) : t.Shown (levels + 1) h := by
  cases hkeyword : BuiltIn.ofKeyword? name with
  | some b =>
      have hb : b.keyword? = some name := by
        rw [BuiltIn.ofKeyword?] at hkeyword
        simpa using List.find?_some hkeyword
      rw [nameType?_of_keyword? hb] at hh
      obtain ⟨d, hd, hdb⟩ := definition?_of_builtIn? hh
      exact ht.shown_keyword hd hdb hb levels
  | none =>
      rw [nameType?, hkeyword] at hh
      obtain ⟨d, hd, hqualifies⟩ := exists_of_lookup? hh
      cases hdisplay : d.builtIn.bind BuiltIn.keyword? with
      | some keyword =>
          obtain ⟨b, hb, hbk⟩ := Option.bind_eq_some_iff.mp hdisplay
          exact ht.shown_keyword hd hb hbk levels
      | none =>
          have hmarks := hqualifies.unmarked hunmarked
          refine ⟨.named d.name [], ?_, ?_, ?_⟩
          · exact TypeExpr.wellNamed_named.mpr ⟨hqualifies.isName hname, by simp⟩
          · simp only [displayWithin, hd, hdisplay, ht.parameters hd hmarks,
              List.isEmpty_nil, if_true]
            rw [plainName_of_unmarked hmarks, TypeExpr.text_plain]
          · rw [Names]
            exact nameType?_of_named? (hqualifies.ofKeyword?_eq_none hkeyword)
              (ht.wellFormed.named?_of_definition hd)

/-- The types are shown one by one. -/
theorem exists_shown {hs : List Handle} (hall : ∀ h ∈ hs, t.Shown levels h) :
    ∃ es : List TypeExpr, (∀ e ∈ es, e.WellNamed) ∧
      hs.map (t.displayWithin levels) = es.map TypeExpr.text ∧
      List.Forall₂ (t.Names []) es hs := by
  induction hs with
  | nil => exact ⟨[], by simp, rfl, .nil⟩
  | cons h hs ih =>
      rw [List.forall_mem_cons] at hall
      obtain ⟨e, hnamed, hdisplay, hnames⟩ := hall.1
      obtain ⟨es, hesnamed, hesdisplay, hesnames⟩ := ih hall.2
      refine ⟨e :: es, List.forall_mem_cons.mpr ⟨hnamed, hesnamed⟩, ?_,
        .cons hnames hesnames⟩
      rw [List.map_cons, List.map_cons, hdisplay, hesdisplay]

/-- What a generic name names over type arguments is shown as the qualified name
over the arguments, or with a question mark. -/
theorem Showable.shown_applied (ht : t.Showable) {name : String}
    (hname : TypeExpr.IsName name.toList) (hunmarked : Unmarked name)
    {as : List Handle} (hk : t.generic? name as.length = some k)
    (has : ∀ a ∈ as, t.Shown levels a) (hne : as ≠ [])
    (hs : t.shape? h = some (.constructed k as)) : t.Shown (levels + 1) h := by
  obtain ⟨d, hd, hqualifies⟩ := exists_of_lookup? hk
  obtain ⟨plain, hplain, hdname⟩ := exists_of_qualifies_marked hqualifies
  have hmarks := hplain.unmarked hunmarked
  by_cases hb : d.builtIn = some .nullableT
  · have hnullable : plain ++ "`" ++ Text.numeral as.length =
        "System.Nullable" ++ "`" ++ Text.numeral 1 := by
      rw [← hdname, ht.nullable hd hb]
      decide
    obtain ⟨a, rfl⟩ := List.length_eq_one_iff.mp (eq_of_marked_eq hmarks hnullable).2
    exact (has a List.mem_cons_self).nullable ht.wellFormed (ht.builtIn hd hb) hs
  · obtain ⟨es, hesnamed, hesdisplay, hesnames⟩ := exists_shown has
    have hnone : t.nullableUnderlying? h = none := by
      simp [nullableUnderlying?, hs, tag?, definition?, hd, hb]
    have hesne : es ≠ [] := by
      rintro rfl
      exact hne (List.forall₂_nil_left_iff.mp hesnames)
    refine ⟨.named plain es, ?_, ?_, ?_⟩
    · exact TypeExpr.wellNamed_named.mpr ⟨hplain.isName hname, hesnamed⟩
    · simp only [displayWithin, hs, hnone, definition?, hd]
      rw [hdname, plainName_marked hmarks, TypeExpr.text_applied _ hesne, hesdisplay]
    · obtain ⟨first, rest, rfl⟩ := List.exists_cons_of_ne_nil hesne
      rw [names_applied_iff]
      refine ⟨k, as, ?_, hesnames, ?_⟩
      · have hlength : rest.length + 1 = as.length := hesnames.length_eq
        rw [generic?, hlength, ← hdname, lookup?, ht.wellFormed.named?_of_definition hd]
        rfl
      · rwa [Applies, if_neg (not_owns_of_closed ht.wellFormed hesne hesnames)]

/-- What an expression without backticks names, is shown as the text of such an
expression, if the levels suffice for it. -/
theorem Showable.shown (ht : t.Showable) {e : TypeExpr} (hnamed : e.WellNamed)
    (hunmarked : ∀ name ∈ e.names, Unmarked name) (hdepth : e.depth ≤ levels)
    (he : t.Names [] e h) : t.Shown (levels + 1) h := by
  induction e using TypeExpr.induction generalizing levels h with
  | array e ih =>
      rw [Names] at he
      obtain ⟨a, ha, hs⟩ := he
      obtain ⟨levels, rfl⟩ := Nat.exists_eq_add_of_le' (Nat.le_of_add_left_le hdepth)
      exact (ih (TypeExpr.wellNamed_array.mp hnamed) hunmarked
        (Nat.le_of_succ_le_succ hdepth) ha).array hs
  | nullable e ih =>
      rw [Names] at he
      obtain ⟨a, k, ha, hk, hh⟩ := he
      obtain ⟨levels, rfl⟩ := Nat.exists_eq_add_of_le' (Nat.le_of_add_left_le hdepth)
      have hs := shape?_of_applies_closed ht.wellFormed (List.cons_ne_nil e [])
        (.cons ha .nil) hh
      exact (ih (TypeExpr.wellNamed_nullable.mp hnamed) hunmarked
        (Nat.le_of_succ_le_succ hdepth) ha).nullable ht.wellFormed hk hs
  | plain name =>
      rw [Names] at he
      exact ht.shown_plain (TypeExpr.wellNamed_named.mp hnamed).1
        (hunmarked name (by simp [TypeExpr.names])) he levels
  | applied name first rest ih =>
      obtain ⟨hname, hesnamed⟩ := TypeExpr.wellNamed_named.mp hnamed
      obtain ⟨k, as, hk, has, hh⟩ := names_applied_iff.mp he
      have hs := shape?_of_applies_closed ht.wellFormed (List.cons_ne_nil _ _) has hh
      have hdeeper : ∀ x ∈ first :: rest, x.depth + 1 ≤ levels := fun x hx =>
        Nat.le_trans (TypeExpr.depth_lt_of_mem hx) hdepth
      obtain ⟨levels, rfl⟩ := Nat.exists_eq_add_of_le'
        (Nat.le_of_add_left_le (hdeeper first List.mem_cons_self))
      have hargs : ∀ a ∈ as, t.Shown (levels + 1) a := by
        intro a ha
        obtain ⟨x, hx, hxa⟩ := exists_of_forall₂ has.flip ha
        refine ih x hx (hesnamed x hx) (fun n hn => hunmarked n ?_)
          (Nat.le_of_succ_le_succ (hdeeper x hx)) hxa
        exact List.mem_cons_of_mem _ (TypeExpr.mem_namesOfAll.mpr ⟨x, hx, hn⟩)
      have hlength : rest.length + 1 = as.length := has.length_eq
      refine ht.shown_applied hname (hunmarked name (by simp [TypeExpr.names]))
        (hlength ▸ hk) hargs ?_ hs
      rintro rfl
      cases hlength

end Table

end Verdicts
