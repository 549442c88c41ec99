import Mathlib.Tactic.Common
import Verdicts.Proofs.Json.Strings

/-!
# Written values are read back

A value that is written without blanks is read as that value, and the reader
stops right behind it.  The text behind a value matters only for numbers, which
a digit, a dot or an exponent would continue.  The bound with which the reader
starts allows two steps for each character, one for the value and one for the
list of items or members in which it stands.
-/

namespace Verdicts.Json

/-! ## What is written -/

/-- A text with which no value goes on. -/
def EndsValue (cs : List Char) : Prop :=
  ∀ c ∈ cs.head?, c = ',' ∨ c = ']' ∨ c = '\x7d'

theorem endsValue_nil : EndsValue [] :=
  fun _ h => nomatch h

theorem endsValue_cons {c : Char} (h : c = ',' ∨ c = ']' ∨ c = '\x7d')
    (cs : List Char) : EndsValue (c :: cs) := by
  intro d hd
  obtain rfl : c = d := by simpa using hd
  exact h

/-- The items of an array that is not empty, as they are written. -/
def itemsText (item : Json) (items : List Json) : List Char :=
  compact item ++ compactItems items

/-- The members of an object that is not empty, as they are written. -/
def membersText (name : Option String) (value : Json)
    (members : List (Option String × Json)) : List Char :=
  quote name ++ ':' :: compact value ++ compactMembers members

theorem compactItems_cons (item : Json) (items : List Json) :
    compactItems (item :: items) = ',' :: itemsText item items :=
  rfl

theorem compactMembers_cons (name : Option String) (value : Json)
    (members : List (Option String × Json)) :
    compactMembers ((name, value) :: members) = ',' :: membersText name value members := by
  simp [compactMembers, membersText]

/-- No value begins with a blank or a closing bracket. -/
theorem exists_compact (v : Json) : ∃ c cs, v.compact = c :: cs ∧
    isSpace c = false ∧ c ≠ ']' := by
  match v with
  | .null | .bool true | .bool false | .number | .array [] | .array (_ :: _)
  | .object [] | .object (_ :: _) =>
    exact ⟨_, _, rfl, by decide, by decide⟩
  | .string text =>
    exact ⟨'"', afterQuote text, quote_eq text, by decide, by decide⟩

theorem skipSpace_cons {c : Char} (hc : isSpace c = false) (cs : List Char) :
    skipSpace (c :: cs) = c :: cs := by
  simp [skipSpace, hc]

/-! ## What is read -/

/-- With a bound of twice its length, the written value is read back. -/
def IsRead (v : Json) : Prop :=
  ∀ rest bound, EndsValue rest → 2 * v.compact.length ≤ bound →
    value? bound (v.compact ++ rest) = some (v, rest)

/-- The written items are read back up to the closing bracket. -/
def AreItemsRead (items : List Json) : Prop :=
  ∀ item rest bound, IsRead item → 2 * (itemsText item items).length + 1 ≤ bound →
    items? bound (itemsText item items ++ ']' :: rest) = some (item :: items, rest)

/-- The written members are read back up to the closing brace. -/
def AreMembersRead (members : List (Option String × Json)) : Prop :=
  ∀ name value rest bound, IsRead value →
    2 * (membersText name value members).length + 1 ≤ bound →
    members? bound (membersText name value members ++ '\x7d' :: rest) =
      some ((name, value) :: members, rest)

theorem exists_succ {n bound : ℕ} (h : n + 1 ≤ bound) : ∃ b, bound = b + 1 ∧ n ≤ b :=
  ⟨bound - 1, by omega, by omega⟩

theorem isRead_null : IsRead .null := by
  intro rest bound _ hbound
  obtain ⟨bound, rfl, -⟩ := exists_succ hbound
  rfl

theorem isRead_bool (b : Bool) : IsRead (.bool b) := by
  intro rest bound _ hbound
  obtain ⟨bound, rfl, -⟩ : ∃ b', bound = b' + 1 ∧ 0 ≤ b' := by
    cases b <;> exact exists_succ (Nat.le_trans (by decide) hbound)
  cases b <;> rfl

theorem afterNumber?_zero {rest : List Char} (h : EndsValue rest) :
    afterNumber? ('0' :: rest) = some rest := by
  cases rest with
  | nil => rfl
  | cons c rest =>
      rcases h c rfl with rfl | rfl | rfl <;> rfl

theorem isRead_number : IsRead .number := by
  intro rest bound hrest hbound
  obtain ⟨bound, rfl, -⟩ := exists_succ hbound
  change (do
    let rest ← afterNumber? ('0' :: rest)
    return (Json.number, rest)) = _
  rw [afterNumber?_zero hrest]
  rfl

theorem isRead_string (text : Option String) : IsRead (.string text) := by
  intro rest bound _ hbound
  obtain ⟨bound, rfl, -⟩ : ∃ b, bound = b + 1 ∧ 0 ≤ b := by
    refine exists_succ (Nat.le_trans ?_ hbound)
    simp only [compact, quote_eq, List.length_cons]
    omega
  rw [compact, quote_eq, List.cons_append, value?, skipSpace_cons (by decide)]
  simp only [literal?_afterQuote]
  rfl

theorem isRead_array_nil : IsRead (.array []) := by
  intro rest bound _ hbound
  obtain ⟨bound, rfl, -⟩ := exists_succ hbound
  rfl

theorem isRead_object_nil : IsRead (.object []) := by
  intro rest bound _ hbound
  obtain ⟨bound, rfl, -⟩ := exists_succ hbound
  rfl

theorem IsRead.array {item : Json} {items : List Json} (h : IsRead item)
    (hs : AreItemsRead items) : IsRead (.array (item :: items)) := by
  intro rest bound _ hbound
  have hlength : (compact (.array (item :: items))).length =
      (itemsText item items).length + 2 := by simp [compact, itemsText]; omega
  obtain ⟨bound, rfl, hitems⟩ :
      ∃ b, bound = b + 1 ∧ 2 * (itemsText item items).length + 1 ≤ b :=
    exists_succ (by omega)
  have hread := hs item rest bound h hitems
  obtain ⟨c, cs, hc, hspace, hclose⟩ := exists_compact item
  have htext : compact (.array (item :: items)) ++ rest =
      '[' :: (itemsText item items ++ ']' :: rest) := by simp [compact, itemsText]
  have hfront : itemsText item items ++ ']' :: rest =
      c :: (cs ++ compactItems items ++ ']' :: rest) := by simp [itemsText, hc]
  rw [htext, value?, skipSpace_cons (by decide)]
  rw [hfront] at hread ⊢
  simp only [skipSpace_cons hspace]
  split
  · next heq => exact absurd (List.cons.inj heq).1 hclose
  · rw [hread]
    rfl

theorem IsRead.object {name : Option String} {value : Json}
    {members : List (Option String × Json)} (h : IsRead value)
    (hs : AreMembersRead members) : IsRead (.object ((name, value) :: members)) := by
  intro rest bound _ hbound
  have hlength : (compact (.object ((name, value) :: members))).length =
      (membersText name value members).length + 2 := by
    simp [compact, membersText]
    omega
  obtain ⟨bound, rfl, hmembers⟩ :
      ∃ b, bound = b + 1 ∧ 2 * (membersText name value members).length + 1 ≤ b :=
    exists_succ (by omega)
  have hread := hs name value rest bound h hmembers
  have htext : compact (.object ((name, value) :: members)) ++ rest =
      '\x7b' :: (membersText name value members ++ '\x7d' :: rest) := by
    simp [compact, membersText]
  have hfront : membersText name value members ++ '\x7d' :: rest =
      '"' :: (afterQuote name ++ ':' :: compact value ++ compactMembers members ++
        '\x7d' :: rest) := by simp [membersText, quote_eq]
  rw [htext, value?, skipSpace_cons (by decide)]
  rw [hfront] at hread ⊢
  simp only [skipSpace_cons (show isSpace '"' = false by decide)]
  split
  · next heq => cases (List.cons.inj heq).1
  · rw [hread]
    rfl

theorem areItemsRead_nil : AreItemsRead [] := by
  intro item rest bound h hbound
  obtain ⟨bound, rfl, hitem⟩ := exists_succ hbound
  have htext : itemsText item [] = compact item := by simp [itemsText, compactItems]
  rw [htext] at hitem ⊢
  rw [items?, h _ bound (endsValue_cons (.inr (.inl rfl)) rest) hitem]
  simp only [Option.bind_eq_bind, Option.bind_some, skipSpace_cons
    (show isSpace ']' = false by decide)]
  rfl

theorem IsRead.areItemsRead {next : Json} {items : List Json} (h : IsRead next)
    (hs : AreItemsRead items) : AreItemsRead (next :: items) := by
  intro item rest bound hitem hbound
  obtain ⟨bound, rfl, hroom⟩ := exists_succ hbound
  have htext : itemsText item (next :: items) ++ ']' :: rest =
      compact item ++ ',' :: (itemsText next items ++ ']' :: rest) := by
    simp [itemsText, compactItems_cons]
  have hlength : (itemsText item (next :: items)).length =
      (compact item).length + 1 + (itemsText next items).length := by
    simp [itemsText, compactItems_cons]
    omega
  have hread := hs next rest bound h (by omega)
  rw [htext, items?, hitem _ bound (endsValue_cons (.inl rfl) _) (by omega)]
  simp only [Option.bind_eq_bind, Option.bind_some, skipSpace_cons
    (show isSpace ',' = false by decide), hread]
  rfl

theorem areMembersRead_nil : AreMembersRead [] := by
  intro name value rest bound h hbound
  obtain ⟨bound, rfl, hroom⟩ := exists_succ hbound
  have htext : membersText name value [] ++ '\x7d' :: rest =
      '"' :: (afterQuote name ++ ':' :: (compact value ++ '\x7d' :: rest)) := by
    simp [membersText, compactMembers, quote_eq]
  have hlength : (compact value).length ≤ (membersText name value []).length := by
    simp [membersText, compactMembers]
    omega
  rw [htext, members?, skipSpace_cons (by decide)]
  simp only [literal?_afterQuote, Option.bind_eq_bind, Option.bind_some,
    skipSpace_cons (show isSpace ':' = false by decide),
    h _ bound (endsValue_cons (.inr (.inr rfl)) rest) (by omega),
    skipSpace_cons (show isSpace '\x7d' = false by decide)]
  rfl

theorem IsRead.areMembersRead {next : Option String} {following : Json}
    {members : List (Option String × Json)} (h : IsRead following)
    (hs : AreMembersRead members) : AreMembersRead ((next, following) :: members) := by
  intro name value rest bound hvalue hbound
  obtain ⟨bound, rfl, hroom⟩ := exists_succ hbound
  have htext : membersText name value ((next, following) :: members) ++ '\x7d' :: rest =
      '"' :: (afterQuote name ++ ':' :: (compact value ++
        ',' :: (membersText next following members ++ '\x7d' :: rest))) := by
    simp [membersText, compactMembers_cons, quote_eq]
  have hlength : (membersText name value ((next, following) :: members)).length =
      (quote name).length + (compact value).length + 2 +
        (membersText next following members).length := by
    simp [membersText, compactMembers_cons]
    omega
  have hread := hs next following rest bound h (by omega)
  rw [htext, members?, skipSpace_cons (by decide)]
  simp only [literal?_afterQuote, Option.bind_eq_bind, Option.bind_some,
    skipSpace_cons (show isSpace ':' = false by decide),
    hvalue _ bound (endsValue_cons (.inl rfl) _) (by omega),
    skipSpace_cons (show isSpace ',' = false by decide), hread]
  rfl

mutual

/-- Every value is read back. -/
theorem isRead : ∀ v : Json, IsRead v
  | .null => isRead_null
  | .bool b => isRead_bool b
  | .number => isRead_number
  | .string text => isRead_string text
  | .array [] => isRead_array_nil
  | .array (item :: items) => (isRead item).array (areItemsRead items)
  | .object [] => isRead_object_nil
  | .object ((_, value) :: members) => (isRead value).object (areMembersRead members)

theorem areItemsRead : ∀ items : List Json, AreItemsRead items
  | [] => areItemsRead_nil
  | item :: items => (isRead item).areItemsRead (areItemsRead items)

theorem areMembersRead :
    ∀ members : List (Option String × Json), AreMembersRead members
  | [] => areMembersRead_nil
  | (_, value) :: members => (isRead value).areMembersRead (areMembersRead members)

end

/-- Reading undoes writing. -/
theorem ofText?_compactText (v : Json) : ofText? v.compactText = some v := by
  have hread := isRead v [] (2 * v.compact.length + 2) endsValue_nil (Nat.le_add_right _ _)
  rw [List.append_nil] at hread
  simp only [ofText?, compactText, String.toList_ofList, hread]
  rfl

end Verdicts.Json
