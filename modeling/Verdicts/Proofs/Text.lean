import Mathlib.Data.List.TakeWhile
import Verdicts.Text

/-!
# Blanks and numerals

Discarding blanks does nothing where there are none, and a decimal numeral
denotes the number that was written.
-/

namespace Verdicts.Text

variable {cs : List Char} {n : ℕ} {c : Char}

/-! ## Blanks -/

theorem exists_skipBlank (cs : List Char) :
    ∃ bs, cs = bs ++ skipBlank cs ∧ ∀ b ∈ bs, isBlank b = true :=
  ⟨cs.takeWhile isBlank, List.takeWhile_append_dropWhile.symm,
    fun _ => List.mem_takeWhile_imp⟩

theorem skipBlank_append {bs : List Char} (hb : ∀ b ∈ bs, isBlank b = true)
    (cs : List Char) : skipBlank (bs ++ cs) = skipBlank cs := by
  induction bs with
  | nil => rfl
  | cons b bs ih =>
      obtain ⟨hb, hbs⟩ := List.forall_mem_cons.mp hb
      simpa [skipBlank, hb] using ih hbs

theorem skipBlank_cons (hc : isBlank c = false) (cs : List Char) :
    skipBlank (c :: cs) = c :: cs := by
  simp [skipBlank, hc]

theorem skipBlank_skipBlank (cs : List Char) :
    skipBlank (skipBlank cs) = skipBlank cs := by
  obtain ⟨bs, hcs, hb⟩ := exists_skipBlank cs
  have hskip := skipBlank_append hb (skipBlank cs)
  rw [← hcs] at hskip
  exact hskip.symm

theorem skipBlank_eq_nil (hb : ∀ b ∈ cs, isBlank b = true) : skipBlank cs = [] := by
  simpa [skipBlank] using skipBlank_append hb []

/-- What is left of a text without the blanks at its ends. -/
structure IsTrimmed (text trimmed : List Char) : Prop where
  framed : ∃ front back, text = front ++ trimmed ++ back ∧
    (∀ c ∈ front, isBlank c = true) ∧ ∀ c ∈ back, isBlank c = true
  first : ∀ c ∈ trimmed.head?, isBlank c = false
  last : ∀ c ∈ trimmed.getLast?, isBlank c = false

theorem skipBlank_of_head? (h : ∀ c ∈ cs.head?, isBlank c = false) :
    skipBlank cs = cs := by
  cases cs with
  | nil => rfl
  | cons c cs => exact skipBlank_cons (h c rfl) cs

theorem isBlank_head?_skipBlank (cs : List Char) :
    ∀ c ∈ (skipBlank cs).head?, isBlank c = false := by
  intro c hc
  have hhead := List.head?_dropWhile_not isBlank cs
  rw [← skipBlank, Option.mem_def.mp hc] at hhead
  exact hhead

theorem IsTrimmed.trim_eq {text trimmed : List Char} (h : IsTrimmed text trimmed) :
    trim text = trimmed := by
  obtain ⟨front, back, rfl, hfront, hback⟩ := h.framed
  rw [trim, List.append_assoc, skipBlank_append hfront]
  by_cases hnil : trimmed = []
  · rw [hnil, List.nil_append, skipBlank_eq_nil hback]
    rfl
  · have hfirst : ∀ c ∈ (trimmed ++ back).head?, isBlank c = false := by
      rw [List.head?_append, Option.or_of_isSome (List.isSome_head?.mpr hnil)]
      exact h.first
    have hlast : ∀ c ∈ trimmed.reverse.head?, isBlank c = false := by
      rw [List.head?_reverse]
      exact h.last
    have hreverse : ∀ c ∈ back.reverse, isBlank c = true :=
      fun c hc => hback c (List.mem_reverse.mp hc)
    rw [skipBlank_of_head? hfirst, List.reverse_append, skipBlank_append hreverse,
      skipBlank_of_head? hlast, List.reverse_reverse]

theorem isTrimmed_trim (text : List Char) : IsTrimmed text (trim text) := by
  obtain ⟨front, htext, hfront⟩ := exists_skipBlank text
  obtain ⟨back, hback, hblank⟩ := exists_skipBlank (skipBlank text).reverse
  have hrest : skipBlank text = trim text ++ back.reverse := by
    rw [trim, ← List.reverse_append, ← hback, List.reverse_reverse]
  have hlast : ∀ c ∈ (trim text).getLast?, isBlank c = false := by
    rw [trim, List.getLast?_reverse]
    exact isBlank_head?_skipBlank _
  refine ⟨⟨front, back.reverse, ?_, hfront, fun c hc => hblank c (List.mem_reverse.mp hc)⟩,
    ?_, hlast⟩
  · rw [List.append_assoc, ← hrest]
    exact htext
  · intro c hc
    obtain ⟨more, hmore⟩ := List.head?_eq_some_iff.mp hc
    refine isBlank_head?_skipBlank text c ?_
    rw [hrest, hmore]
    rfl

/-- Nothing is trimmed from a text without blanks. -/
theorem trim_eq_self (h : ∀ c ∈ cs, isBlank c = false) : trim cs = cs :=
  IsTrimmed.trim_eq
    { framed := ⟨[], [], by simp⟩
      first := fun c hc => h c (List.mem_of_mem_head? hc)
      last := fun c hc => h c (List.mem_of_getLast? hc) }

/-- Letters and digits are no blanks. -/
theorem isBlank_eq_false_of_isAlphanum (h : c.isAlphanum = true) :
    isBlank c = false := by
  change ((decide (c.val ≥ 'A'.val ∧ c.val ≤ 'Z'.val) ||
    (decide (c.val ≥ 'a'.val) && decide (c.val ≤ 'z'.val))) ||
    (decide (c.val ≥ '0'.val) && decide (c.val ≤ '9'.val))) = true at h
  simp only [Bool.or_eq_true, Bool.and_eq_true, decide_eq_true_eq, ge_iff_le,
    UInt32.le_iff_toNat_le] at h
  simp only [Char.toNat_val, Char.reduceToNat] at h
  rw [Bool.eq_false_iff]
  simp only [isBlank, blankRanges, List.any_cons, List.any_nil, Bool.or_false,
    ne_eq, Bool.or_eq_true, Bool.and_eq_true, decide_eq_true_eq]
  omega

/-! ## Numerals -/

theorem isDigit_of_mem_decimal (h : c ∈ decimal n) : c.isDigit = true :=
  Nat.isDigit_of_mem_toDigits (by decide) (by decide) h

theorem ofDecimal?_decimal (n : ℕ) : ofDecimal? (decimal n) = some n := by
  have hne : decimal n ≠ [] := Nat.toDigits_ne_nil
  have hall : (decimal n).all Char.isDigit = true :=
    List.all_eq_true.mpr fun c hc => isDigit_of_mem_decimal hc
  rw [ofDecimal?, if_pos ⟨hne, hall⟩, decimal, Nat.ofDigitChars_ten_toDigits]

theorem decimal_injective {m : ℕ} (h : decimal m = decimal n) : m = n := by
  have heq := ofDecimal?_decimal m
  rw [h, ofDecimal?_decimal] at heq
  exact (Option.some.inj heq).symm

end Verdicts.Text
