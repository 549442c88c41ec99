/-!
# Characters, letters and numerals

The characters with the Unicode property `White_Space`, and the two ways the
library discards them: at the front of a text, and at both ends.  Library names
are compared letter by letter, where an ASCII letter equals its other case and
every other character equals only itself.  A natural number is written with the
fewest decimal digits; reading accepts any non-empty run of decimal digits, so
leading zeros are allowed.
-/

namespace Verdicts.Text

/-! ## Blanks -/

/-- The ranges of code points with the Unicode property `White_Space`, both
ends included. -/
def blankRanges : List (Nat × Nat) :=
  [(0x0009, 0x000D), (0x0020, 0x0020), (0x0085, 0x0085), (0x00A0, 0x00A0),
   (0x1680, 0x1680), (0x2000, 0x200A), (0x2028, 0x2029), (0x202F, 0x202F),
   (0x205F, 0x205F), (0x3000, 0x3000)]

/-- Whether a character has the Unicode property `White_Space`. -/
def isBlank (c : Char) : Bool :=
  blankRanges.any fun range => range.1 ≤ c.toNat && c.toNat ≤ range.2

/-- What remains of a text once the blanks at its front are gone. -/
def skipBlank (cs : List Char) : List Char :=
  cs.dropWhile isBlank

/-- A text without the blanks at its two ends. -/
def trim (cs : List Char) : List Char :=
  (skipBlank (skipBlank cs).reverse).reverse

/-- Skipping blanks never lengthens a text. -/
theorem length_skipBlank_le (cs : List Char) :
    (skipBlank cs).length ≤ cs.length :=
  (List.dropWhile_sublist isBlank).length_le

/-! ## Letters of either case -/

/-- A text with its ASCII capitals made small. -/
def fold (cs : List Char) : List Char :=
  cs.map Char.toLower

/-- Equality without regard to ASCII case. -/
def sameFolded (s t : String) : Bool :=
  fold s.toList == fold t.toList

/-- Whether `s` begins with `t`, without regard to ASCII case. -/
def startsFolded (s t : String) : Bool :=
  (fold t.toList).isPrefixOf (fold s.toList)

theorem sameFolded_iff {s t : String} :
    sameFolded s t = true ↔ fold s.toList = fold t.toList := by
  simp [sameFolded]

theorem startsFolded_iff {s t : String} :
    startsFolded s t = true ↔ fold t.toList <+: fold s.toList := by
  simp [startsFolded]

/-! ## Decimal numerals -/

/-- The decimal digits of a number, without leading zeros. -/
def decimal (n : Nat) : List Char :=
  Nat.toDigits 10 n

/-- The number that a non-empty run of decimal digits denotes. -/
def ofDecimal? (cs : List Char) : Option Nat :=
  if cs ≠ [] ∧ cs.all Char.isDigit then
    some (Nat.ofDigitChars 10 cs 0)
  else
    none

/-- The decimal numeral of a number as a string. -/
def numeral (n : Nat) : String :=
  String.ofList (decimal n)

end Verdicts.Text
