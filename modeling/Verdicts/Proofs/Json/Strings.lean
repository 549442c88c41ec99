import Verdicts.Json.Reader

/-!
# String literals are read back

A character is written as itself or as an escape.  Either is read as one piece,
and the piece spells the character again, so a written literal is read as the
text that was written.  A string without a value is written as a surrogate that
stands alone, which spells nothing.
-/

namespace Verdicts.Json

/-! ## Characters -/

theorem codeUnit?_control : ∀ n < 0x20,
    codeUnit? '0' '0' (hexChar (n / 16)) (hexChar (n % 16)) = some n := by
  decide

theorem pieces?_control {c : Char} (hc : c.toNat < 0x20) (rest : List Char) :
    pieces? ('\\' :: 'u' :: '0' :: '0' :: hexChar (c.toNat / 16) ::
      hexChar (c.toNat % 16) :: rest) =
        (pieces? rest).map fun r => (.unit c.toNat :: r.1, r.2) := by
  rw [pieces?, codeUnit?_control _ hc]
  cases pieces? rest <;> rfl

theorem spell?_control {c : Char} (hc : c.toNat < 0x20) (ps : List Piece) :
    spell? (.unit c.toNat :: ps) = (spell? ps).map (c :: ·) := by
  have hleading : isLeading c.toNat = false := by
    simp only [isLeading, Bool.and_eq_false_iff, decide_eq_false_iff_not]
    omega
  have htrailing : isTrailing c.toNat = false := by
    simp only [isTrailing, Bool.and_eq_false_iff, decide_eq_false_iff_not]
    omega
  rw [spell?.eq_def]
  simp [hleading, htrailing]

theorem pieces?_escaped {c e : Char} (he : escaped? e = some c) (rest : List Char) :
    pieces? ('\\' :: e :: rest) =
      (pieces? rest).map fun r => (.char c :: r.1, r.2) := by
  rw [pieces?.eq_def]
  split
  · contradiction
  · next heq => cases (List.cons.inj heq).1
  · next heq =>
      cases heq
      cases he
  · next heq =>
      cases heq
      rw [he]
      cases pieces? rest <;> rfl
  · next hescape heq =>
      cases heq
      exact (hescape e rest rfl rfl).elim

theorem pieces?_plain {c : Char} (hquote : c ≠ '"') (hslash : c ≠ '\\')
    (hc : ¬c.toNat < 0x20) (rest : List Char) :
    pieces? (c :: rest) = (pieces? rest).map fun r => (.char c :: r.1, r.2) := by
  rw [pieces?.eq_def]
  split
  · contradiction
  · next heq => exact absurd (List.cons.inj heq).1 hquote
  · next heq => exact absurd (List.cons.inj heq).1 hslash
  · next heq => exact absurd (List.cons.inj heq).1 hslash
  · next heq =>
      cases heq
      rw [if_neg hc]
      cases pieces? rest <;> rfl

/-- A written character is read as one piece, which spells that character. -/
theorem pieces?_escape (c : Char) : ∃ p,
    (∀ rest, pieces? (escape c ++ rest) =
      (pieces? rest).map fun r => (p :: r.1, r.2)) ∧
    ∀ ps, spell? (p :: ps) = (spell? ps).map (c :: ·) := by
  unfold escape
  split
  case h_8 hquote hslash _ _ _ _ _ =>
    by_cases hc : c.toNat < 0x20
    · rw [if_pos hc]
      exact ⟨.unit c.toNat, pieces?_control hc, spell?_control hc⟩
    · rw [if_neg hc]
      exact ⟨.char c, pieces?_plain hquote hslash hc, fun ps => rfl⟩
  all_goals exact ⟨.char _, fun rest => pieces?_escaped rfl rest, fun ps => rfl⟩

/-! ## Literals -/

theorem pieces?_flatMap_escape (cs rest : List Char) : ∃ ps,
    pieces? (cs.flatMap escape ++ '"' :: rest) = some (ps, rest) ∧
      spell? ps = some cs := by
  induction cs with
  | nil => exact ⟨[], rfl, rfl⟩
  | cons c cs ih =>
      obtain ⟨ps, hread, hspell⟩ := ih
      obtain ⟨p, hpiece, hchar⟩ := pieces?_escape c
      refine ⟨p :: ps, ?_, ?_⟩
      · rw [List.flatMap_cons, List.append_assoc, hpiece, hread]
        rfl
      · rw [hchar, hspell]
        rfl

/-- What follows the opening quote of a literal. -/
def afterQuote : Option String → List Char
  | some s => s.toList.flatMap escape ++ ['"']
  | none => ['\\', 'u', 'd', '8', '0', '0', '"']

theorem quote_eq (text : Option String) : quote text = '"' :: afterQuote text := by
  cases text <;> rfl

/-- A written literal is read back, and nothing behind it is touched. -/
theorem literal?_afterQuote (text : Option String) (rest : List Char) :
    literal? (afterQuote text ++ rest) = some (text, rest) := by
  cases text with
  | none =>
      have hread : pieces? (afterQuote none ++ rest) = some ([.unit 0xD800], rest) := by
        rfl
      rw [literal?, hread]
      rfl
  | some s =>
      obtain ⟨ps, hread, hspell⟩ := pieces?_flatMap_escape s.toList rest
      rw [literal?, afterQuote, List.append_assoc, List.singleton_append, hread]
      simp [hspell]

end Verdicts.Json
