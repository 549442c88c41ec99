import Mathlib
import Verdicts.Library.Version
import Verdicts.Proofs.Text

/-!
# Versions and their texts

The text of a version consists of digits and dots, so nothing of it is trimmed
or cut off, and its dots separate the decimal numerals of the parts.  Therefore
a version is read back from its text.

The last section says of any text at all what is read from it.  Its core is cut
out and split at the dots, and the parts are looked at from the left: the first
one that is no number is the fault, unless four numbers stand in front of it.
-/

namespace Verdicts

namespace Version

/-- The parts that are written: the last one only if it is not zero. -/
def writtenParts (v : Version) : List UInt32 :=
  [v.major, v.minor, v.build] ++ if v.revision = 0 then [] else [v.revision]

theorem chars_eq (v : Version) :
    v.chars = ['.'].intercalate (v.writtenParts.map fun n => Text.decimal n.toNat) := by
  by_cases h : v.revision = 0 <;> simp [chars, writtenParts, h, List.intercalate]

/-- The text of a version holds digits and dots only. -/
theorem digit_or_dot_of_mem_chars {v : Version} {c : Char} (h : c ∈ v.chars) :
    c.isDigit = true ∨ c = '.' := by
  simp only [chars, List.mem_append, List.mem_cons] at h
  rcases h with ((h | rfl | h) | rfl | h) | h
  · exact .inl (Text.isDigit_of_mem_decimal h)
  · exact .inr rfl
  · exact .inl (Text.isDigit_of_mem_decimal h)
  · exact .inr rfl
  · exact .inl (Text.isDigit_of_mem_decimal h)
  · split at h
    · cases h
    · rcases List.mem_cons.mp h with rfl | h
      · exact .inr rfl
      · exact .inl (Text.isDigit_of_mem_decimal h)

theorem numericCore_chars (v : Version) : numericCore v.chars = v.chars := by
  have hblank : ∀ c ∈ v.chars, Text.isBlank c = false := by
    intro c hc
    rcases digit_or_dot_of_mem_chars hc with hdigit | rfl
    · refine Text.isBlank_eq_false_of_isAlphanum ?_
      rw [Char.isAlphanum, hdigit, Bool.or_true]
    · decide
  rw [numericCore, Text.trim_eq_self hblank, List.takeWhile_eq_self_iff]
  intro c hc
  rcases digit_or_dot_of_mem_chars hc with hdigit | rfl
  · have hminus : c ≠ '-' := by
      rintro rfl
      exact absurd hdigit (by decide)
    have hplus : c ≠ '+' := by
      rintro rfl
      exact absurd hdigit (by decide)
    simp [hminus, hplus]
  · decide

theorem part?_decimal (n : UInt32) : part? (Text.decimal n.toNat) = some n := by
  rw [part?, Text.ofDecimal?_decimal]
  simp [n.toNat_lt]

theorem readParts_decimals (input : String) {parts : List UInt32} {room : ℕ}
    (h : parts.length ≤ room) :
    readParts input room (parts.map fun n => Text.decimal n.toNat) = .ok parts := by
  induction parts generalizing room with
  | nil => cases room <;> rfl
  | cons n parts ih =>
      obtain _ | room := room
      · exact absurd h (Nat.not_succ_le_zero _)
      rw [List.map_cons, readParts, part?_decimal]
      simp only [ih (Nat.le_of_succ_le_succ h)]
      rfl

theorem ofParts_writtenParts (v : Version) : ofParts v.writtenParts = v := by
  obtain ⟨major, minor, build, revision⟩ := v
  by_cases h : revision = 0 <;> simp [ofParts, writtenParts, h]

/-- A version is read back from its text. -/
theorem ofText_text (v : Version) : ofText v.text = .ok v := by
  have hsplit : v.chars.splitOn '.' =
      v.writtenParts.map fun n => Text.decimal n.toNat := by
    rw [chars_eq]
    refine List.splitOn_intercalate '.' (fun l hl hdot => ?_) (by simp [writtenParts])
    obtain ⟨n, -, rfl⟩ := List.mem_map.mp hl
    exact absurd (Text.isDigit_of_mem_decimal hdot) (by decide)
  have hroom : v.writtenParts.length ≤ 4 := by
    by_cases h : v.revision = 0 <;> simp [writtenParts, h]
  have hread : ∀ input, readParts input 4 (v.chars.splitOn '.') = .ok v.writtenParts :=
    fun input => hsplit ▸ readParts_decimals input hroom
  rw [ofText, text, String.toList_ofList, numericCore_chars]
  split
  · next hnil => simp [chars] at hnil
  · rw [hread, Except.map, ofParts_writtenParts]

/-! ## What a text says -/

/-- The core of a text: of what is left without the blanks at its ends, all that
comes before the first `-` or `+`. -/
structure IsCore (text core : List Char) : Prop where
  cut : ∃ suffix, Text.IsTrimmed text (core ++ suffix) ∧
    ∀ c ∈ suffix.head?, c = '-' ∨ c = '+'
  plain : ∀ c ∈ core, c ≠ '-' ∧ c ≠ '+'

/-- The parts of a text, between which the dots stand. -/
structure AreParts (core : List Char) (parts : List (List Char)) : Prop where
  joined : ['.'].intercalate parts = core
  undotted : ∀ p ∈ parts, '.' ∉ p
  inhabited : parts ≠ []

/-- The number that decimal digits denote. -/
def valueOf (part : List Char) : ℕ :=
  Nat.ofDigitChars 10 part 0

/-- A number that fits in 32 bits. -/
structure IsNumber (part : List Char) : Prop where
  inhabited : part ≠ []
  digits : ∀ c ∈ part, c.isDigit = true
  small : valueOf part < 2 ^ 32

/-- The numbers of a version, in their order. -/
def numbers (v : Version) : List ℕ :=
  [v.major, v.minor, v.build, v.revision].map UInt32.toNat

variable {text core part : List Char} {parts : List (List Char)} {room : ℕ}
  {input : String}

theorem isCore_iff : IsCore text core ↔ numericCore text = core := by
  constructor
  · rintro ⟨⟨suffix, htrimmed, hsuffix⟩, hplain⟩
    have hkeep : ∀ c ∈ core, (c ≠ '-' && c ≠ '+') = true := by simpa using hplain
    rw [numericCore, htrimmed.trim_eq, List.takeWhile_append_of_pos hkeep]
    cases suffix with
    | nil => simp
    | cons c suffix =>
        rcases hsuffix c rfl with rfl | rfl <;> simp
  · rintro rfl
    refine ⟨⟨(Text.trim text).dropWhile fun c => c ≠ '-' && c ≠ '+', ?_, ?_⟩, ?_⟩
    · rw [numericCore, List.takeWhile_append_dropWhile]
      exact Text.isTrimmed_trim text
    · intro c hc
      have hhead := List.head?_dropWhile_not (fun c => c ≠ '-' && c ≠ '+')
        (Text.trim text)
      rw [Option.mem_def.mp hc] at hhead
      simpa [or_iff_not_imp_left] using hhead
    · intro c hc
      simpa using List.mem_takeWhile_imp hc

theorem exists_areParts (core : List Char) : ∃ parts, AreParts core parts := by
  induction core with
  | nil => exact ⟨[[]], rfl, by simp, by simp⟩
  | cons c core ih =>
      obtain ⟨parts, hjoined, hundotted, hsome⟩ := ih
      obtain ⟨p, rest, rfl⟩ := List.exists_cons_of_ne_nil hsome
      by_cases hdot : c = '.'
      · refine ⟨[] :: p :: rest, ?_, by simpa using hundotted, by simp⟩
        rw [← hjoined, hdot]
        rfl
      · rw [List.forall_mem_cons] at hundotted
        refine ⟨(c :: p) :: rest, ?_, ?_, by simp⟩
        · rw [← hjoined]
          cases rest <;> rfl
        · rw [List.forall_mem_cons, List.mem_cons, not_or]
          exact ⟨⟨Ne.symm hdot, hundotted.1⟩, hundotted.2⟩

theorem AreParts.splitOn_eq (h : AreParts core parts) : core.splitOn '.' = parts := by
  rw [← h.joined]
  exact List.splitOn_intercalate '.' h.undotted h.inhabited

/-! ## What is read from the parts -/

theorem ofDecimal?_of_isNumber (h : IsNumber part) :
    Text.ofDecimal? part = some (valueOf part) := by
  rw [Text.ofDecimal?, if_pos ⟨h.inhabited, List.all_eq_true.mpr h.digits⟩, valueOf]

theorem part?_of_isNumber (h : IsNumber part) :
    part? part = some (UInt32.ofNat (valueOf part)) := by
  simp only [part?, ofDecimal?_of_isNumber h]
  exact if_pos h.small

theorem part?_of_not_isNumber (h : ¬IsNumber part) : part? part = none := by
  rw [part?, Text.ofDecimal?]
  split
  · next n hn =>
      split at hn
      · next hdigits =>
          obtain rfl := Option.some.inj hn
          refine if_neg fun hsmall => h ?_
          exact ⟨hdigits.1, List.all_eq_true.mp hdigits.2, hsmall⟩
      · cases hn
  · rfl

/-- Numbers are read off as they come. -/
theorem readParts_cons_of_isNumber (h : IsNumber part) :
    readParts input (room + 1) (part :: parts) =
      (readParts input room parts).map (UInt32.ofNat (valueOf part) :: ·) := by
  rw [readParts, part?_of_isNumber h]

/-- A part that is no number is the fault. -/
theorem readParts_cons_of_not_isNumber (h : ¬IsNumber part) :
    readParts input (room + 1) (part :: parts) =
      .error (.invalidPart input (String.ofList part)) := by
  rw [readParts, part?_of_not_isNumber h]

theorem map_eq_ok_iff {ε α β : Type} {x : Except ε α} {f : α → β} {b : β} :
    x.map f = .ok b ↔ ∃ a, x = .ok a ∧ f a = b := by
  cases x <;> simp [Except.map]

theorem map_eq_error_iff {ε α β : Type} {x : Except ε α} {f : α → β} {e : ε} :
    x.map f = .error e ↔ x = .error e := by
  cases x <;> simp [Except.map]

theorem readParts_eq_ok_iff {ns : List UInt32} :
    readParts input room parts = .ok ns ↔
      parts.length ≤ room ∧ (∀ p ∈ parts, IsNumber p) ∧
        ns.map UInt32.toNat = parts.map valueOf := by
  induction parts generalizing room ns with
  | nil => cases room <;> simp [readParts, eq_comm]
  | cons p parts ih =>
      obtain _ | room := room
      · simp [readParts]
      by_cases hp : IsNumber p
      · have hvalue : (UInt32.ofNat (valueOf p)).toNat = valueOf p :=
          UInt32.toNat_ofNat_of_lt' hp.small
        rw [readParts_cons_of_isNumber hp, map_eq_ok_iff]
        simp only [ih, List.length_cons, Nat.add_le_add_iff_right, List.forall_mem_cons,
          hp, true_and, List.map_cons]
        constructor
        · rintro ⟨ns, ⟨hroom, hparts, hns⟩, rfl⟩
          exact ⟨hroom, hparts, by rw [List.map_cons, hvalue, hns]⟩
        · rintro ⟨hroom, hparts, hns⟩
          obtain ⟨n, ns, rfl, hn, hns⟩ := List.map_eq_cons_iff.mp hns
          refine ⟨ns, ⟨hroom, hparts, hns⟩, ?_⟩
          rw [← hn, UInt32.ofNat_toNat]
      · rw [readParts_cons_of_not_isNumber hp]
        simp [hp]

theorem readParts_eq_tooManyParts_iff {s : String} :
    readParts input room parts = .error (.tooManyParts s) ↔
      s = input ∧ room < parts.length ∧ ∀ p ∈ parts.take room, IsNumber p := by
  induction parts generalizing room with
  | nil => cases room <;> simp [readParts]
  | cons p parts ih =>
      obtain _ | room := room
      · simp [readParts, eq_comm]
      by_cases hp : IsNumber p
      · rw [readParts_cons_of_isNumber hp, map_eq_error_iff, ih]
        simp [hp]
      · rw [readParts_cons_of_not_isNumber hp]
        simp [hp]

theorem readParts_eq_invalidPart_iff {s bad : String} :
    readParts input room parts = .error (.invalidPart s bad) ↔
      s = input ∧ ∃ good rest, parts = good ++ bad.toList :: rest ∧ good.length < room ∧
        (∀ p ∈ good, IsNumber p) ∧ ¬IsNumber bad.toList := by
  induction parts generalizing room with
  | nil => cases room <;> simp [readParts]
  | cons p parts ih =>
      obtain _ | room := room
      · simp [readParts]
      by_cases hp : IsNumber p
      · rw [readParts_cons_of_isNumber hp, map_eq_error_iff, ih]
        refine and_congr_right fun _ => ?_
        constructor
        · rintro ⟨good, rest, rfl, hroom, hgood, hbad⟩
          exact ⟨p :: good, rest, rfl, Nat.succ_lt_succ hroom,
            List.forall_mem_cons.mpr ⟨hp, hgood⟩, hbad⟩
        · rintro ⟨_ | ⟨p', good⟩, rest, heq, hroom, hgood, hbad⟩
          · obtain ⟨rfl, -⟩ := List.cons.inj heq
            exact absurd hp hbad
          · obtain ⟨rfl, rfl⟩ := List.cons.inj heq
            exact ⟨good, rest, rfl, Nat.lt_of_succ_lt_succ hroom,
              (List.forall_mem_cons.mp hgood).2, hbad⟩
      · rw [readParts_cons_of_not_isNumber hp, Except.error.injEq,
          VersionError.invalidPart.injEq, ← @String.toList_inj _ bad,
          String.toList_ofList, eq_comm]
        refine and_congr_right fun _ => ?_
        constructor
        · rintro rfl
          exact ⟨[], parts, rfl, Nat.succ_pos room, by simp, hp⟩
        · rintro ⟨_ | ⟨p', good⟩, rest, heq, -, hgood, -⟩
          · exact (List.cons.inj heq).1
          · obtain ⟨rfl, -⟩ := List.cons.inj heq
            exact absurd (hgood _ List.mem_cons_self) hp

theorem readParts_ne_empty : readParts input room parts ≠ .error .empty := by
  induction parts generalizing room with
  | nil => cases room <;> simp [readParts]
  | cons p parts ih =>
      obtain _ | room := room
      · simp [readParts]
      by_cases hp : IsNumber p
      · rw [readParts_cons_of_isNumber hp, ne_eq, map_eq_error_iff]
        exact ih
      · simp [readParts_cons_of_not_isNumber hp]

/-! ## What is read from a text -/

theorem numbers_injective {v w : Version} (h : v.numbers = w.numbers) : v = w := by
  obtain ⟨a, b, c, d⟩ := v
  obtain ⟨a', b', c', d'⟩ := w
  simpa [numbers, UInt32.toNat_inj] using h

/-- Missing parts are zero. -/
theorem numbers_ofParts {ns : List UInt32} (h : ns.length ≤ 4) :
    (ofParts ns).numbers =
      ns.map UInt32.toNat ++ List.replicate (4 - ns.length) 0 := by
  match ns, h with
  | [], _ | [_], _ | [_, _], _ | [_, _, _], _ | [_, _, _, _], _ => rfl
  | _ :: _ :: _ :: _ :: _ :: _, h =>
      simp only [List.length_cons] at h
      omega

theorem ofText_eq (hcore : IsCore input.toList core) (hparts : AreParts core parts) :
    ofText input =
      if core = [] then .error .empty else (readParts input 4 parts).map ofParts := by
  rw [ofText, isCore_iff.mp hcore]
  cases core with
  | nil => rfl
  | cons c core =>
      simp only [hparts.splitOn_eq]
      rfl

theorem not_isNumber_nil : ¬IsNumber [] :=
  fun h => h.inhabited rfl

theorem AreParts.eq_of_nil (h : AreParts [] parts) : parts = [[]] :=
  h.splitOn_eq.symm

section

variable (hcore : IsCore input.toList core) (hparts : AreParts core parts)
include hcore hparts

theorem ofText_eq_empty_iff : ofText input = .error .empty ↔ core = [] := by
  rw [ofText_eq hcore hparts]
  by_cases hnil : core = []
  · simp [hnil]
  · simp [hnil, map_eq_error_iff, readParts_ne_empty]

/-- A version is read when there are four parts at most and all of them are
numbers. -/
theorem ofText_eq_ok_iff {v : Version} :
    ofText input = .ok v ↔ parts.length ≤ 4 ∧ (∀ p ∈ parts, IsNumber p) ∧
      v.numbers = parts.map valueOf ++ List.replicate (4 - parts.length) 0 := by
  rw [ofText_eq hcore hparts]
  by_cases hnil : core = []
  · subst hnil
    simp [hparts.eq_of_nil, not_isNumber_nil]
  rw [if_neg hnil, map_eq_ok_iff]
  simp only [readParts_eq_ok_iff]
  constructor
  · rintro ⟨ns, ⟨hroom, hnumbers, hns⟩, rfl⟩
    have hlength : ns.length = parts.length := by simpa using congrArg List.length hns
    refine ⟨hroom, hnumbers, ?_⟩
    rw [numbers_ofParts (hlength.trans_le hroom), hns, hlength]
  · rintro ⟨hroom, hnumbers, hv⟩
    have hvalues : (parts.map (UInt32.ofNat ∘ valueOf)).map UInt32.toNat =
        parts.map valueOf := by
      rw [List.map_map]
      exact List.map_congr_left fun p hp => UInt32.toNat_ofNat_of_lt' (hnumbers p hp).small
    refine ⟨parts.map (UInt32.ofNat ∘ valueOf), ⟨hroom, hnumbers, hvalues⟩, ?_⟩
    apply numbers_injective
    rw [numbers_ofParts (by simpa using hroom), hvalues, hv, List.length_map]

/-- The first part that is no number is at fault, when it is one of the first
four. -/
theorem ofText_eq_invalidPart_iff {s bad : String} :
    ofText input = .error (.invalidPart s bad) ↔ s = input ∧ core ≠ [] ∧
      ∃ good rest, parts = good ++ bad.toList :: rest ∧ good.length < 4 ∧
        (∀ p ∈ good, IsNumber p) ∧ ¬IsNumber bad.toList := by
  rw [ofText_eq hcore hparts]
  by_cases hnil : core = []
  · simp [hnil]
  · rw [if_neg hnil, map_eq_error_iff, readParts_eq_invalidPart_iff]
    simp only [ne_eq, hnil, not_false_eq_true, true_and]

/-- A fifth part is at fault when it stands behind four numbers. -/
theorem ofText_eq_tooManyParts_iff {s : String} :
    ofText input = .error (.tooManyParts s) ↔
      s = input ∧ 4 < parts.length ∧ ∀ p ∈ parts.take 4, IsNumber p := by
  rw [ofText_eq hcore hparts]
  by_cases hnil : core = []
  · subst hnil
    simp [hparts.eq_of_nil]
  · rw [if_neg hnil, map_eq_error_iff, readParts_eq_tooManyParts_iff]

end

/-- Every text has a core and the core has parts, and these decide what is read:
nothing from an empty core; the version of the numbers, the missing ones zero,
if the parts are four numbers at most; and else the fault is the first part that
is no number, or the fifth part if four numbers stand in front of it.  A version
is read back from its text, so what is read from two texts is the same exactly
if it is written the same. -/
theorem ofText_scans :
    (∀ input : String, ∃ core parts, IsCore input.toList core ∧ AreParts core parts) ∧
    (∀ (input : String) (core : List Char) (parts : List (List Char)),
      IsCore input.toList core → AreParts core parts →
        (ofText input = .error .empty ↔ core = []) ∧
        (∀ v, ofText input = .ok v ↔ parts.length ≤ 4 ∧ (∀ p ∈ parts, IsNumber p) ∧
          v.numbers = parts.map valueOf ++ List.replicate (4 - parts.length) 0) ∧
        (∀ s bad, ofText input = .error (.invalidPart s bad) ↔ s = input ∧ core ≠ [] ∧
          ∃ good rest, parts = good ++ bad.toList :: rest ∧ good.length < 4 ∧
            (∀ p ∈ good, IsNumber p) ∧ ¬IsNumber bad.toList) ∧
        ∀ s, ofText input = .error (.tooManyParts s) ↔
          s = input ∧ 4 < parts.length ∧ ∀ p ∈ parts.take 4, IsNumber p) ∧
    (∀ v : Version, ofText v.text = .ok v) ∧
    ∀ s s' v v', ofText s = .ok v → ofText s' = .ok v' →
      (v = v' ↔ v.text = v'.text) := by
  refine ⟨fun input => ?_, fun input core parts hcore hparts => ?_, ofText_text, ?_⟩
  · obtain ⟨parts, hparts⟩ := exists_areParts (numericCore input.toList)
    exact ⟨_, parts, isCore_iff.mpr rfl, hparts⟩
  · exact ⟨ofText_eq_empty_iff hcore hparts, fun v => ofText_eq_ok_iff hcore hparts,
      fun s bad => ofText_eq_invalidPart_iff hcore hparts,
      fun s => ofText_eq_tooManyParts_iff hcore hparts⟩
  · intro s s' v v' _ _
    refine ⟨congrArg text, fun h => ?_⟩
    have hread := ofText_text v
    rw [h, ofText_text v'] at hread
    exact (Except.ok.inj hread).symm

/-- What follows a sign is cut off together with the blanks, and leading zeros
count for nothing. Of two faults the one in front is reported, and a fifth part
is at fault whatever it is. -/
theorem ofText_scans_faults :
    ofText " 2.05-pre.1" = .ok ⟨2, 5, 0, 0⟩ ∧
      ofText "1.x.3.4.5" = .error (.invalidPart "1.x.3.4.5" "x") ∧
      ofText "1.2.3.4.x" = .error (.tooManyParts "1.2.3.4.x") := by
  have hnumber : ∀ p ∈ ["1", "2", "3", "4", "05"].map String.toList, IsNumber p := by
    intro p hp
    have hdigits : p ≠ [] ∧ p.all Char.isDigit = true ∧ valueOf p < 2 ^ 32 := by
      revert p
      decide +kernel
    exact ⟨hdigits.1, List.all_eq_true.mp hdigits.2.1, hdigits.2.2⟩
  refine ⟨?_, ?_, ?_⟩
  · have hcore : IsCore " 2.05-pre.1".toList "2.05".toList := isCore_iff.mpr (by decide)
    have hparts : AreParts "2.05".toList ["2".toList, "05".toList] :=
      ⟨by decide, by decide, by decide⟩
    refine ((ofText_scans.2.1 _ _ _ hcore hparts).2.1 ⟨2, 5, 0, 0⟩).mpr
      ⟨by decide, fun p hp => hnumber p ?_, by decide⟩
    revert p
    decide
  · have hcore : IsCore "1.x.3.4.5".toList "1.x.3.4.5".toList := isCore_iff.mpr (by decide)
    have hparts : AreParts "1.x.3.4.5".toList
        (["1", "x", "3", "4", "5"].map String.toList) := ⟨by decide, by decide, by decide⟩
    refine ((ofText_scans.2.1 _ _ _ hcore hparts).2.2.1 "1.x.3.4.5" "x").mpr
      ⟨rfl, by decide, ["1".toList], ["3", "4", "5"].map String.toList, rfl, by decide,
        fun p hp => hnumber p ?_, fun hx => ?_⟩
    · revert p
      decide
    · exact absurd (hx.digits 'x' (by decide)) (by decide)
  · have hcore : IsCore "1.2.3.4.x".toList "1.2.3.4.x".toList := isCore_iff.mpr (by decide)
    have hparts : AreParts "1.2.3.4.x".toList
        (["1", "2", "3", "4", "x"].map String.toList) := ⟨by decide, by decide, by decide⟩
    refine ((ofText_scans.2.1 _ _ _ hcore hparts).2.2.2 "1.2.3.4.x").mpr
      ⟨rfl, by decide, fun p hp => hnumber p ?_⟩
    revert p
    decide

end Version

end Verdicts
