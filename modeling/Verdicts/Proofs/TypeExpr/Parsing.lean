import Mathlib
import Verdicts.Proofs.Text
import Verdicts.Proofs.TypeExpr.Grammar
import Verdicts.TypeExpr.Reader

/-!
# The reader against the grammar

The reader accepts a text exactly if the grammar derives it, and what it answers
is the tree of the derivation.  What it accepts is derivable because every
suffix that it takes extends a derivation of what stands in front.  For the
other direction the text behind a name or a type must not go on with it: it
*ends* the name or the type.
-/

namespace Verdicts.TypeExpr

variable {cs rest : List Char} {e : TypeExpr} {bound : ℕ}

/-- A computation in sequence succeeds exactly if its two steps do. -/
theorem bind_eq_ok {ε α β : Type} {x : Except ε α} {f : α → Except ε β} {b : β} :
    x >>= f = .ok b ↔ ∃ a, x = .ok a ∧ f a = .ok b := by
  cases x with
  | error fault => simp [bind, Except.bind]
  | ok a => simp [bind, Except.bind]

/-! ## Names -/

theorem isNameStart_iff {c : Char} : isNameStart c = true ↔ IsLetter c := by
  simp [isNameStart, IsLetter]

theorem isNameChar_iff {c : Char} : isNameChar c = true ↔ IsNamePart c := by
  simp [isNameChar, IsNamePart, or_assoc]

theorem hasDoubleDot_iff : hasDoubleDot cs = true ↔ ['.', '.'] <:+: cs := by
  induction cs using hasDoubleDot.induct with
  | case1 rest => simpa [hasDoubleDot] using ⟨[], rest, rfl⟩
  | case2 c rest hne ih =>
      rw [hasDoubleDot.eq_2 _ _ hne, ih, List.infix_cons_iff]
      refine (or_iff_right ?_).symm
      rintro ⟨rest', heq⟩
      obtain ⟨rfl, rfl⟩ := List.cons.inj heq
      exact hne rest' rfl rfl
  | case3 => simp [hasDoubleDot]

theorem isQualified_iff :
    isQualified cs = true ↔ ¬['.'] <:+ cs ∧ ¬['.', '.'] <:+: cs := by
  simp [isQualified, ← hasDoubleDot_iff, List.singleton_suffix_iff_getLast?_eq_some]

theorem not_isNamePart_of_isBlank {c : Char} (h : Text.isBlank c = true) :
    ¬IsNamePart c := by
  rintro (hc | rfl | rfl | rfl)
  · rw [Text.isBlank_eq_false_of_isAlphanum hc] at h
    cases h
  all_goals exact absurd h (by decide)

/-- A text with which no name goes on. -/
def EndsName (cs : List Char) : Prop :=
  ∀ c ∈ cs.head?, ¬IsNamePart c

theorem readName_of_isName {name : List Char} (h : IsName name) (hrest : EndsName rest) :
    readName (name ++ rest) = .ok (String.ofList name, rest) := by
  obtain ⟨first, more, rfl, hfirst, hmore⟩ := h.spelled
  have hall : ∀ c ∈ more, isNameChar c = true := fun c hc => isNameChar_iff.mpr (hmore c hc)
  have hstop : rest.takeWhile isNameChar = [] ∧ rest.dropWhile isNameChar = rest := by
    cases rest with
    | nil => exact ⟨rfl, rfl⟩
    | cons c rest =>
        have hc : isNameChar c = false := by
          simpa [← isNameChar_iff] using hrest c rfl
        simp [hc]
  have hqualified : isQualified (first :: more) = true :=
    isQualified_iff.mpr ⟨h.noLastDot, h.noDoubleDot⟩
  simp [readName, isNameStart_iff.mpr hfirst, List.takeWhile_append_of_pos hall,
    List.dropWhile_append_of_pos hall, hstop, hqualified]

theorem isName_of_readName {name : String} (h : readName cs = .ok (name, rest)) :
    IsName name.toList ∧ cs = name.toList ++ rest := by
  cases cs with
  | nil => simp [readName] at h
  | cons c cs =>
      by_cases hstart : isNameStart c = true <;>
        by_cases hqualified : isQualified (c :: cs.takeWhile isNameChar) = true <;>
        simp [readName, hstart, hqualified, -String.ofList_cons] at h
      obtain ⟨rfl, rfl⟩ := h
      obtain ⟨hlast, hdouble⟩ := isQualified_iff.mp hqualified
      refine ⟨?_, by simp⟩
      rw [String.toList_ofList]
      exact ⟨⟨c, _, rfl, isNameStart_iff.mp hstart, fun x hx =>
        isNameChar_iff.mp (List.mem_takeWhile_imp hx)⟩, hlast, hdouble⟩

/-! ## Suffixes -/

/-- Read all the suffixes after a type. -/
def takeSuffixes (e : TypeExpr) (cs : List Char) :
    Except Failure (TypeExpr × List Char) :=
  readSuffixes (cs.length + 1) e cs

theorem readSuffixes_skipBlank :
    readSuffixes (bound + 1) e (Text.skipBlank cs) = readSuffixes (bound + 1) e cs := by
  simp only [readSuffixes, Text.skipBlank_skipBlank]

theorem readSuffixes_bound {n m : ℕ} (hn : cs.length < n) (hm : cs.length < m) :
    readSuffixes n e cs = readSuffixes m e cs := by
  induction n generalizing m e cs with
  | zero => exact absurd hn (Nat.not_lt_zero _)
  | succ n ih =>
      obtain _ | m := m
      · exact absurd hm (Nat.not_lt_zero _)
      have hskip := Text.length_skipBlank_le cs
      simp only [readSuffixes]
      cases hcs : Text.skipBlank cs with
      | nil => rfl
      | cons c rest =>
          have hrest := Text.length_skipBlank_le rest
          simp only [hcs, List.length_cons] at hskip
          split
          · next heq =>
              obtain ⟨rfl, rfl⟩ := List.cons.inj heq
              exact ih (by omega) (by omega)
          · next heq =>
              obtain ⟨rfl, rfl⟩ := List.cons.inj heq
              split
              · next hclose =>
                  rw [hclose, List.length_cons] at hrest
                  exact ih (by omega) (by omega)
              · rfl
          · rfl

theorem readSuffixes_eq_takeSuffixes (h : cs.length < bound) :
    readSuffixes bound e cs = takeSuffixes e cs :=
  readSuffixes_bound h (Nat.lt_succ_self _)

theorem takeSuffixes_skipBlank (e : TypeExpr) (cs : List Char) :
    takeSuffixes e (Text.skipBlank cs) = takeSuffixes e cs := by
  have hbound : (Text.skipBlank cs).length < cs.length + 1 :=
    Nat.lt_succ_of_le (Text.length_skipBlank_le cs)
  rw [← readSuffixes_eq_takeSuffixes hbound, readSuffixes_skipBlank, takeSuffixes]

theorem takeSuffixes_nullable {bs : List Char} (hb : IsBlank bs) :
    takeSuffixes e (bs ++ '?' :: rest) = takeSuffixes (.nullable e) rest := by
  have hskip : Text.skipBlank (bs ++ '?' :: rest) = '?' :: rest := by
    rw [Text.skipBlank_append hb, Text.skipBlank_cons (by decide)]
  rw [takeSuffixes, readSuffixes, hskip]
  exact readSuffixes_eq_takeSuffixes (by simp; omega)

theorem takeSuffixes_array {bs bs' : List Char} (hb : IsBlank bs) (hb' : IsBlank bs') :
    takeSuffixes e (bs ++ '[' :: (bs' ++ ']' :: rest)) = takeSuffixes (.array e) rest := by
  have hopen : Text.skipBlank (bs ++ '[' :: (bs' ++ ']' :: rest)) =
      '[' :: (bs' ++ ']' :: rest) := by
    rw [Text.skipBlank_append hb, Text.skipBlank_cons (by decide)]
  have hclose : Text.skipBlank (bs' ++ ']' :: rest) = ']' :: rest := by
    rw [Text.skipBlank_append hb', Text.skipBlank_cons (by decide)]
  rw [takeSuffixes, readSuffixes, hopen]
  simp only [hclose]
  exact readSuffixes_eq_takeSuffixes (by simp; omega)

theorem takeSuffixes_of_ends (hq : (Text.skipBlank cs).head? ≠ some '?')
    (hb : (Text.skipBlank cs).head? ≠ some '[') :
    takeSuffixes e cs = .ok (e, Text.skipBlank cs) := by
  simp only [takeSuffixes, readSuffixes]
  split
  · next heq => exact absurd (by rw [heq]; rfl) hq
  · next heq => exact absurd (by rw [heq]; rfl) hb
  · rfl

/-- Whatever suffixes are taken, a derivation of the type in front of them
extends over them. -/
theorem isType_of_readSuffixes {e' : TypeExpr}
    (h : readSuffixes bound e cs = .ok (e', rest)) :
    ∃ used bs, cs = used ++ bs ++ rest ∧ IsBlank bs ∧
      ∀ front, IsType front e → IsType (front ++ used) e' := by
  induction bound generalizing e cs with
  | zero =>
      obtain ⟨rfl, rfl⟩ : e = e' ∧ cs = rest := by simpa [readSuffixes] using h
      exact ⟨[], [], rfl, isBlank_nil, fun front hf => by simpa using hf⟩
  | succ bound ih =>
      obtain ⟨bs, hcs, hb⟩ := Text.exists_skipBlank cs
      simp only [readSuffixes] at h
      split at h
      · next more heq =>
          obtain ⟨used, bs', rfl, hb', hused⟩ := ih h
          refine ⟨bs ++ '?' :: used, bs', ?_, hb', fun front hf => ?_⟩
          · rw [hcs, heq]
            simp
          · simpa using hused _ (IsType.nullable hf hb)
      · next inside heq =>
          obtain ⟨bs', hinside, hb'⟩ := Text.exists_skipBlank inside
          split at h
          · next more hclose =>
              obtain ⟨used, bs'', rfl, hb'', hused⟩ := ih h
              refine ⟨bs ++ '[' :: bs' ++ ']' :: used, bs'', ?_, hb'', fun front hf => ?_⟩
              · rw [hcs, heq, hinside, hclose]
                simp
              · simpa using hused _ (IsType.array hf hb hb')
          · cases h
      · obtain ⟨rfl, rfl⟩ : e = e' ∧ Text.skipBlank cs = rest := by simpa using h
        exact ⟨[], bs, by simpa using hcs, hb, fun front hf => by simpa using hf⟩

/-! ## What the reader accepts -/

/-- Whatever a bound admits as a type is derivable as one, up to blanks around
it. -/
def ReadsTypes (bound : ℕ) : Prop :=
  ∀ cs e rest, readType bound cs = .ok (e, rest) →
    ∃ used, cs = used ++ rest ∧ Derives used e

/-- Whatever a bound admits as type arguments is derivable as that, up to the
closing `>`. -/
def ReadsArguments (bound : ℕ) : Prop :=
  ∀ cs es rest, readArguments bound cs = .ok (es, rest) →
    ∃ used, cs = used ++ '>' :: rest ∧ IsArguments used es

theorem ReadsArguments.readsTypes (hargs : ReadsArguments bound) :
    ReadsTypes (bound + 1) := by
  intro cs e rest h
  obtain ⟨bs, hcs, hb⟩ := Text.exists_skipBlank cs
  rw [readType, bind_eq_ok] at h
  obtain ⟨⟨name, behind⟩, hname, h⟩ := h
  obtain ⟨hn, hfront⟩ := isName_of_readName hname
  dsimp only at h
  split at h
  · next inside heq =>
      obtain ⟨bs', hbehind, hb'⟩ := Text.exists_skipBlank behind
      rw [bind_eq_ok] at h
      obtain ⟨⟨es, after⟩, hread, h⟩ := h
      obtain ⟨args, rfl, hes⟩ := hargs _ _ _ hread
      obtain ⟨used, bs'', rfl, hb'', hused⟩ := isType_of_readSuffixes h
      have hprimary := IsType.primary (IsPrimary.applied hn hb' hes)
      rw [String.ofList_toList] at hprimary
      refine ⟨_, ?_, bs, _, bs'', rfl, hb, hused _ hprimary, hb''⟩
      rw [hcs, hfront, hbehind, heq]
      simp
  · rw [readSuffixes_skipBlank] at h
    obtain ⟨used, bs', hbehind, hb', hused⟩ := isType_of_readSuffixes h
    have hprimary := IsType.primary (IsPrimary.plain hn)
    rw [String.ofList_toList] at hprimary
    refine ⟨_, ?_, bs, _, bs', rfl, hb, hused _ hprimary, hb'⟩
    rw [hcs, hfront, hbehind]
    simp

theorem ReadsTypes.readsArguments (htypes : ReadsTypes bound)
    (hargs : ReadsArguments bound) : ReadsArguments (bound + 1) := by
  intro cs es rest h
  rw [readArguments, bind_eq_ok] at h
  obtain ⟨⟨e, behind⟩, htype, h⟩ := h
  obtain ⟨used, rfl, bs, cs, bs', rfl, hb, ht, hb'⟩ := htypes _ _ _ htype
  obtain ⟨bs'', hbehind, hb''⟩ := Text.exists_skipBlank behind
  have hblank : IsBlank (bs' ++ bs'') := List.forall_mem_append.mpr ⟨hb', hb''⟩
  dsimp only at h
  split at h
  · next more heq =>
      rw [bind_eq_ok] at h
      obtain ⟨⟨es', after⟩, hread, h⟩ := h
      obtain ⟨args, rfl, hes⟩ := hargs _ _ _ hread
      cases h
      refine ⟨_, ?_, IsArguments.more hb ht hblank hes⟩
      rw [hbehind, heq]
      simp
  · next more heq =>
      cases h
      refine ⟨_, ?_, IsArguments.last hb ht hblank⟩
      rw [hbehind, heq]
      simp
  · cases h

/-- Whatever the bound, what the reader accepts is derivable. -/
theorem reads (bound : ℕ) : ReadsTypes bound ∧ ReadsArguments bound := by
  induction bound with
  | zero => exact ⟨fun _ _ _ h => (nomatch h), fun _ _ _ h => (nomatch h)⟩
  | succ bound ih => exact ⟨ih.2.readsTypes, ih.1.readsArguments ih.2⟩

/-! ## What the grammar derives -/

/-- A text with which no type goes on, suffixes apart. -/
structure EndsPrimary (cs : List Char) : Prop where
  name : EndsName cs
  arguments : (Text.skipBlank cs).head? ≠ some '<'

theorem endsName_append {bs : List Char} (hb : IsBlank bs) {c : Char}
    (hc : ¬IsNamePart c) (cs : List Char) : EndsName (bs ++ c :: cs) := by
  intro d hd
  cases bs with
  | nil =>
      obtain rfl : c = d := by simpa using hd
      exact hc
  | cons b bs =>
      obtain rfl : b = d := by simpa using hd
      exact not_isNamePart_of_isBlank (hb b List.mem_cons_self)

theorem endsPrimary_append {bs : List Char} (hb : IsBlank bs) {c : Char}
    (hc : ¬IsNamePart c) (hblank : Text.isBlank c = false) (hangle : c ≠ '<')
    (cs : List Char) : EndsPrimary (bs ++ c :: cs) := by
  refine ⟨endsName_append hb hc cs, ?_⟩
  rw [Text.skipBlank_append hb, Text.skipBlank_cons hblank]
  simpa using hangle

theorem endsPrimary_of_isBlank {bs : List Char} (hb : IsBlank bs) : EndsPrimary bs := by
  refine ⟨fun c hc => not_isNamePart_of_isBlank (hb c (List.mem_of_mem_head? hc)), ?_⟩
  rw [Text.skipBlank_eq_nil hb]
  simp

/-- Wherever the text stands, it is read as the expression, and the suffixes
behind it are taken next. -/
def IsRead (cs : List Char) (e : TypeExpr) : Prop :=
  ∀ bs rest bound, IsBlank bs → EndsPrimary rest → (bs ++ cs ++ rest).length < bound →
    readType bound (bs ++ cs ++ rest) = takeSuffixes e rest

/-- In front of a closing `>` the text is read as the arguments. -/
def AreRead (cs : List Char) (es : List TypeExpr) : Prop :=
  ∀ rest bound, (cs ++ '>' :: rest).length + 1 < bound →
    readArguments bound (cs ++ '>' :: rest) = .ok (es, rest)

theorem IsRead.array {bs bs' : List Char} (h : IsRead cs e) (hb : IsBlank bs)
    (hb' : IsBlank bs') : IsRead (cs ++ bs ++ '[' :: bs' ++ [']']) (.array e) := by
  intro bs₀ rest bound hb₀ hrest hbound
  have hends : EndsPrimary (bs ++ '[' :: (bs' ++ ']' :: rest)) :=
    endsPrimary_append hb (by simp [IsNamePart]) (by decide) (by decide) _
  have hread := h bs₀ _ bound hb₀ hends (by simpa using hbound)
  rw [takeSuffixes_array hb hb'] at hread
  simpa using hread

theorem IsRead.nullable {bs : List Char} (h : IsRead cs e) (hb : IsBlank bs) :
    IsRead (cs ++ bs ++ ['?']) (.nullable e) := by
  intro bs₀ rest bound hb₀ hrest hbound
  have hends : EndsPrimary (bs ++ '?' :: rest) :=
    endsPrimary_append hb (by simp [IsNamePart]) (by decide) (by decide) _
  have hread := h bs₀ _ bound hb₀ hends (by simpa using hbound)
  rw [takeSuffixes_nullable hb] at hread
  simpa using hread

/-- Blanks in front of a name are passed over. -/
theorem readName_skipBlank {bs name : List Char} (hb : IsBlank bs) (h : IsName name)
    (hrest : EndsName rest) :
    readName (Text.skipBlank (bs ++ name ++ rest)) = .ok (String.ofList name, rest) := by
  obtain ⟨first, more, rfl, hfirst, -⟩ := h.spelled
  have hblank : Text.isBlank first = false := by
    rw [Bool.eq_false_iff]
    exact fun hblank => not_isNamePart_of_isBlank hblank hfirst.isNamePart
  rw [List.append_assoc, Text.skipBlank_append hb, List.cons_append, Text.skipBlank_cons hblank,
    ← List.cons_append]
  exact readName_of_isName h hrest

theorem readType_plain {name : String} {behind : List Char}
    (hname : readName (Text.skipBlank cs) = .ok (name, behind))
    (hopen : (Text.skipBlank behind).head? ≠ some '<') :
    readType (bound + 1) cs = takeSuffixes (.named name []) behind := by
  rw [readType, hname]
  refine Eq.trans ?_ (takeSuffixes_skipBlank _ behind)
  simp only [bind, Except.bind]
  split
  · next heq => exact absurd (by rw [heq]; rfl) hopen
  · rfl

theorem readType_applied {name : String} {behind inside : List Char}
    {es : List TypeExpr} (hname : readName (Text.skipBlank cs) = .ok (name, behind))
    (hopen : Text.skipBlank behind = '<' :: inside)
    (hargs : readArguments bound inside = .ok (es, rest)) :
    readType (bound + 1) cs = takeSuffixes (.named name es) rest := by
  rw [readType, hname]
  simp only [bind, Except.bind, hopen, hargs]
  rfl

theorem readArguments_last {behind : List Char}
    (htype : readType bound cs = .ok (e, behind))
    (hclose : Text.skipBlank behind = '>' :: rest) :
    readArguments (bound + 1) cs = .ok ([e], rest) := by
  rw [readArguments, htype]
  simp only [bind, Except.bind, hclose]
  rfl

theorem readArguments_more {behind more : List Char} {es : List TypeExpr}
    (htype : readType bound cs = .ok (e, behind))
    (hcomma : Text.skipBlank behind = ',' :: more)
    (hargs : readArguments bound more = .ok (es, rest)) :
    readArguments (bound + 1) cs = .ok (e :: es, rest) := by
  rw [readArguments, htype]
  simp only [bind, Except.bind, hcomma, hargs]
  rfl

theorem isRead_plain {name : List Char} (h : IsName name) :
    IsRead name (.named (String.ofList name) []) := by
  intro bs rest bound hb hrest hbound
  obtain _ | bound := bound
  · exact absurd hbound (Nat.not_lt_zero _)
  exact readType_plain (readName_skipBlank hb h hrest.name) hrest.arguments

theorem isRead_applied {name bs : List Char} {es : List TypeExpr} (h : IsName name)
    (hb : IsBlank bs) (hs : AreRead cs es) :
    IsRead (name ++ bs ++ '<' :: cs ++ ['>']) (.named (String.ofList name) es) := by
  intro bs₀ rest bound hb₀ hrest hbound
  obtain _ | bound := bound
  · exact absurd hbound (Nat.not_lt_zero _)
  have hends : EndsName (bs ++ '<' :: (cs ++ '>' :: rest)) :=
    endsName_append hb (by simp [IsNamePart]) _
  have hname := readName_skipBlank hb₀ h hends
  have hopen : Text.skipBlank (bs ++ '<' :: (cs ++ '>' :: rest)) =
      '<' :: (cs ++ '>' :: rest) := by
    rw [Text.skipBlank_append hb, Text.skipBlank_cons (by decide)]
  have hargs := hs rest bound (by
    obtain ⟨first, more, rfl, -⟩ := h.spelled
    simp at hbound ⊢
    omega)
  have hsplit : bs₀ ++ (name ++ bs ++ '<' :: cs ++ ['>']) ++ rest =
      bs₀ ++ name ++ (bs ++ '<' :: (cs ++ '>' :: rest)) := by simp
  rw [hsplit]
  exact readType_applied hname hopen hargs

/-- In front of a comma or a `>` no suffix is taken. -/
theorem IsRead.ok {bs bs' : List Char} {c : Char} (h : IsRead cs e) (hb : IsBlank bs)
    (hb' : IsBlank bs') (hc : c = ',' ∨ c = '>')
    (hbound : (bs ++ cs ++ (bs' ++ c :: rest)).length < bound) :
    readType bound (bs ++ cs ++ (bs' ++ c :: rest)) = .ok (e, c :: rest) := by
  have hends : EndsPrimary (bs' ++ c :: rest) := by
    rcases hc with rfl | rfl <;>
      exact endsPrimary_append hb' (by simp [IsNamePart]) (by decide) (by decide) _
  have hskip : Text.skipBlank (bs' ++ c :: rest) = c :: rest := by
    rw [Text.skipBlank_append hb', Text.skipBlank_cons (by rcases hc with rfl | rfl <;> decide)]
  rw [h bs _ bound hb hends hbound, takeSuffixes_of_ends, hskip] <;> rw [hskip] <;>
    rcases hc with rfl | rfl <;> simp

theorem areRead_last {bs bs' : List Char} (hb : IsBlank bs) (h : IsRead cs e)
    (hb' : IsBlank bs') : AreRead (bs ++ cs ++ bs') [e] := by
  intro rest bound hbound
  obtain _ | bound := bound
  · exact absurd hbound (Nat.not_lt_zero _)
  rw [List.append_assoc _ bs'] at hbound ⊢
  have htype : readType bound (bs ++ cs ++ (bs' ++ '>' :: rest)) =
      .ok (e, '>' :: rest) :=
    h.ok hb hb' (.inr rfl) (Nat.lt_of_succ_lt_succ hbound)
  exact readArguments_last htype (Text.skipBlank_cons (by decide) rest)

theorem areRead_more {bs bs' cs' : List Char} {es : List TypeExpr} (hb : IsBlank bs)
    (h : IsRead cs e) (hb' : IsBlank bs') (hs : AreRead cs' es) :
    AreRead (bs ++ cs ++ bs' ++ ',' :: cs') (e :: es) := by
  intro rest bound hbound
  obtain _ | bound := bound
  · exact absurd hbound (Nat.not_lt_zero _)
  have hsplit : bs ++ cs ++ bs' ++ ',' :: cs' ++ '>' :: rest =
      bs ++ cs ++ (bs' ++ ',' :: (cs' ++ '>' :: rest)) := by simp
  rw [hsplit] at hbound ⊢
  have htype := h.ok hb hb' (.inl rfl) (Nat.lt_of_succ_lt_succ hbound)
  refine readArguments_more htype (Text.skipBlank_cons (by decide) _) (hs rest bound ?_)
  simp only [List.length_append, List.length_cons] at hbound ⊢
  omega

mutual

/-- The reader reads what is derivable as a type. -/
theorem IsType.isRead {cs : List Char} {e : TypeExpr} : IsType cs e → IsRead cs e
  | .primary h => h.isRead
  | .array h hb hb' => h.isRead.array hb hb'
  | .nullable h hb => h.isRead.nullable hb

theorem IsPrimary.isRead {cs : List Char} {e : TypeExpr} : IsPrimary cs e → IsRead cs e
  | .plain h => isRead_plain h
  | .applied h hb hs => isRead_applied h hb hs.areRead

theorem IsArguments.areRead {cs : List Char} {es : List TypeExpr} :
    IsArguments cs es → AreRead cs es
  | .last hb h hb' => areRead_last hb h.isRead hb'
  | .more hb h hb' hs => areRead_more hb h.isRead hb' hs.areRead

end

/-! ## Texts -/

/-- A text is read as an expression exactly if the grammar derives it, with the
expression as the tree of the derivation. -/
theorem ofText_eq_ok_iff {text : String} :
    ofText text = .ok e ↔ Derives text.toList e := by
  have hreadAll : ofText text = .ok e ↔ readAll text.toList = .ok e := by
    simp only [ofText]
    cases readAll text.toList <;> simp
  rw [hreadAll, readAll, bind_eq_ok]
  constructor
  · rintro ⟨⟨e', rest⟩, hread, hend⟩
    obtain ⟨used, hcs, bs, cs, bs', rfl, hb, ht, hb'⟩ := (reads _).1 _ _ _ hread
    obtain ⟨bs'', hrest, hb''⟩ := Text.exists_skipBlank rest
    dsimp only at hend
    split at hend
    · next heq =>
        cases hend
        rw [heq, List.append_nil] at hrest
        subst hrest
        exact ⟨bs, cs, bs' ++ rest, by rw [hcs]; simp, hb, ht,
          List.forall_mem_append.mpr ⟨hb', hb''⟩⟩
    · cases hend
  · rintro ⟨bs, cs, bs', hcs, hb, ht, hb'⟩
    have hskip := Text.skipBlank_eq_nil hb'
    have hread := ht.isRead bs bs' (text.toList.length + 1) hb (endsPrimary_of_isBlank hb')
      (by rw [hcs]; exact Nat.lt_succ_self _)
    rw [takeSuffixes_of_ends (by simp [hskip]) (by simp [hskip]), hskip, ← hcs] at hread
    exact ⟨(e, []), hread, rfl⟩

/-- The text of an expression whose names are the grammar's is read as that
expression. -/
theorem ofText_text (h : e.WellNamed) : ofText e.text = .ok e := by
  rw [ofText_eq_ok_iff, text, String.toList_ofList]
  exact (isType_chars h).derives

/-- A text has one tree at most. -/
theorem Derives.unique {e' : TypeExpr} (h : Derives cs e) (h' : Derives cs e') :
    e = e' := by
  rw [← String.toList_ofList (l := cs)] at h h'
  exact Except.ok.inj ((ofText_eq_ok_iff.mpr h).symm.trans (ofText_eq_ok_iff.mpr h'))

/-- The reader accepts exactly the texts that the grammar derives and answers
with the tree of the derivation; an expression whose names are the grammar's is
read back from its printed form, and so is whatever is read from any text. -/
theorem ofText_grammar :
    (∀ text e, ofText text = .ok e ↔ Derives text.toList e) ∧
    (∀ e : TypeExpr, e.WellNamed → ofText e.text = .ok e) ∧
    ∀ text e, ofText text = .ok e → ofText e.text = .ok e := by
  refine ⟨fun text e => ofText_eq_ok_iff, fun e h => ofText_text h, fun text e h => ?_⟩
  have hderives := ofText_eq_ok_iff.mp h
  exact ofText_text hderives.wellNamed

/-- Blanks between the tokens leave the tree as it is, and the printed form,
which has none but behind the comma, is read as the same tree. -/
theorem ofText_grammar_blanks :
    let e := named "Map" [named "int" [], nullable (array (named "string" []))]
    ofText " Map <int ,string [ ]?>" = .ok e ∧ e.WellNamed ∧
      ofText e.text = .ok e ∧ Derives e.text.toList e := by
  intro e
  have hread : ofText " Map <int ,string [ ]?>" = .ok e := by cbv
  have hnames : e.WellNamed := ((ofText_grammar.1 _ _).mp hread).wellNamed
  have htext : ofText e.text = .ok e := ofText_grammar.2.1 e hnames
  have hback : ofText e.text = .ok e := ofText_grammar.2.2 _ e hread
  exact ⟨hread, hnames, htext, (ofText_grammar.1 _ _).mp hback⟩

end Verdicts.TypeExpr
