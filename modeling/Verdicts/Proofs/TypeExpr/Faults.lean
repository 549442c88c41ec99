import Verdicts.Proofs.TypeExpr.Lookahead

/-!
# Where the reader finds a fault

A fault is reported where the text can no longer go on as a type.  In front of
that place stands the beginning of an accepted text, because whatever has been
read until then can be completed.  The next character spoils it: whatever
follows this character, the reader fails on it in the same way.
-/

namespace Verdicts.TypeExpr

variable {α β : Type} {cs r : List Char} {e : TypeExpr} {n : ℕ}

/-! ## Completing what has been read -/

theorem bind_eq_error {ε : Type} {x : Except ε α} {f : α → Except ε β} {fault : ε} :
    x >>= f = .error fault ↔ x = .error fault ∨ ∃ a, x = .ok a ∧ f a = .error fault := by
  cases x <;> simp [bind, Except.bind]

theorem Derives.isArguments (h : Derives cs e) : IsArguments cs [e] := by
  obtain ⟨bs, used, bs', rfl, hb, ht, hb'⟩ := h
  exact .last hb ht hb'

section

variable {fault : Fault}

theorem eq_of_readName (h : readName cs = .error (fault, r)) : r = cs := by
  cases cs with
  | nil => simp_all [readName]
  | cons c cs =>
      by_cases hstart : isNameStart c = true <;>
        by_cases hqualified : isQualified (c :: cs.takeWhile isNameChar) = true <;>
        simp [readName, hstart, hqualified] at h <;> exact h.2.symm

/-- Behind a type, what has been read of its suffixes can be completed. -/
theorem exists_completion_of_readSuffixes (h : readSuffixes n e cs = .error (fault, r)) :
    ∃ front more, cs = front ++ r ∧
      ∀ before, IsType before e → ∃ e', IsType (before ++ (front ++ more)) e' := by
  induction n generalizing e cs with
  | zero => cases h
  | succ n ih =>
      obtain ⟨bs, hcs, hb⟩ := Text.exists_skipBlank cs
      by_cases hq : (Text.skipBlank cs).head? = some '?'
      · obtain ⟨inside, heq⟩ := List.head?_eq_some_iff.mp hq
        rw [readSuffixes_nullable heq] at h
        obtain ⟨front, more, rfl, hcomplete⟩ := ih h
        refine ⟨bs ++ '?' :: front, more, by rw [hcs, heq]; simp, fun before ht => ?_⟩
        simpa using hcomplete _ (ht.nullable hb)
      by_cases hopen : (Text.skipBlank cs).head? = some '['
      · obtain ⟨inside, heq⟩ := List.head?_eq_some_iff.mp hopen
        obtain ⟨bs', hinside, hb'⟩ := Text.exists_skipBlank inside
        by_cases hclose : (Text.skipBlank inside).head? = some ']'
        · obtain ⟨behind, heq'⟩ := List.head?_eq_some_iff.mp hclose
          rw [readSuffixes_array heq heq'] at h
          obtain ⟨front, more, rfl, hcomplete⟩ := ih h
          refine ⟨bs ++ '[' :: bs' ++ ']' :: front, more, ?_, fun before ht => ?_⟩
          · rw [hcs, heq, hinside, heq']
            simp
          · simpa using hcomplete _ (ht.array hb hb')
        · rw [readSuffixes_unclosed heq hclose] at h
          cases h
          refine ⟨bs ++ '[' :: bs', [']'], ?_, fun before ht => ⟨.array e, ?_⟩⟩
          · rw [hcs, heq, List.append_assoc, List.cons_append, ← hinside]
          · simpa using ht.array hb hb'
      · rw [readSuffixes_done hq hopen] at h
        cases h

/-- What has been read of a type can be completed. -/
def CompletesTypes (n : ℕ) : Prop :=
  ∀ cs fault r, readType n cs = .error (fault, r) →
    ∃ front more e, cs = front ++ r ∧ Derives (front ++ more) e

/-- What has been read of type arguments can be completed. -/
def CompletesArguments (n : ℕ) : Prop :=
  ∀ cs fault r, readArguments n cs = .error (fault, r) →
    ∃ front more es, cs = front ++ r ∧ IsArguments (front ++ more) es

/-- A letter completes blanks. -/
theorem derives_letter {bs : List Char} (hb : IsBlank bs) :
    Derives (bs ++ ['a']) (.named "a" []) := by
  have hname : IsName ['a'] := ⟨⟨'a', [], rfl, .inl rfl, by simp⟩, by decide, by decide⟩
  exact ⟨bs, ['a'], [], by simp, hb, .primary (.plain hname), isBlank_nil⟩

theorem CompletesArguments.readBehindName (hargs : CompletesArguments n) {name : String}
    (hname : IsName name.toList) (h : readBehindName n name cs = .error (fault, r)) :
    ∃ front more e, cs = front ++ r ∧ IsType (name.toList ++ (front ++ more)) e := by
  obtain ⟨bs, hcs, hb⟩ := Text.exists_skipBlank cs
  by_cases hopen : (Text.skipBlank cs).head? = some '<'
  · obtain ⟨inside, heq⟩ := List.head?_eq_some_iff.mp hopen
    rw [heq] at hcs
    rw [readBehindName_open heq, bind_eq_error] at h
    obtain h | ⟨⟨es, behind⟩, hread, h⟩ := h
    -- Inside the angles their completion has to be closed as well.
    · obtain ⟨front, more, es, rfl, hes⟩ := hargs _ _ _ h
      refine ⟨bs ++ '<' :: front, more ++ ['>'], .named name es, by rw [hcs]; simp, ?_⟩
      have hprimary := IsType.primary (IsPrimary.applied hname hb hes)
      simpa using hprimary
    · obtain ⟨args, rfl, hes⟩ := (reads n).2 _ _ _ hread
      obtain ⟨front, more, rfl, hcomplete⟩ := exists_completion_of_readSuffixes h
      have hprimary := IsType.primary (IsPrimary.applied hname hb hes)
      rw [String.ofList_toList] at hprimary
      obtain ⟨e, he⟩ := hcomplete _ hprimary
      refine ⟨bs ++ '<' :: args ++ '>' :: front, more, e, by rw [hcs]; simp, ?_⟩
      simpa using he
  · rw [readBehindName_plain hopen, takeSuffixes_skipBlank] at h
    obtain ⟨front, more, rfl, hcomplete⟩ := exists_completion_of_readSuffixes h
    have hprimary := IsType.primary (IsPrimary.plain hname)
    rw [String.ofList_toList] at hprimary
    obtain ⟨e, he⟩ := hcomplete _ hprimary
    exact ⟨front, more, e, rfl, he⟩

theorem CompletesArguments.completesTypes (hargs : CompletesArguments n) :
    CompletesTypes (n + 1) := by
  intro cs fault r h
  obtain ⟨bs, hcs, hb⟩ := Text.exists_skipBlank cs
  rw [readType_succ, bind_eq_error] at h
  obtain h | ⟨⟨name, behind⟩, hread, h⟩ := h
  · obtain rfl := eq_of_readName h
    exact ⟨bs, ['a'], _, hcs, derives_letter hb⟩
  · obtain ⟨hname, heq⟩ := isName_of_readName hread
    obtain ⟨front, more, e, rfl, ht⟩ := hargs.readBehindName hname h
    refine ⟨bs ++ name.toList ++ front, more, e, by rw [hcs, heq]; simp, ?_⟩
    exact ⟨bs, _, [], by simp, hb, ht, isBlank_nil⟩

theorem CompletesTypes.completesArguments (htypes : CompletesTypes n)
    (hargs : CompletesArguments n) : CompletesArguments (n + 1) := by
  intro cs fault r h
  rw [readArguments_succ, bind_eq_error] at h
  obtain h | ⟨⟨e, behind⟩, hread, h⟩ := h
  · obtain ⟨front, more, e, rfl, he⟩ := htypes _ _ _ h
    exact ⟨front, more, [e], rfl, he.isArguments⟩
  obtain ⟨used, rfl, bs, cs, bs', rfl, hb, ht, hb'⟩ := (reads n).1 _ _ _ hread
  obtain ⟨bs'', hbehind, hb''⟩ := Text.exists_skipBlank behind
  have hblank : IsBlank (bs' ++ bs'') := List.forall_mem_append.mpr ⟨hb', hb''⟩
  dsimp only at h
  by_cases hcomma : (Text.skipBlank behind).head? = some ','
  · obtain ⟨inside, heq⟩ := List.head?_eq_some_iff.mp hcomma
    rw [readBehindArgument_comma heq, bind_eq_error] at h
    obtain h | ⟨_, -, h⟩ := h
    · obtain ⟨front, more, es, rfl, hes⟩ := hargs _ _ _ h
      refine ⟨bs ++ cs ++ (bs' ++ bs'') ++ ',' :: front, more, e :: es, ?_, ?_⟩
      · rw [hbehind, heq]
        simp
      · simpa using IsArguments.more hb ht hblank hes
    · cases h
  by_cases hclose : (Text.skipBlank behind).head? = some '>'
  · obtain ⟨inside, heq⟩ := List.head?_eq_some_iff.mp hclose
    rw [readBehindArgument_close heq] at h
    cases h
  · rw [readBehindArgument_fault hcomma hclose] at h
    cases h
    refine ⟨bs ++ cs ++ (bs' ++ bs''), [], [e], ?_, ?_⟩
    · have hsplit : bs' ++ behind = (bs' ++ bs'') ++ Text.skipBlank behind := by
        rw [List.append_assoc, ← hbehind]
      rw [List.append_assoc, hsplit, ← List.append_assoc]
    · simpa using IsArguments.last hb ht hblank

/-- Whatever has been read in front of a fault can be completed. -/
theorem completes (n : ℕ) : CompletesTypes n ∧ CompletesArguments n := by
  induction n with
  | zero =>
      constructor
      · rintro cs fault r ⟨⟩
        exact ⟨[], ['a'], _, rfl, derives_letter isBlank_nil⟩
      · rintro cs fault r ⟨⟩
        exact ⟨[], ['a'], _, rfl, (derives_letter isBlank_nil).isArguments⟩
  | succ n ih => exact ⟨ih.2.completesTypes, ih.1.completesArguments ih.2⟩

end

/-! ## Texts -/

/-- Answer with a type when nothing but blanks follows it. -/
def readEnd (x : TypeExpr × List Char) : Except Failure TypeExpr :=
  match Text.skipBlank x.2 with
  | [] => .ok x.1
  | rest => .error (.trailingInput, rest)

theorem readAll_eq (cs : List Char) :
    readAll cs = readType (cs.length + 1) cs >>= readEnd :=
  rfl

theorem readEnd_of_ne_nil (h : Text.skipBlank r ≠ []) :
    readEnd (e, r) = .error (.trailingInput, Text.skipBlank r) := by
  rw [readEnd]
  split
  · next heq => exact absurd heq h
  · rfl

theorem readAll_eq_ok_iff : readAll cs = .ok e ↔ Derives cs e := by
  rw [← String.toList_ofList (l := cs), ← ofText_eq_ok_iff, ofText]
  cases readAll (String.ofList cs).toList <;> simp

/-- A text is left at its end, or where it fails, with a fault. -/
theorem readAll_eq_error {fault : Fault} (h : readAll cs = .error (fault, r)) :
    readType (cs.length + 1) cs = .error (fault, r) ∨
      ∃ e behind, readType (cs.length + 1) cs = .ok (e, behind) ∧
        Text.skipBlank behind = r ∧ fault = .trailingInput := by
  rw [readAll_eq, bind_eq_error] at h
  obtain h | ⟨⟨e, behind⟩, hread, h⟩ := h
  · exact .inl h
  · refine .inr ⟨e, behind, hread, ?_⟩
    by_cases hend : Text.skipBlank behind = []
    · rw [readEnd, hend] at h
      cases h
    · rw [readEnd_of_ne_nil hend] at h
      cases h
      exact ⟨rfl, rfl⟩

theorem Derives.append_blank {bs : List Char} (h : Derives cs e) (hb : IsBlank bs) :
    Derives (cs ++ bs) e := by
  obtain ⟨before, used, behind, rfl, hbefore, ht, hbehind⟩ := h
  exact ⟨before, used, behind ++ bs, by simp, hbefore, ht,
    List.forall_mem_append.mpr ⟨hbehind, hb⟩⟩

/-- A text is the beginning of one that is read as a type. -/
def Begins (front : List Char) : Prop :=
  ∃ text e, ofText text = .ok e ∧ front <+: text.toList

theorem begins_iff {front : List Char} :
    Begins front ↔ ∃ more e, Derives (front ++ more) e := by
  constructor
  · rintro ⟨text, e, hread, more, heq⟩
    exact ⟨more, e, heq ▸ ofText_eq_ok_iff.mp hread⟩
  · rintro ⟨more, e, h⟩
    refine ⟨String.ofList (front ++ more), e, ?_, more, String.toList_ofList.symm⟩
    rwa [ofText_eq_ok_iff, String.toList_ofList]

/-- In front of a fault stands the beginning of a type. -/
theorem begins_of_readAll {fault : Fault} (h : readAll cs = .error (fault, r)) :
    ∃ front, cs = front ++ r ∧ Begins front := by
  obtain h | ⟨e, behind, hread, rfl, -⟩ := readAll_eq_error h
  · obtain ⟨front, more, e, hcs, hderives⟩ := (completes _).1 _ _ _ h
    exact ⟨front, hcs, begins_iff.mpr ⟨more, e, hderives⟩⟩
  · obtain ⟨used, hcs, hderives⟩ := (reads _).1 _ _ _ hread
    obtain ⟨bs, hbehind, hb⟩ := Text.exists_skipBlank behind
    refine ⟨used ++ bs, by rw [List.append_assoc, ← hbehind, hcs],
      begins_iff.mpr ⟨[], e, ?_⟩⟩
    simpa using Derives.append_blank hderives hb

/-- The character at which the reader fails is not what a type goes on with,
unless the fault lies in the name that begins there. -/
theorem not_begins_of_readAll {fault : Fault} {front rest : List Char} {c : Char}
    (h : readAll (front ++ c :: rest) = .error (fault, c :: rest))
    (hname : fault ≠ .malformedName) : ¬Begins (front ++ [c]) := by
  rw [begins_iff]
  rintro ⟨more, e, hderives⟩
  rw [List.append_assoc, List.singleton_append, ← readAll_eq_ok_iff, readAll_eq,
    bind_eq_ok] at hderives
  obtain ⟨⟨e', behind'⟩, hread', hend'⟩ := hderives
  have htracks : Tracks c rest more _ _ :=
    (tracks_readers _).1 _ _ _ (Nat.lt_succ_self _) (Nat.lt_succ_self _) ⟨front, rfl, rfl⟩
  obtain hread | ⟨e'', behind, hread, hbehind, -⟩ := readAll_eq_error h
  · rw [hread, hread'] at htracks
    have hname' : ∀ r, (.error (fault, c :: rest) : Except Failure (TypeExpr × List Char)) ≠
        .error (.malformedName, r) := by
      rintro r heq
      cases heq
      exact hname rfl
    cases htracks (List.suffix_refl _) hname'
  · have hleft : c :: rest <:+ behind := hbehind ▸ skipBlank_suffix behind
    rw [hread, hread'] at htracks
    cases htracks hleft (by simp) with
    | ok htwins =>
        obtain ⟨-, hskip⟩ := htwins.dropWhile (p := Text.isBlank)
          (hbehind ▸ List.suffix_refl _)
        obtain ⟨d, r, r', -, heq, -⟩ := hskip.exists_cons
        have hne : Text.skipBlank behind' ≠ [] := by
          rw [Text.skipBlank, heq]
          exact List.cons_ne_nil d r'
        rw [readEnd_of_ne_nil hne] at hend'
        cases hend'

theorem byteCount_append (cs cs' : List Char) :
    byteCount (cs ++ cs') = byteCount cs + byteCount cs' := by
  rw [byteCount, String.ofList_append, String.utf8ByteSize_append, byteCount, byteCount]

theorem byteCount_toList (text : String) : byteCount text.toList = text.utf8ByteSize := by
  rw [byteCount, String.ofList_toList]

theorem ofText_eq_error {text : String} {err : ReadError} (h : ofText text = .error err) :
    ∃ rest, readAll text.toList = .error (err.fault, rest) ∧
      err.offset = byteCount text.toList - byteCount rest := by
  simp only [ofText] at h
  split at h
  · cases h
  · next fault rest heq =>
      cases h
      exact ⟨rest, heq, rfl⟩

/-- The offset of a fault lies in the text and between two of its characters.  The
characters in front of it are the beginning of a text that is accepted, and the
one behind it spoils this, unless the name that begins there is malformed. -/
theorem ofText_fault_place {text : String} {err : ReadError} (h : ofText text = .error err) :
    err.offset ≤ text.utf8ByteSize ∧ String.Pos.Raw.IsValid text ⟨err.offset⟩ ∧
      ∃ front rest, text.toList = front ++ rest ∧ err.offset = byteCount front ∧
        Begins front ∧
        (err.fault ≠ .malformedName →
          ∀ c more, rest = c :: more → ¬Begins (front ++ [c])) := by
  obtain ⟨rest, hread, hoffset⟩ := ofText_eq_error h
  obtain ⟨front, htext, hbegins⟩ := begins_of_readAll hread
  have hplace : err.offset = byteCount front := by
    rw [hoffset, htext, byteCount_append, Nat.add_sub_cancel_right]
  refine ⟨?_, ?_, front, rest, htext, hplace, hbegins, ?_⟩
  · rw [hoffset, byteCount_toList]
    exact Nat.sub_le _ _
  · rw [String.Pos.Raw.isValid_iff_exists_append]
    refine ⟨String.ofList front, String.ofList rest, ?_, ?_⟩
    · rw [← String.ofList_append, ← htext, String.ofList_toList]
    · rw [hplace]
      rfl
  · rintro hname c more rfl
    exact not_begins_of_readAll (htext ▸ hread) hname

/-- An argument list that breaks off behind a blank of two bytes: the fault shows
behind the blank, at the sixth byte. -/
theorem ofText_fault_place_behind_blank :
    let err : ReadError := ⟨"A<b\u00a0c>", 5, .unclosedArguments⟩
    ofText "A<b\u00a0c>" = .error err ∧
      err.offset ≤ "A<b\u00a0c>".utf8ByteSize ∧
      ∃ front rest, "A<b\u00a0c>".toList = front ++ rest ∧ err.offset = byteCount front ∧
        Begins front ∧ ∀ c more, rest = c :: more → ¬Begins (front ++ [c]) := by
  intro err
  have hread : ofText "A<b\u00a0c>" = .error err := by cbv
  obtain ⟨hle, -, front, rest, htext, hplace, hbegins, hspoiled⟩ := ofText_fault_place hread
  exact ⟨hread, hle, front, rest, htext, hplace, hbegins, hspoiled (by decide)⟩

end Verdicts.TypeExpr
