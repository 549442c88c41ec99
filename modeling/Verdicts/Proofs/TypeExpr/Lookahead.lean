import Verdicts.Proofs.TypeExpr.Parsing

/-!
# How far the reader looks

Two texts that are the same up to a character are read in the same way, as long
as the reader does not get past this character.  The one exception is a
malformed name, whose fault is reported where the name begins although it shows
only further on.
-/

namespace Verdicts.TypeExpr

variable {α β : Type} {cs cs' r r' : List Char} {e : TypeExpr} {n m : ℕ}

/-! ## What is left of the text -/

/-- What is left of the text where a reader stops. -/
def remaining : Except Failure (α × List Char) → List Char
  | .ok (_, rest) => rest
  | .error (_, rest) => rest

theorem remaining_bind {x : Except Failure (α × List Char)}
    {f : α × List Char → Except Failure (β × List Char)} (hx : remaining x <:+ cs)
    (hf : ∀ a rest, remaining (f (a, rest)) <:+ rest) : remaining (x >>= f) <:+ cs := by
  rcases x with fault | ⟨a, rest⟩
  · exact hx
  · exact (hf a rest).trans hx

theorem skipBlank_suffix (cs : List Char) : Text.skipBlank cs <:+ cs :=
  List.dropWhile_suffix _

theorem suffix_of_skipBlank {d : Char} (h : Text.skipBlank cs = d :: r) : r <:+ cs :=
  (List.suffix_cons d r).trans (h ▸ skipBlank_suffix cs)

theorem length_lt_of_skipBlank {d : Char} (h : Text.skipBlank cs = d :: r) :
    r.length < cs.length := by
  have hlength := Text.length_skipBlank_le cs
  rwa [h, List.length_cons] at hlength

theorem remaining_readName (cs : List Char) : remaining (readName cs) <:+ cs := by
  cases cs with
  | nil => exact List.suffix_refl []
  | cons c cs =>
      rw [readName]
      split
      · dsimp only
        split
        · exact (List.dropWhile_suffix _).trans (List.suffix_cons c cs)
        · exact List.suffix_refl _
      · exact List.suffix_refl _

theorem remaining_readSuffixes (n : ℕ) (e : TypeExpr) (cs : List Char) :
    remaining (readSuffixes n e cs) <:+ cs := by
  induction n generalizing e cs with
  | zero => exact List.suffix_refl cs
  | succ n ih =>
      rw [readSuffixes]
      split
      · next r heq => exact (ih _ r).trans (suffix_of_skipBlank heq)
      · next r heq =>
          split
          · next r' hclose =>
              exact (ih _ r').trans
                ((suffix_of_skipBlank hclose).trans (suffix_of_skipBlank heq))
          · exact (skipBlank_suffix r).trans (suffix_of_skipBlank heq)
      · exact skipBlank_suffix cs

theorem remaining_takeSuffixes (e : TypeExpr) (cs : List Char) :
    remaining (takeSuffixes e cs) <:+ cs :=
  remaining_readSuffixes _ e cs

/-- Read what stands behind a name. -/
def readBehindName (n : ℕ) (name : String) (cs : List Char) :
    Except Failure (TypeExpr × List Char) :=
  match Text.skipBlank cs with
  | '<' :: inside => do
    let (arguments, rest) ← readArguments n inside
    takeSuffixes (.named name arguments) rest
  | rest => takeSuffixes (.named name []) rest

/-- Read what stands behind a type argument. -/
def readBehindArgument (n : ℕ) (e : TypeExpr) (cs : List Char) :
    Except Failure (List TypeExpr × List Char) :=
  match Text.skipBlank cs with
  | ',' :: rest => do
    let (arguments, rest) ← readArguments n rest
    return (e :: arguments, rest)
  | '>' :: rest => return ([e], rest)
  | rest => .error (.unclosedArguments, rest)

theorem readType_succ (n : ℕ) (cs : List Char) :
    readType (n + 1) cs =
      readName (Text.skipBlank cs) >>= fun x => readBehindName n x.1 x.2 := by
  rw [readType]
  rfl

theorem readArguments_succ (n : ℕ) (cs : List Char) :
    readArguments (n + 1) cs =
      readType n cs >>= fun x => readBehindArgument n x.1 x.2 := by
  rw [readArguments]
  rfl

theorem readBehindName_open {name : String} (h : Text.skipBlank cs = '<' :: r) :
    readBehindName n name cs =
      readArguments n r >>= fun x => takeSuffixes (.named name x.1) x.2 := by
  rw [readBehindName, h]
  rfl

theorem readBehindName_plain {name : String} (h : (Text.skipBlank cs).head? ≠ some '<') :
    readBehindName n name cs = takeSuffixes (.named name []) (Text.skipBlank cs) := by
  rw [readBehindName]
  split
  · next heq => exact absurd (by rw [heq]; rfl) h
  · rfl

theorem readBehindArgument_comma (h : Text.skipBlank cs = ',' :: r) :
    readBehindArgument n e cs =
      readArguments n r >>= fun x => .ok (e :: x.1, x.2) := by
  rw [readBehindArgument, h]
  rfl

theorem readBehindArgument_close (h : Text.skipBlank cs = '>' :: r) :
    readBehindArgument n e cs = .ok ([e], r) := by
  rw [readBehindArgument, h]
  rfl

theorem readBehindArgument_fault (hc : (Text.skipBlank cs).head? ≠ some ',')
    (hg : (Text.skipBlank cs).head? ≠ some '>') :
    readBehindArgument n e cs = .error (.unclosedArguments, Text.skipBlank cs) := by
  rw [readBehindArgument]
  split
  · next heq => exact absurd (by rw [heq]; rfl) hc
  · next heq => exact absurd (by rw [heq]; rfl) hg
  · rfl

theorem remaining_readBehindName
    (hargs : ∀ cs, remaining (readArguments n cs) <:+ cs) (name : String)
    (cs : List Char) : remaining (readBehindName n name cs) <:+ cs := by
  by_cases hopen : (Text.skipBlank cs).head? = some '<'
  · obtain ⟨inside, heq⟩ := List.head?_eq_some_iff.mp hopen
    rw [readBehindName_open heq]
    exact remaining_bind ((hargs inside).trans (suffix_of_skipBlank heq))
      fun _ r => remaining_takeSuffixes _ r
  · rw [readBehindName_plain hopen]
    exact (remaining_takeSuffixes _ _).trans (skipBlank_suffix cs)

theorem remaining_readBehindArgument
    (hargs : ∀ cs, remaining (readArguments n cs) <:+ cs) (e : TypeExpr)
    (cs : List Char) : remaining (readBehindArgument n e cs) <:+ cs := by
  by_cases hcomma : (Text.skipBlank cs).head? = some ','
  · obtain ⟨r, heq⟩ := List.head?_eq_some_iff.mp hcomma
    rw [readBehindArgument_comma heq]
    exact remaining_bind ((hargs r).trans (suffix_of_skipBlank heq))
      fun es r => List.suffix_refl r
  by_cases hclose : (Text.skipBlank cs).head? = some '>'
  · obtain ⟨r, heq⟩ := List.head?_eq_some_iff.mp hclose
    rw [readBehindArgument_close heq]
    exact suffix_of_skipBlank heq
  · rw [readBehindArgument_fault hcomma hclose]
    exact skipBlank_suffix cs

theorem remaining_readers (n : ℕ) :
    (∀ cs, remaining (readType n cs) <:+ cs) ∧
      ∀ cs, remaining (readArguments n cs) <:+ cs := by
  induction n with
  | zero => exact ⟨List.suffix_refl, List.suffix_refl⟩
  | succ n ih =>
      obtain ⟨htype, hargs⟩ := ih
      constructor
      · intro cs
        rw [readType_succ]
        exact remaining_bind ((remaining_readName _).trans (skipBlank_suffix cs))
          (remaining_readBehindName hargs)
      · intro cs
        rw [readArguments_succ]
        exact remaining_bind (htype cs) (remaining_readBehindArgument hargs)

/-! ## Texts that are the same up to a character -/

/-- The texts are the same up to the character, behind which the first one goes on
with `rest` and the second one with `more`. -/
def Twins (c : Char) (rest more cs cs' : List Char) : Prop :=
  ∃ front, cs = front ++ c :: rest ∧ cs' = front ++ c :: more

section

variable {c : Char} {rest more : List Char}

theorem Twins.cons {d : Char} (h : Twins c rest more (d :: r) cs') :
    ∃ r', cs' = d :: r' ∧ (c :: rest <:+ r → Twins c rest more r r') := by
  obtain ⟨_ | ⟨d', front⟩, heq, rfl⟩ := h
  · obtain ⟨rfl, rfl⟩ := List.cons.inj heq
    refine ⟨more, rfl, fun hsuffix => ?_⟩
    exact absurd hsuffix.length_le (by simp)
  · obtain ⟨rfl, rfl⟩ := List.cons.inj heq
    exact ⟨front ++ c :: more, rfl, fun _ => ⟨front, rfl, rfl⟩⟩

theorem Twins.head?_eq (h : Twins c rest more cs cs') : cs'.head? = cs.head? := by
  obtain ⟨_ | ⟨d, front⟩, rfl, rfl⟩ := h <;> rfl

theorem Twins.exists_cons (h : Twins c rest more cs cs') :
    ∃ d r r', cs = d :: r ∧ cs' = d :: r' ∧ (c :: rest <:+ r → Twins c rest more r r') := by
  cases cs with
  | nil =>
      obtain ⟨front, heq, -⟩ := h
      simp at heq
  | cons d r =>
      obtain ⟨r', rfl, hr⟩ := h.cons
      exact ⟨d, r, r', rfl, rfl, hr⟩

/-- Both texts lose the same characters at their fronts, as long as the one at
which they part is still there. -/
theorem Twins.dropWhile {p : Char → Bool} (h : Twins c rest more cs cs')
    (hleft : c :: rest <:+ cs.dropWhile p) :
    cs'.takeWhile p = cs.takeWhile p ∧
      Twins c rest more (cs.dropWhile p) (cs'.dropWhile p) := by
  obtain ⟨front, rfl, rfl⟩ := h
  induction front with
  | nil =>
      by_cases hc : p c = true
      · rw [List.nil_append, List.dropWhile_cons_of_pos hc] at hleft
        have hlength := hleft.length_le.trans (List.dropWhile_suffix p).length_le
        exact absurd hlength (by simp)
      · rw [List.nil_append, List.nil_append, List.dropWhile_cons_of_neg hc,
          List.dropWhile_cons_of_neg hc, List.takeWhile_cons_of_neg hc,
          List.takeWhile_cons_of_neg hc]
        exact ⟨rfl, [], rfl, rfl⟩
  | cons d front ih =>
      simp only [List.cons_append] at hleft ⊢
      by_cases hd : p d = true
      · rw [List.dropWhile_cons_of_pos hd] at hleft
        obtain ⟨htake, hdrop⟩ := ih hleft
        simp only [List.dropWhile_cons_of_pos hd, List.takeWhile_cons_of_pos hd]
        exact ⟨congrArg (d :: ·) htake, hdrop⟩
      · simp only [List.dropWhile_cons_of_neg hd, List.takeWhile_cons_of_neg hd]
        exact ⟨trivial, d :: front, rfl, rfl⟩

/-! ## Reading both of them -/

/-- The outcomes are the same, and what is left of the texts is the same up to the
character. -/
inductive Alike (c : Char) (rest more : List Char) :
    Except Failure (α × List Char) → Except Failure (α × List Char) → Prop
  | ok {a r r'} (h : Twins c rest more r r') : Alike c rest more (.ok (a, r)) (.ok (a, r'))
  | error {fault r r'} (h : Twins c rest more r r') :
      Alike c rest more (.error (fault, r)) (.error (fault, r'))

/-- The outcomes are the same if the first reader does not get past the
character, and does not go back to the beginning of a malformed name. -/
def Tracks (c : Char) (rest more : List Char) (x x' : Except Failure (α × List Char)) :
    Prop :=
  c :: rest <:+ remaining x → (∀ r, x ≠ .error (.malformedName, r)) → Alike c rest more x x'

namespace Tracks

theorem of_ok {a : α} (h : Twins c rest more r r') :
    Tracks c rest more (.ok (a, r)) (.ok (a, r')) :=
  fun _ _ => .ok h

theorem of_error {fault : Fault} (h : Twins c rest more r r') :
    Tracks c rest more (.error (fault, r) : Except Failure (α × List Char))
      (.error (fault, r')) :=
  fun _ _ => .error h

/-- Only what is left of the texts after some characters counts. -/
theorem of_suffix {x x' : Except Failure (α × List Char)} (hx : remaining x <:+ r)
    (h : c :: rest <:+ r → Tracks c rest more x x') : Tracks c rest more x x' :=
  fun hleft => h (hleft.trans hx) hleft

/-- Blanks may be skipped in front of both texts. -/
theorem skipBlank {x x' : Except Failure (α × List Char)}
    (hcs : Twins c rest more cs cs') (hx : remaining x <:+ Text.skipBlank cs)
    (h : Twins c rest more (Text.skipBlank cs) (Text.skipBlank cs') →
      Tracks c rest more x x') : Tracks c rest more x x' :=
  of_suffix hx fun hleft => h (hcs.dropWhile hleft).2

theorem bind {x x' : Except Failure (α × List Char)}
    {f f' : α × List Char → Except Failure (β × List Char)} (hx : Tracks c rest more x x')
    (hf : ∀ a r, remaining (f (a, r)) <:+ r)
    (h : ∀ a r r', x = .ok (a, r) → x' = .ok (a, r') → Twins c rest more r r' →
      Tracks c rest more (f (a, r)) (f' (a, r'))) :
    Tracks c rest more (x >>= f) (x' >>= f') := by
  intro hleft hname
  rcases x with ⟨fault, r⟩ | ⟨a, r⟩
  · have hname' : ∀ r', (.error (fault, r) : Except Failure (α × List Char)) ≠
        .error (.malformedName, r') := by
      rintro r' heq
      cases heq
      exact hname r rfl
    cases hx hleft hname' with
    | error htwins => exact .error htwins
  · cases hx (hleft.trans (hf a r)) (by simp) with
    | ok htwins => exact h a r _ rfl rfl htwins hleft hname

end Tracks

theorem tracks_readName (h : Twins c rest more cs cs') :
    Tracks c rest more (readName cs) (readName cs') := by
  obtain ⟨d, r, r', rfl, rfl, hr⟩ := h.exists_cons
  by_cases hstart : isNameStart d = true
  · by_cases hqualified : isQualified (d :: r.takeWhile isNameChar) = true
    · have hread : readName (d :: r) =
          .ok (String.ofList (d :: r.takeWhile isNameChar), r.dropWhile isNameChar) := by
        simp only [readName, hstart, hqualified, if_true]
      rw [hread]
      refine .of_suffix (List.suffix_refl _) fun hleft => ?_
      obtain ⟨htake, hdrop⟩ :=
        (hr (hleft.trans (List.dropWhile_suffix _))).dropWhile hleft
      simp only [readName, hstart, htake, hqualified, if_true]
      exact .of_ok hdrop
    -- A malformed name is reported where it begins, however far it has been read.
    · intro _ hname
      refine absurd ?_ (hname (d :: r))
      simp only [readName, hstart, hqualified, if_true, if_false, Bool.false_eq_true]
  · simp only [readName, hstart, if_false, Bool.false_eq_true]
    exact .of_error h

end

/-! ## The suffixes of a type -/

theorem readSuffixes_nullable (h : Text.skipBlank cs = '?' :: r) :
    readSuffixes (n + 1) e cs = readSuffixes n (.nullable e) r := by
  simp only [readSuffixes, h]

theorem readSuffixes_array (h : Text.skipBlank cs = '[' :: r)
    (h' : Text.skipBlank r = ']' :: r') :
    readSuffixes (n + 1) e cs = readSuffixes n (.array e) r' := by
  simp only [readSuffixes, h, h']

theorem readSuffixes_unclosed (h : Text.skipBlank cs = '[' :: r)
    (h' : (Text.skipBlank r).head? ≠ some ']') :
    readSuffixes (n + 1) e cs = .error (.unclosedBrackets, Text.skipBlank r) := by
  simp only [readSuffixes, h]
  split
  · next heq => exact absurd (by rw [heq]; rfl) h'
  · rfl

theorem readSuffixes_done (hq : (Text.skipBlank cs).head? ≠ some '?')
    (hb : (Text.skipBlank cs).head? ≠ some '[') :
    readSuffixes (n + 1) e cs = .ok (e, Text.skipBlank cs) := by
  simp only [readSuffixes]
  split
  · next heq => exact absurd (by rw [heq]; rfl) hq
  · next heq => exact absurd (by rw [heq]; rfl) hb
  · rfl

section

variable {c : Char} {rest more : List Char}

theorem tracks_readSuffixes (hn : cs.length < n) (hm : cs'.length < m)
    (h : Twins c rest more cs cs') :
    Tracks c rest more (readSuffixes n e cs) (readSuffixes m e cs') := by
  induction n generalizing m e cs cs' with
  | zero => exact absurd hn (Nat.not_lt_zero _)
  | succ n ih =>
      obtain _ | m := m
      · exact absurd hm (Nat.not_lt_zero _)
      -- Blanks in front are skipped in any case, so the character is not among them.
      rw [← readSuffixes_skipBlank]
      refine .skipBlank h (remaining_readSuffixes _ _ _) fun hskip => ?_
      rw [readSuffixes_skipBlank]
      by_cases hq : (Text.skipBlank cs).head? = some '?'
      · obtain ⟨r, heq⟩ := List.head?_eq_some_iff.mp hq
        obtain ⟨r', heq', hr⟩ := (heq ▸ hskip).cons
        have hlength := length_lt_of_skipBlank heq
        have hlength' := length_lt_of_skipBlank heq'
        rw [readSuffixes_nullable heq, readSuffixes_nullable heq']
        exact .of_suffix (remaining_readSuffixes _ _ _) fun hleft =>
          ih (by omega) (by omega) (hr hleft)
      by_cases hb : (Text.skipBlank cs).head? = some '['
      · obtain ⟨r, heq⟩ := List.head?_eq_some_iff.mp hb
        obtain ⟨r', heq', hr⟩ := (heq ▸ hskip).cons
        have hlength := length_lt_of_skipBlank heq
        have hlength' := length_lt_of_skipBlank heq'
        by_cases hclose : (Text.skipBlank r).head? = some ']'
        · obtain ⟨i, hi⟩ := List.head?_eq_some_iff.mp hclose
          have hleft_inner : remaining (readSuffixes n (.array e) i) <:+ Text.skipBlank r :=
            hi ▸ (remaining_readSuffixes _ _ i).trans (List.suffix_cons _ i)
          rw [readSuffixes_array heq hi]
          refine .of_suffix (hleft_inner.trans (skipBlank_suffix r)) fun hleft => ?_
          refine .skipBlank (hr hleft) hleft_inner fun hskip => ?_
          obtain ⟨i', hi', htwins⟩ := (hi ▸ hskip).cons
          have hinner := length_lt_of_skipBlank hi
          have hinner' := length_lt_of_skipBlank hi'
          rw [readSuffixes_array heq' hi']
          exact .of_suffix (remaining_readSuffixes _ _ _) fun hleft =>
            ih (by omega) (by omega) (htwins hleft)
        · rw [readSuffixes_unclosed heq hclose]
          refine .of_suffix (skipBlank_suffix r) fun hleft => ?_
          refine .skipBlank (hr hleft) (List.suffix_refl _) fun hskip => ?_
          rw [readSuffixes_unclosed heq' (by rwa [hskip.head?_eq])]
          exact .of_error hskip
      · rw [readSuffixes_done hq hb,
          readSuffixes_done (by rwa [hskip.head?_eq]) (by rwa [hskip.head?_eq])]
        exact .of_ok hskip

/-! ## Types and type arguments -/

theorem length_of_readName {name : String} (h : readName cs = .ok (name, r)) :
    r.length < cs.length := by
  obtain ⟨hname, rfl⟩ := isName_of_readName h
  obtain ⟨first, tail, heq, -⟩ := hname.spelled
  rw [heq]
  simp

/-- Types are read alike from both texts, when the first bound is the given one and
both bounds are large enough. -/
def TracksTypes (c : Char) (rest more : List Char) (n : ℕ) : Prop :=
  ∀ m cs cs', cs.length < n → cs'.length < m → Twins c rest more cs cs' →
    Tracks c rest more (readType n cs) (readType m cs')

/-- Type arguments are read alike from both texts. -/
def TracksArguments (c : Char) (rest more : List Char) (n : ℕ) : Prop :=
  ∀ m cs cs', cs.length + 1 < n → cs'.length + 1 < m → Twins c rest more cs cs' →
    Tracks c rest more (readArguments n cs) (readArguments m cs')

theorem tracks_takeSuffixes (h : Twins c rest more cs cs') :
    Tracks c rest more (takeSuffixes e cs) (takeSuffixes e cs') :=
  tracks_readSuffixes (Nat.lt_succ_self _) (Nat.lt_succ_self _) h

theorem TracksArguments.readBehindName (hargs : TracksArguments c rest more n)
    {name : String} (hn : cs.length < n) (hm : cs'.length < m)
    (h : Twins c rest more cs cs') :
    Tracks c rest more (readBehindName n name cs) (readBehindName m name cs') := by
  by_cases hopen : (Text.skipBlank cs).head? = some '<'
  · obtain ⟨r, heq⟩ := List.head?_eq_some_iff.mp hopen
    rw [readBehindName_open heq]
    have hinside : remaining (readArguments n r >>= fun x =>
        takeSuffixes (.named name x.1) x.2) <:+ r :=
      remaining_bind ((remaining_readers n).2 r) fun _ r => remaining_takeSuffixes _ r
    refine .skipBlank h (heq ▸ hinside.trans (List.suffix_cons _ r)) fun hskip => ?_
    obtain ⟨r', heq', hr⟩ := (heq ▸ hskip).cons
    have hlength := length_lt_of_skipBlank heq
    have hlength' := length_lt_of_skipBlank heq'
    rw [readBehindName_open heq']
    refine .of_suffix hinside fun hleft => ?_
    exact .bind (hargs _ _ _ (by omega) (by omega) (hr hleft))
      (fun _ r => remaining_takeSuffixes _ r) fun es r r' _ _ => tracks_takeSuffixes
  · rw [readBehindName_plain hopen]
    refine .skipBlank h (remaining_takeSuffixes _ _) fun hskip => ?_
    rw [readBehindName_plain (by rwa [hskip.head?_eq])]
    exact tracks_takeSuffixes hskip

theorem TracksArguments.readBehindArgument (hargs : TracksArguments c rest more n)
    (hn : cs.length < n) (hm : cs'.length < m) (h : Twins c rest more cs cs') :
    Tracks c rest more (readBehindArgument n e cs) (readBehindArgument m e cs') := by
  by_cases hcomma : (Text.skipBlank cs).head? = some ','
  · obtain ⟨r, heq⟩ := List.head?_eq_some_iff.mp hcomma
    rw [readBehindArgument_comma heq]
    have hinside : remaining (readArguments n r >>= fun x =>
        (.ok (e :: x.1, x.2) : Except Failure (List TypeExpr × List Char))) <:+ r :=
      remaining_bind ((remaining_readers n).2 r) fun _ => List.suffix_refl
    refine .skipBlank h (heq ▸ hinside.trans (List.suffix_cons _ r)) fun hskip => ?_
    obtain ⟨r', heq', hr⟩ := (heq ▸ hskip).cons
    have hlength := length_lt_of_skipBlank heq
    have hlength' := length_lt_of_skipBlank heq'
    rw [readBehindArgument_comma heq']
    refine .of_suffix hinside fun hleft => ?_
    exact .bind (hargs _ _ _ (by omega) (by omega) (hr hleft))
      (fun _ => List.suffix_refl) fun es r r' _ _ => .of_ok
  by_cases hclose : (Text.skipBlank cs).head? = some '>'
  · obtain ⟨r, heq⟩ := List.head?_eq_some_iff.mp hclose
    rw [readBehindArgument_close heq]
    refine .skipBlank h (heq ▸ List.suffix_cons _ r) fun hskip => ?_
    obtain ⟨r', heq', hr⟩ := (heq ▸ hskip).cons
    rw [readBehindArgument_close heq']
    exact .of_suffix (List.suffix_refl r) fun hleft => .of_ok (hr hleft)
  · rw [readBehindArgument_fault hcomma hclose]
    refine .skipBlank h (List.suffix_refl _) fun hskip => ?_
    rw [readBehindArgument_fault (by rwa [hskip.head?_eq]) (by rwa [hskip.head?_eq])]
    exact .of_error hskip

theorem TracksArguments.tracksTypes (hargs : TracksArguments c rest more n) :
    TracksTypes c rest more (n + 1) := by
  intro m cs cs' hn hm h
  obtain _ | m := m
  · exact absurd hm (Nat.not_lt_zero _)
  have hbehind := remaining_readBehindName (remaining_readers n).2
  have hlength := Text.length_skipBlank_le cs
  have hlength' := Text.length_skipBlank_le cs'
  rw [readType_succ, readType_succ]
  refine .skipBlank h (remaining_bind (remaining_readName _) hbehind) fun hskip => ?_
  refine .bind (tracks_readName hskip) hbehind fun name r r' hr hr' htwins => ?_
  have hread : r.length < (Text.skipBlank cs).length := length_of_readName hr
  have hread' : r'.length < (Text.skipBlank cs').length := length_of_readName hr'
  have hn' : r.length < n := by omega
  have hm' : r'.length < m := by omega
  exact hargs.readBehindName hn' hm' htwins

theorem TracksTypes.tracksArguments (htypes : TracksTypes c rest more n)
    (hargs : TracksArguments c rest more n) : TracksArguments c rest more (n + 1) := by
  intro m cs cs' hn hm h
  obtain _ | m := m
  · exact absurd hm (Nat.not_lt_zero _)
  have hbehind := remaining_readBehindArgument (remaining_readers n).2
  rw [readArguments_succ, readArguments_succ]
  refine .bind (htypes _ _ _ (by omega) (by omega) h) hbehind fun e r r' hr hr' htwins => ?_
  have hread := ((remaining_readers n).1 cs).length_le
  have hread' := ((remaining_readers m).1 cs').length_le
  rw [hr, remaining] at hread
  rw [hr', remaining] at hread'
  have hn' : r.length < n := by omega
  have hm' : r'.length < m := by omega
  exact hargs.readBehindArgument hn' hm' htwins

/-- The reader looks no further than at the character at which it fails. -/
theorem tracks_readers (n : ℕ) : TracksTypes c rest more n ∧ TracksArguments c rest more n := by
  induction n with
  | zero => exact ⟨fun _ _ _ hn => absurd hn (Nat.not_lt_zero _),
      fun _ _ _ hn => absurd hn (Nat.not_lt_zero _)⟩
  | succ n ih => exact ⟨ih.2.tracksTypes, ih.1.tracksArguments ih.2⟩

end

end Verdicts.TypeExpr
