import Mathlib.Data.List.Forall2
import Mathlib.Data.List.Nodup
import Mathlib.Data.List.Zip
import Mathlib.Tactic.ByContra

/-!
# Lists side by side

Facts about lists in relation and about looking up in lists of pairs that the
library has not in this form.
-/

namespace Verdicts

/-! ## Lists in relation -/

/-- Every entry is in relation with one on the other side. -/
theorem exists_of_forall₂ {α β : Type} {R : α → β → Prop} {xs : List α}
    {bs : List β} (hall : List.Forall₂ R xs bs) {x : α} (hx : x ∈ xs) :
    ∃ b ∈ bs, R x b := by
  induction hall with
  | nil => cases hx
  | @cons y b ys bs hyb _ ih =>
      rcases List.mem_cons.mp hx with rfl | hx
      · exact ⟨b, List.mem_cons_self .., hyb⟩
      · obtain ⟨b', hb', hxb'⟩ := ih hx
        exact ⟨b', List.mem_cons_of_mem b hb', hxb'⟩

/-- Lists in relation with one third list are in relation with each other. -/
theorem forall₂_of_common {α β γ : Type} {R : α → γ → Prop} {S : β → γ → Prop}
    {as : List α} {bs : List β} {cs : List γ} (h : List.Forall₂ R as cs)
    (h' : List.Forall₂ S bs cs) :
    List.Forall₂ (fun a b => ∃ c, R a c ∧ S b c) as bs := by
  induction h generalizing bs with
  | nil =>
      cases h'
      exact .nil
  | cons hac _ ih =>
      cases h' with
      | cons hbc h' => exact .cons ⟨_, hac, hbc⟩ (ih h')

/-- Lists in relation with the same list are the same if the relation tells the
entries of the first one. -/
theorem eq_of_forall₂ {α β : Type} {R : α → β → Prop} {as : List α}
    {bs bs' : List β} (h : List.Forall₂ (fun a b => ∀ b', R a b' → b = b') as bs)
    (h' : List.Forall₂ R as bs') : bs = bs' := by
  induction h generalizing bs' with
  | nil =>
      cases h'
      rfl
  | cons hab _ ih =>
      cases h' with
      | cons hab' h' => rw [hab _ hab', ih h']

/-- Lists with the same images are the same if images tell their entries
apart. -/
theorem eq_of_map_eq_map {α β : Type} {f g : α → β} {as bs : List α}
    (hfg : ∀ a ∈ as, ∀ b ∈ bs, f a = g b → a = b) (h : as.map f = bs.map g) :
    as = bs := by
  induction as generalizing bs with
  | nil => rw [List.map_eq_nil_iff.mp h.symm]
  | cons a as ih =>
      cases bs with
      | nil => cases h
      | cons b bs =>
          rw [List.map_cons, List.map_cons, List.cons.injEq] at h
          obtain rfl := hfg a (by simp) b (by simp) h.1
          rw [ih (fun a ha b hb => hfg a (by simp [ha]) b (by simp [hb])) h.2]

theorem mem_zip_swap {α β : Type} {as : List α} {bs : List β} {a : α} {b : β}
    (h : (b, a) ∈ bs.zip as) : (a, b) ∈ as.zip bs := by
  rw [← List.zip_swap, List.mem_map]
  exact ⟨(b, a), h, rfl⟩

/-- Places in lists without repetition are told by what stands there. -/
theorem right_eq_of_mem_zip {α β : Type} {as : List α} {bs : List β} {a : α}
    {b b' : β} (hnodup : as.Nodup) (h : (a, b) ∈ as.zip bs)
    (h' : (a, b') ∈ as.zip bs) : b = b' := by
  obtain ⟨i, hi⟩ := List.mem_iff_getElem?.mp h
  obtain ⟨j, hj⟩ := List.mem_iff_getElem?.mp h'
  rw [List.getElem?_zip_eq_some] at hi hj
  have hlt := (List.getElem?_eq_some_iff.mp hi.1).1
  obtain rfl := (List.getElem?_inj hlt hnodup).mp (hi.1.trans hj.1.symm)
  exact Option.some.inj (hi.2.symm.trans hj.2)

/-- A list that is tabulated where a function is defined is looked up as the
function is applied. -/
theorem lookup_filterMap_pair {α β : Type} [DecidableEq α] (g : α → Option β)
    (l : List α) (a : α) :
    (l.filterMap fun b => (g b).map (b, ·)).lookup a =
      if a ∈ l then g a else none := by
  induction l with
  | nil => rfl
  | cons b l ih =>
      by_cases hab : a = b
      · subst hab
        rw [if_pos (List.mem_cons_self ..)]
        cases hg : g a with
        | none =>
            rw [List.filterMap_cons_none (by rw [hg, Option.map_none]), ih, hg,
              ite_self]
        | some v =>
            rw [List.filterMap_cons_some (by rw [hg, Option.map_some]),
              List.lookup_cons_self]
      · have hmem : a ∈ b :: l ↔ a ∈ l := by simp [hab]
        simp only [hmem]
        cases hg : g b with
        | none => rw [List.filterMap_cons_none (by rw [hg, Option.map_none]), ih]
        | some v =>
            rw [List.filterMap_cons_some (by rw [hg, Option.map_some]),
              List.lookup_cons, beq_false_of_ne hab]
            exact ih

/-! ## Looking up in zipped lists -/

section

variable {α β γ δ : Type} [BEq α] [LawfulBEq α]
  {names : List α} {ps : List β}

theorem lookup_zip_cons_self (n : α) (names : List α) (p : β) (ps : List β) :
    ((n :: names).zip (p :: ps)).lookup n = some p := by
  rw [List.zip_cons_cons, List.lookup_cons_self]

theorem lookup_zip_cons_of_ne {m n : α} (hne : m ≠ n) (names : List α) (p : β)
    (ps : List β) :
    ((n :: names).zip (p :: ps)).lookup m = (names.zip ps).lookup m := by
  rw [List.zip_cons_cons, List.lookup_cons, beq_false_of_ne hne]

theorem mem_of_lookup_zip {n : α} {p : β}
    (hl : (names.zip ps).lookup n = some p) : n ∈ names ∧ p ∈ ps := by
  obtain ⟨l₁, l₂, heq, -⟩ := List.lookup_eq_some_iff.mp hl
  apply List.of_mem_zip
  rw [heq]
  exact List.mem_append_right _ (List.mem_cons_self ..)

theorem lookup_zip_eq_none {n : α} (hn : n ∉ names) :
    (names.zip ps).lookup n = none := by
  cases hl : (names.zip ps).lookup n with
  | none => rfl
  | some p => exact absurd (mem_of_lookup_zip hl).1 hn

/-- Looking up a name and then its parameter finds what stands at the place of
the name. -/
theorem lookup_zip_zip [BEq β] [LawfulBEq β] {R : γ → δ → Prop} {es : List γ} {as : List δ}
    (hnames : names.length = ps.length) (hes : es.length = ps.length)
    (hall : List.Forall₂ R es as) (hps : ps.Nodup) {n : α} {p : β}
    (hl : (names.zip ps).lookup n = some p) :
    ∃ e a, (names.zip es).lookup n = some e ∧
      (ps.zip as).lookup p = some a ∧ R e a := by
  induction names generalizing ps es as with
  | nil => cases hl
  | cons m names ih =>
      obtain _ | ⟨q, ps⟩ := ps
      · cases hnames
      cases hall with
      | nil => cases hes
      | @cons e a es as hea hall =>
          by_cases hm : n = m
          · subst hm
            rw [lookup_zip_cons_self] at hl
            cases hl
            exact ⟨e, a, lookup_zip_cons_self .., lookup_zip_cons_self .., hea⟩
          · rw [lookup_zip_cons_of_ne hm] at hl ⊢
            have hq : p ≠ q := by
              rintro rfl
              exact (List.nodup_cons.mp hps).1 (mem_of_lookup_zip hl).2
            rw [lookup_zip_cons_of_ne hq]
            exact ih (Nat.succ.inj hnames) (Nat.succ.inj hes) hall
              (List.nodup_cons.mp hps).2 hl

theorem lookup_zip_eq_none_of {es : List γ} (hnames : names.length = ps.length)
    {n : α} (hl : (names.zip ps).lookup n = none) :
    (names.zip es).lookup n = none := by
  apply lookup_zip_eq_none
  intro hn
  induction names generalizing ps with
  | nil => cases hn
  | cons m names ih =>
      obtain _ | ⟨q, ps⟩ := ps
      · cases hnames
      by_cases hm : n = m
      · subst hm
        rw [lookup_zip_cons_self] at hl
        cases hl
      · rw [lookup_zip_cons_of_ne hm] at hl
        exact ih (Nat.succ.inj hnames) hl
          ((List.mem_cons.mp hn).resolve_left hm)

/-- Names that find all parameters in order are the names of the parameters,
and these are distinct. -/
theorem eq_of_lookup_zip {ms : List α} (hnames : names.length = ps.length)
    (hps : ps.Nodup)
    (hall : List.Forall₂ (fun m p => (names.zip ps).lookup m = some p) ms ps) :
    ms = names ∧ names.Nodup := by
  induction names generalizing ps ms with
  | nil =>
      obtain rfl := List.length_eq_zero_iff.mp hnames.symm
      cases hall
      exact ⟨rfl, .nil⟩
  | cons n names ih =>
      obtain _ | ⟨p, ps⟩ := ps
      · cases hnames
      obtain ⟨hp, hps⟩ := List.nodup_cons.mp hps
      cases hall with
      | @cons m _ ms _ hm hall =>
          have hmn : m = n := by
            by_contra hne
            rw [lookup_zip_cons_of_ne hne] at hm
            exact hp (mem_of_lookup_zip hm).2
          -- No later name is the first one, for it finds a later parameter.
          have hlater : ∀ {k q}, q ∈ ps →
              ((n :: names).zip (p :: ps)).lookup k = some q → k ≠ n := by
            rintro k q hq hk rfl
            rw [lookup_zip_cons_self] at hk
            cases hk
            exact hp hq
          have hrest : List.Forall₂ (fun k q => k ≠ n ∧
              (names.zip ps).lookup k = some q) ms ps := by
            rw [List.forall₂_iff_zip] at hall ⊢
            refine ⟨hall.1, fun {k q} hmem => ?_⟩
            have hk := hall.2 hmem
            have hne := hlater (List.of_mem_zip hmem).2 hk
            rw [lookup_zip_cons_of_ne hne] at hk
            exact ⟨hne, hk⟩
          rw [List.forall₂_and_left] at hrest
          obtain ⟨rfl, hnodup⟩ := ih (Nat.succ.inj hnames) hps hrest.2
          refine ⟨by rw [hmn], List.nodup_cons.mpr ⟨?_, hnodup⟩⟩
          intro hn
          exact hrest.1 n hn rfl

/-- Every name finds the parameter at its place, when the names are
distinct. -/
theorem lookup_zip_of_nodup (hnames : names.length = ps.length)
    (hnodup : names.Nodup) :
    List.Forall₂ (fun n p => (names.zip ps).lookup n = some p) names ps := by
  induction names generalizing ps with
  | nil =>
      obtain rfl := List.length_eq_zero_iff.mp hnames.symm
      exact .nil
  | cons n names ih =>
      obtain _ | ⟨p, ps⟩ := ps
      · cases hnames
      obtain ⟨hn, hnodup⟩ := List.nodup_cons.mp hnodup
      refine .cons (lookup_zip_cons_self ..) ?_
      have hrest := ih (Nat.succ.inj hnames) hnodup
      rw [List.forall₂_iff_zip] at hrest ⊢
      refine ⟨hrest.1, fun {k q} hmem => ?_⟩
      have hne : k ≠ n := by
        rintro rfl
        exact hn (List.of_mem_zip hmem).1
      rw [lookup_zip_cons_of_ne hne]
      exact hrest.2 hmem

end

/-! ## Searching -/

/-- In an ordered list the element found stands before all others that are
sought. -/
theorem eq_or_of_find?_eq_some {α : Type} {R : α → α → Prop} {p : α → Bool}
    {l : List α} {a b : α} (hR : l.Pairwise R) (ha : l.find? p = some a)
    (hb : b ∈ l) (hp : p b = true) : b = a ∨ R a b := by
  obtain ⟨-, before, after, rfl, hbefore⟩ := List.find?_eq_some_iff_append.mp ha
  rcases List.mem_append.mp hb with hb | hb
  · have hnot := hbefore b hb
    rw [hp] at hnot
    cases hnot
  · rw [List.pairwise_append, List.pairwise_cons] at hR
    exact (List.mem_cons.mp hb).imp_right (hR.2.1.1 b)

end Verdicts
