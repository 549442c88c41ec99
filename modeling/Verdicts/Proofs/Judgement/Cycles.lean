import Mathlib
import Verdicts.Proofs.Correspondence.Unwinding

/-!
# Arrays that come back to themselves

A host may redirect element types, so following them need not lead to older types:
it may come back to an array.  The walk keeps the types that have not come up yet,
and this is enough: it ends after as many steps as the program has types at most,
where it stops, at an array without element type, or at the first array that comes
up twice.

The two verdicts on serialization walk in different ways.  The tier looks through
a nullable type at what it holds, the doubt descends to it as to a type argument
and begins anew there.  A walk of the first kind that comes back keeps the second
kind from ever leaving the cycle, as long as nullable types are not arrays
themselves.
-/

namespace Verdicts

namespace Program

variable {p : Program} {look : Handle → Handle} {stops : Handle → Bool}
  {a b e u x : Handle} {m n : ℕ}

/-! ## Following element types -/

/-- The type at which the walk looks after a type at which it does not stop. -/
def next? (p : Program) (look : Handle → Handle) (stops : Handle → Bool)
    (b : Handle) : Option Handle :=
  if stops b then none else (p.element? b).map look

/-- The type at which the walk looks after a number of steps, unless it has ended
by then.  Types that come up again do not end it. -/
def visit? (p : Program) (look : Handle → Handle) (stops : Handle → Bool) :
    ℕ → Handle → Option Handle
  | 0, a => some (look a)
  | n + 1, a => (p.visit? look stops n a).bind (p.next? look stops)

/-- The walk has ended after a number of steps: it stops, is at an array without
element type, or is at a type at which it was before. -/
inductive EndsAfter (p : Program) (look : Handle → Handle) (stops : Handle → Bool)
    (a : Handle) : ℕ → Landing → Prop where
  | core {n : ℕ} {b : Handle} (h : p.visit? look stops n a = some b) (hs : stops b = true) :
      EndsAfter p look stops a n (.core b)
  | hollow {n : ℕ} {b : Handle} (h : p.visit? look stops n a = some b)
      (hs : stops b = false) (he : p.element? b = none) : EndsAfter p look stops a n .hollow
  | cyclic {m n : ℕ} {b : Handle} (hm : m < n)
      (before : p.visit? look stops m a = some b)
      (h : p.visit? look stops n a = some b) : EndsAfter p look stops a n .cyclic

theorem next?_eq_some_iff :
    p.next? look stops b = some x ↔
      stops b = false ∧ ∃ e, p.element? b = some e ∧ look e = x := by
  by_cases hs : stops b = true
  · simp [next?, hs]
  · simp [next?, hs]

theorem visit?_succ_eq_some_iff :
    p.visit? look stops (n + 1) a = some x ↔
      ∃ b, p.visit? look stops n a = some b ∧ p.next? look stops b = some x := by
  rw [visit?, Option.bind_eq_some_iff]

/-- Types that look the same are at the beginning of the same walk. -/
theorem visit?_congr (h : look u = look a) (n : ℕ) :
    p.visit? look stops n u = p.visit? look stops n a := by
  induction n with
  | zero => exact congrArg some h
  | succ n ih => rw [visit?, visit?, ih]

/-- The first step may be taken apart instead of the last one. -/
theorem visit?_succ_of_element? (hs : stops (look a) = false)
    (he : p.element? (look a) = some e) (n : ℕ) :
    p.visit? look stops (n + 1) a = p.visit? look stops n e := by
  induction n with
  | zero => simp [visit?, next?, hs, he]
  | succ n ih => rw [visit?, ih, visit?]

theorem visit?_isSome_of_le (h : (p.visit? look stops n a).isSome = true) (hm : m ≤ n) :
    (p.visit? look stops m a).isSome = true := by
  induction hm with
  | refl => exact h
  | step _ ih =>
      obtain ⟨x, hx⟩ := Option.isSome_iff_exists.mp h
      obtain ⟨b, hb, -⟩ := visit?_succ_eq_some_iff.mp hx
      exact ih (hb ▸ rfl)

/-- From the same type on, walks are the same. -/
theorem visit?_add_congr (h : p.visit? look stops m a = p.visit? look stops n a) (k : ℕ) :
    p.visit? look stops (m + k) a = p.visit? look stops (n + k) a := by
  induction k with
  | zero => exact h
  | succ k ih => rw [← Nat.add_assoc, ← Nat.add_assoc, visit?, visit?, ih]

/-- A walk that comes back to a type goes on for ever. -/
theorem visit?_isSome_of_comesBack (hm : m < n)
    (before : p.visit? look stops m a = some b) (h : p.visit? look stops n a = some b)
    (k : ℕ) : (p.visit? look stops k a).isSome = true := by
  induction k using Nat.strongRecOn with
  | ind k ih =>
      rcases Nat.lt_or_ge n k with hlt | hle
      · have hshift := visit?_add_congr (before.trans h.symm) (k - n)
        rw [Nat.add_sub_cancel' (Nat.le_of_lt hlt)] at hshift
        rw [← hshift]
        exact ih _ (by omega)
      · exact visit?_isSome_of_le (h ▸ rfl) hle

/-- A walk that goes on for ever does not stop. -/
theorem continues_of_endless (h : ∀ k, (p.visit? look stops k a).isSome = true)
    (hn : p.visit? look stops n a = some b) :
    stops b = false ∧ ∃ e, p.element? b = some e := by
  obtain ⟨x, hx⟩ := Option.isSome_iff_exists.mp (h (n + 1))
  obtain ⟨b', hb', hnext⟩ := visit?_succ_eq_some_iff.mp hx
  obtain rfl := Option.some.inj (hn.symm.trans hb')
  obtain ⟨hs, e, he, -⟩ := next?_eq_some_iff.mp hnext
  exact ⟨hs, e, he⟩

namespace EndsAfter

variable {l l' : Landing}

theorem cons (hs : stops (look a) = false) (he : p.element? (look a) = some e)
    (h : p.EndsAfter look stops e n l) : p.EndsAfter look stops a (n + 1) l := by
  have hvisit : ∀ k, p.visit? look stops (k + 1) a = p.visit? look stops k e :=
    visit?_succ_of_element? hs he
  cases h with
  | core h hs => exact .core ((hvisit _).trans h) hs
  | hollow h hs he => exact .hollow ((hvisit _).trans h) hs he
  | cyclic hm before h =>
      exact .cyclic (Nat.succ_lt_succ hm) ((hvisit _).trans before) ((hvisit _).trans h)

/-- A walk that does not come back ends at a type behind which it looks at none. -/
theorem exists_last (h : p.EndsAfter look stops a n l) (hl : l ≠ .cyclic) :
    ∃ b, p.visit? look stops n a = some b ∧ p.next? look stops b = none ∧
      l = if stops b then .core b else .hollow := by
  cases h with
  | core h hs => exact ⟨_, h, by simp [next?, hs], by simp [hs]⟩
  | hollow h hs he => exact ⟨_, h, by simp [next?, he], by simp [hs]⟩
  | cyclic => exact absurd rfl hl

/-- Then it takes no further step. -/
theorem visit?_succ (h : p.EndsAfter look stops a n l) (hl : l ≠ .cyclic) :
    p.visit? look stops (n + 1) a = none := by
  obtain ⟨b, hb, hnext, -⟩ := h.exists_last hl
  rw [visit?, hb, Option.bind_some, hnext]

theorem le_of_ne_cyclic (h : p.EndsAfter look stops a n l) (hl : l ≠ .cyclic)
    (h' : (p.visit? look stops m a).isSome = true) : m ≤ n := by
  by_contra hlt
  have hsome := visit?_isSome_of_le h' (Nat.succ_le_of_lt (Nat.lt_of_not_le hlt))
  rw [h.visit?_succ hl] at hsome
  cases hsome

theorem eq_cyclic_of_comesBack (hm : m < n) (before : p.visit? look stops m a = some b)
    (h : p.visit? look stops n a = some b) {k : ℕ} (hl : p.EndsAfter look stops a k l) :
    l = .cyclic := by
  by_contra hne
  have hsome := visit?_isSome_of_comesBack hm before h (k + 1)
  rw [hl.visit?_succ hne] at hsome
  cases hsome

/-- A walk ends in one way. -/
theorem unique (h : p.EndsAfter look stops a n l) (h' : p.EndsAfter look stops a m l') :
    l = l' := by
  by_cases hl : l = .cyclic
  · subst hl
    cases h with
    | cyclic hm before h => exact (eq_cyclic_of_comesBack hm before h h').symm
  by_cases hl' : l' = .cyclic
  · subst hl'
    cases h' with
    | cyclic hm before h' => exact eq_cyclic_of_comesBack hm before h' h
  · obtain ⟨b, hb, -, rfl⟩ := h.exists_last hl
    obtain ⟨b', hb', -, rfl⟩ := h'.exists_last hl'
    obtain rfl := Nat.le_antisymm (h'.le_of_ne_cyclic hl' (hb ▸ rfl))
      (h.le_of_ne_cyclic hl (hb' ▸ rfl))
    rw [Option.some.inj (hb.symm.trans hb')]

end EndsAfter

/-! ## The list of fresh types -/

theorem unwindFresh_of_not_mem {fresh : List Handle} (hs : stops (look a) = false)
    (hmem : look a ∉ fresh) : p.unwindFresh look stops fresh a = .cyclic := by
  rw [unwindFresh]
  simp only [hs, hmem, Bool.false_eq_true, if_false]

/-- The walk ends after as many steps as there are fresh types at most, or comes
to a type that is not one of them. -/
theorem endsAfter_unwindFresh (p : Program) (look : Handle → Handle)
    (stops : Handle → Bool) (fresh : List Handle) (a : Handle) :
    ∃ n ≤ fresh.length, p.EndsAfter look stops a n (p.unwindFresh look stops fresh a) ∨
      p.unwindFresh look stops fresh a = .cyclic ∧
        ∃ b, p.visit? look stops n a = some b ∧ stops b = false ∧ b ∉ fresh := by
  -- Only the list gets smaller; the types of the walk may come up again.
  induction hlength : fresh.length using Nat.strongRecOn
    generalizing fresh a with
  | ind l ih =>
      subst hlength
      by_cases hs : stops (look a) = true
      · rw [unwindFresh_of_stops hs]
        exact ⟨0, Nat.zero_le _, .inl (.core rfl hs)⟩
      rw [Bool.not_eq_true] at hs
      by_cases hmem : look a ∈ fresh
      · cases he : p.element? (look a) with
        | none =>
            rw [unwindFresh_of_continues hs hmem, he]
            exact ⟨0, Nat.zero_le _, .inl (.hollow rfl hs he)⟩
        | some e =>
            rw [unwindFresh_of_continues hs hmem, he]
            dsimp only
            have hlength := List.length_erase_of_mem hmem
            have hpos := List.length_pos_of_mem hmem
            obtain ⟨n, hn, hends | ⟨hcyclic, b, hb, hsb, hfresh⟩⟩ :=
              ih _ (by omega) (fresh.erase (look a)) e rfl
            · exact ⟨n + 1, by omega, .inl (hends.cons hs he)⟩
            -- A type that is missing from the shorter list is the one at which the
            -- walk was first, or is missing from the longer list as well.
            · have hb' := (visit?_succ_of_element? hs he n).trans hb
              refine ⟨n + 1, by omega, ?_⟩
              by_cases heq : b = look a
              · rw [hcyclic]
                exact .inl (.cyclic (Nat.succ_pos n) rfl (heq ▸ hb'))
              · rw [List.mem_erase_of_ne heq] at hfresh
                exact .inr ⟨hcyclic, b, hb', hsb, hfresh⟩
      · rw [unwindFresh_of_not_mem hs hmem]
        exact ⟨0, Nat.zero_le _, .inr ⟨rfl, look a, rfl, hs, hmem⟩⟩

/-- The walk ends after as many steps as there are types at most, when it stops at
all types that the table does not know. -/
theorem endsAfter_unwind (hknown : ∀ {b}, stops b = false → p.table.knows b = true)
    (a : Handle) :
    ∃ n ≤ p.table.size, p.EndsAfter look stops a n (p.unwind look stops a) := by
  have hsize : p.table.handles.length = p.table.size := by
    rw [Table.handles, List.length_map, List.length_range]
  obtain ⟨n, hn, hends | ⟨-, b, -, hs, hmem⟩⟩ :=
    p.endsAfter_unwindFresh look stops p.table.handles a
  · exact ⟨n, hsize ▸ hn, hends⟩
  · exact absurd (Table.mem_handles_of_knows (hknown hs)) hmem

/-! ## The two verdicts -/

/-- The type at which the verdict on the tier looks after peeling off a number of
arrays. -/
def peel? (p : Program) (n : ℕ) (a : Handle) : Option Handle :=
  p.visit? p.throughNullable (fun h => p.table.kind h ≠ .array) n a

/-- Peeling meets the type, before or after seeing it through. -/
def Meets (p : Program) (a x : Handle) : Prop :=
  x = a ∨ ∃ n b, p.peel? n a = some b ∧ (x = b ∨ p.element? b = some x)

/-- Peeling never ends, and none of the arrays that it meets is a nullable type. -/
structure IsTrapped (p : Program) (a : Handle) : Prop where
  endless : ∀ n, (p.peel? n a).isSome = true
  plain : ∀ x, p.Meets a x → p.table.kind x = .array →
    p.table.nullableUnderlying? x = none

theorem throughNullable_of_plain (h : p.table.nullableUnderlying? a = none) :
    p.throughNullable a = a := by
  rw [throughNullable, h]
  rfl

namespace IsTrapped

/-- What peeling looks at is an array. -/
theorem exists_element? (h : p.IsTrapped a) :
    p.table.kind (p.throughNullable a) = .array ∧
      ∃ e, p.element? (p.throughNullable a) = some e := by
  have hfirst : p.peel? 0 a = some (p.throughNullable a) := rfl
  obtain ⟨hs, he⟩ := continues_of_endless h.endless hfirst
  exact ⟨by simpa using hs, he⟩

theorem element (h : p.IsTrapped a) (hk : p.table.kind a = .array) :
    ∃ e, p.element? a = some e ∧ p.IsTrapped e := by
  have hlook := throughNullable_of_plain (h.plain a (.inl rfl) hk)
  obtain ⟨hkind, e, he⟩ := h.exists_element?
  have hpeel : ∀ n, p.peel? (n + 1) a = p.peel? n e :=
    visit?_succ_of_element? (by simp [hkind]) he
  rw [hlook] at he
  refine ⟨e, he, fun n => hpeel n ▸ h.endless (n + 1), ?_⟩
  rintro x (rfl | ⟨n, b, hb, hx⟩)
  · exact h.plain x (.inr ⟨0, a, congrArg some hlook, .inr he⟩)
  · exact h.plain x (.inr ⟨n + 1, b, (hpeel n).trans hb, hx⟩)

theorem underlying (h : p.IsTrapped a) (hk : p.table.kind a ≠ .array) :
    ∃ u, p.table.nullableUnderlying? a = some u ∧ p.IsTrapped u := by
  obtain ⟨hkind, -⟩ := h.exists_element?
  cases hu : p.table.nullableUnderlying? a with
  | none => exact absurd (throughNullable_of_plain hu ▸ hkind) hk
  | some u =>
      have hlook : p.throughNullable a = u := by
        rw [throughNullable, hu]
        rfl
      have hplain := h.plain u (.inr ⟨0, u, congrArg some hlook, .inl rfl⟩) (hlook ▸ hkind)
      have hpeel : ∀ n, p.peel? n u = p.peel? n a :=
        visit?_congr ((throughNullable_of_plain hplain).trans hlook.symm)
      refine ⟨u, rfl, fun n => hpeel n ▸ h.endless n, ?_⟩
      rintro x (rfl | ⟨n, b, hb, hx⟩)
      · exact fun _ => hplain
      · exact h.plain x (.inr ⟨n, b, (hpeel n).symm.trans hb, hx⟩)

/-- The doubt cannot leave the trap along element types. -/
theorem visit? (h : p.IsTrapped a)
    (hb : p.visit? id (fun h => p.table.isUnreliable h || p.table.kind h ≠ .array) n a =
      some b) : p.IsTrapped b := by
  induction n generalizing b with
  | zero => exact Option.some.inj hb ▸ h
  | succ n ih =>
      obtain ⟨c, hc, hnext⟩ := visit?_succ_eq_some_iff.mp hb
      obtain ⟨hs, e, he, rfl⟩ := next?_eq_some_iff.mp hnext
      have hk : p.table.kind c = .array := by
        simpa using (Bool.or_eq_false_iff.mp hs).2
      obtain ⟨e', he', htrapped⟩ := (ih hc).element hk
      rwa [id, Option.some.inj (he.symm.trans he')]

end IsTrapped

theorem knows_of_kind_eq_array (hk : p.table.kind a = .array) :
    p.table.knows a = true :=
  Table.knows_of_kind_ne_unknown (by simp [hk])

/-- The verdict on the tier walks as far as there are types at most. -/
theorem endsAfter_innermost (p : Program) (a : Handle) :
    ∃ n ≤ p.table.size,
      p.EndsAfter p.throughNullable (fun h => p.table.kind h ≠ .array) a n
        (p.innermost a) :=
  endsAfter_unwind (fun hs => knows_of_kind_eq_array (by simpa using hs)) a

/-- So does the doubt between two type arguments. -/
theorem endsAfter_stripped (p : Program) (a : Handle) :
    ∃ n ≤ p.table.size,
      p.EndsAfter id (fun h => p.table.isUnreliable h || p.table.kind h ≠ .array) a n
        (p.stripped a) :=
  endsAfter_unwind
    (fun hs => knows_of_kind_eq_array (by simpa using (Bool.or_eq_false_iff.mp hs).2)) a

theorem mem_arguments_of_nullableUnderlying?
    (h : p.table.nullableUnderlying? a = some u) : u ∈ p.table.arguments a := by
  rw [Table.nullableUnderlying?] at h
  split at h
  · next definition arguments hs =>
      rw [Table.arguments, hs]
      split at h
      · exact List.mem_of_mem_head? h
      · cases h
  · cases h

/-- In the trap there is doubt, however many type arguments may be followed. -/
theorem IsTrapped.doubtWithin? (h : p.IsTrapped a) (levels : ℕ) :
    (p.doubtWithin? levels a).isSome = true := by
  induction levels generalizing a with
  | zero => rfl
  | succ levels ih =>
      obtain ⟨n, -, hends⟩ := p.endsAfter_stripped a
      rw [Program.doubtWithin?]
      revert hends
      generalize p.stripped a = landing
      rintro (@⟨n, core, hcore, hs⟩ | _ | _)
      · by_cases hunreliable : p.table.isUnreliable core = true
        · simp [hunreliable]
        · have hk : p.table.kind core ≠ .array := by
            simpa [hunreliable] using hs
          obtain ⟨u, hu, htrapped⟩ := (h.visit? hcore).underlying hk
          simp only [hunreliable]
          exact List.findSome?_isSome_iff.mpr
            ⟨u, mem_arguments_of_nullableUnderlying? hu, ih htrapped⟩
      · rfl
      · rfl

theorem innermost_of_comesBack (hm : m < n) (before : p.peel? m a = some b)
    (h : p.peel? n a = some b) : p.innermost a = .cyclic := by
  obtain ⟨k, -, hends⟩ := p.endsAfter_innermost a
  exact hends.unique (.cyclic hm before h)

theorem innermost_of_hollow (h : p.peel? n a = some b) (hk : p.table.kind b = .array)
    (he : p.element? b = none) : p.innermost a = .hollow := by
  obtain ⟨k, -, hends⟩ := p.endsAfter_innermost a
  exact hends.unique (.hollow h (by simp [hk]) he)

theorem innermost_of_core (h : p.peel? n a = some u) (hk : p.table.kind u ≠ .array) :
    p.innermost a = .core u := by
  obtain ⟨k, -, hends⟩ := p.endsAfter_innermost a
  exact hends.unique (.core h (by simp [hk]))

end Program

namespace Inquiry

theorem classify_apply (c : Classifier) (a : Handle) (q : Inquiry) :
    classify c a q =
      match q.program.innermost a with
      | .core core =>
        if (q.program.table.kind core).isData then classifyCore c core q else (.never, q)
      | .hollow => (.never, q)
      | .cyclic => (.possibly, q) := by
  rw [classify, bind_apply, get_apply]
  cases q.program.innermost a with
  | core core =>
      by_cases hdata : (q.program.table.kind core).isData = true
      · simp [hdata]
      · simp [hdata]
  | hollow => rfl
  | cyclic => rfl

/-- Whatever the element types are redirected to, both walks end after as many
steps as there are types at most.  If peeling comes back to an array, values
possibly survive, and the type is ignored as long as no nullable type on the way is
an array itself; otherwise values never survive an array without element type, and
a type that is neither an array nor nullable decides for the arrays around it. -/
theorem verdicts_of_peeling (q : Inquiry) (c : Classifier) (a : Handle) :
    let p := q.program
    (∃ n ≤ p.table.size,
        p.EndsAfter p.throughNullable (fun h => p.table.kind h ≠ .array) a n
          (p.innermost a)) ∧
      (∀ b, ∃ n ≤ p.table.size,
        p.EndsAfter id (fun h => p.table.isUnreliable h || p.table.kind h ≠ .array) b n
          (p.stripped b)) ∧
      (∀ m n b, m < n → p.peel? m a = some b → p.peel? n a = some b →
        classify c a q = (.possibly, q) ∧
          ((∀ x, p.Meets a x → p.table.kind x = .array →
              p.table.nullableUnderlying? x = none) → p.ignores a = true)) ∧
      (∀ n b, p.peel? n a = some b → p.table.kind b = .array → p.element? b = none →
        classify c a q = (.never, q)) ∧
      ∀ n u, p.peel? n a = some u → p.table.kind u ≠ .array →
        p.table.nullableUnderlying? u = none → classify c a q = classify c u q := by
  intro p
  refine ⟨p.endsAfter_innermost a, p.endsAfter_stripped, ?_, ?_, ?_⟩
  · intro m n b hm before h
    refine ⟨?_, fun hplain => ?_⟩
    · rw [classify_apply, Program.innermost_of_comesBack hm before h]
    · exact Program.IsTrapped.doubtWithin?
        ⟨Program.visit?_isSome_of_comesBack hm before h, hplain⟩ _
  · intro n b h hk he
    rw [classify_apply, Program.innermost_of_hollow h hk he]
  · intro n u h hk hu
    have hself : p.peel? 0 u = some u :=
      congrArg some (Program.throughNullable_of_plain hu)
    rw [classify_apply, classify_apply, Program.innermost_of_core h hk,
      Program.innermost_of_core hself hk]

/-- Numbers, nullable types, an array and the nullable type over the array, which
is redirected to that. -/
def nullableCycle : Program where
  table := ⟨#[.parameter "T" ⟨true, false, false, []⟩,
    .named ⟨"System.Nullable\x601", .struct, some .nullableT, true, none, [], [⟨1⟩]⟩,
    .named ⟨"System.Int32", .struct, some .int32, true, none, [], []⟩,
    .array ⟨3⟩, .constructed ⟨2⟩ [⟨4⟩]], []⟩
  references := []
  attributes := []
  wiring := [(⟨4⟩, some ⟨5⟩)]
  lookups := 0

/-- The array and the nullable type over it are on a cycle. -/
theorem verdicts_of_peeling_nullable :
    let q : Inquiry := ⟨nullableCycle, Capabilities.empty⟩
    nullableCycle.peel? 0 ⟨5⟩ = some ⟨4⟩ ∧ nullableCycle.peel? 1 ⟨5⟩ = some ⟨4⟩ ∧
      classify ⟨[], []⟩ ⟨5⟩ q = (.possibly, q) ∧ nullableCycle.ignores ⟨5⟩ = true := by
  intro q
  have hpeel : nullableCycle.peel? 0 ⟨5⟩ = some ⟨4⟩ ∧
      nullableCycle.peel? 1 ⟨5⟩ = some ⟨4⟩ := by
    decide +kernel
  have hplain : ∀ x, nullableCycle.table.kind x = .array →
      nullableCycle.table.nullableUnderlying? x = none := by
    intro x hk
    have hall : ∀ h ∈ nullableCycle.table.handles, nullableCycle.table.kind h = .array →
        nullableCycle.table.nullableUnderlying? h = none := by
      decide +kernel
    exact hall x (Table.mem_handles_of_knows (Program.knows_of_kind_eq_array hk)) hk
  obtain ⟨hpossibly, hignores⟩ :=
    (verdicts_of_peeling q ⟨[], []⟩ ⟨5⟩).2.2.1 0 1 ⟨4⟩ Nat.one_pos hpeel.1 hpeel.2
  exact ⟨hpeel.1, hpeel.2, hpossibly, hignores fun x _ => hplain x⟩

/-- Nullable types that are arrays themselves; an array is redirected to the
nullable type over it, and this one to numbers. -/
def nullableArrays : Program where
  table := ⟨#[.parameter "T" ⟨false, false, false, []⟩,
    .named ⟨"N\x601", .array, some .nullableT, false, none, [], [⟨1⟩]⟩,
    .named ⟨"System.Int32", .struct, some .int32, true, none, [], []⟩,
    .array ⟨3⟩, .constructed ⟨2⟩ [⟨4⟩]], []⟩
  references := []
  attributes := []
  wiring := [(⟨5⟩, some ⟨3⟩), (⟨4⟩, some ⟨5⟩)]
  lookups := 0

/-- Peeling comes back to the array, seeing the nullable type through, whereas the
doubt follows the element type of the nullable type and finds none. -/
theorem nullableArrays_not_ignored :
    ¬∀ (p : Program) (a b : Handle) (m n : ℕ), m < n → p.peel? m a = some b →
      p.peel? n a = some b → p.ignores a = true := by
  intro h
  have hpeel : nullableArrays.peel? 0 ⟨4⟩ = some ⟨4⟩ ∧
      nullableArrays.peel? 1 ⟨4⟩ = some ⟨4⟩ := by
    decide +kernel
  have hchecked : nullableArrays.ignores ⟨4⟩ = false := by
    cbv
  have hignored := h nullableArrays ⟨4⟩ ⟨4⟩ 0 1 Nat.one_pos hpeel.1 hpeel.2
  rw [hchecked] at hignored
  cases hignored

end Inquiry

end Verdicts
