import Verdicts.Proofs.Judgement.Tiers

/-!
# What casts doubt on a type

A type contains the element type of an array and the type arguments of a generic
type, and whatever these contain.  A verdict on serialization is ignored exactly
if the type contains a doubtful one within the limit of type arguments, or type
arguments that nest beyond the limit, however many arrays lie between them.  So
a type that casts doubt on itself casts doubt on every type that contains it.
-/

namespace Verdicts

variable {foreign : Handle → Prop}

namespace Table

variable {t u : Table} {a b c : Handle} {m n levels : Nat}

/-! ## Containing -/

/-- The first type contains the second one: following element types of arrays and
the given number of type arguments leads from the one to the other. -/
inductive Contains (t : Table) : Nat → Handle → Handle → Prop where
  | self (a : Handle) : Contains t 0 a a
  | element {n : Nat} {a e b : Handle} (he : t.element? a = some e)
      (rest : Contains t n e b) : Contains t n a b
  | argument {n : Nat} {a c b : Handle} (hc : c ∈ t.arguments a)
      (rest : Contains t n c b) : Contains t (n + 1) a b

/-- Nothing can be said about the type, by its kind or because it is the base of
all enumerations, or it is an array without element type. -/
def IsDoubtful (t : Table) (h : Handle) : Prop :=
  t.kind h ∈ [Kind.unknown, .error, .moduleType, .typeParameter, .submission,
      .enum] ∨
    t.tag? h = some .enum ∨ t.kind h = .array ∧ t.element? h = none

/-- The type contains a doubtful one under fewer type arguments than the given
number, or that many type arguments. -/
def CastsDoubt (t : Table) (levels : Nat) (h : Handle) : Prop :=
  (∃ n b, n < levels ∧ t.Contains n h b ∧ t.IsDoubtful b) ∨
    ∃ b, t.Contains levels h b

theorem element?_eq_some_iff :
    t.element? b = some a ↔ t.shape? b = some (.array a) := by
  rw [element?]
  split
  · next hs => simp [hs]
  · next hs => simp [show t.shape? b ≠ _ from hs a]

theorem isDoubtful_iff : t.IsDoubtful a ↔
    t.isUnreliable a = true ∨ t.kind a = .array ∧ t.element? a = none := by
  have helusive : ∀ k : Kind, isElusive k = true ↔
      k ∈ [Kind.unknown, .error, .moduleType, .typeParameter, .submission,
        .enum] := by
    intro k
    cases k <;> decide
  rw [IsDoubtful, isUnreliable, Bool.or_eq_true, helusive, decide_eq_true_iff,
    or_assoc]

namespace Contains

theorem trans (h : t.Contains m a b) (h' : t.Contains n b c) :
    t.Contains (m + n) a c := by
  induction h with
  | self a => rwa [Nat.zero_add]
  | element he _ ih => exact .element he (ih h')
  | argument hc _ ih =>
      rw [Nat.add_right_comm]
      exact .argument hc (ih h')

/-- A walk along more type arguments passes by the smaller numbers of them. -/
theorem exists_of_le (h : t.Contains n a b) (hm : m ≤ n) :
    ∃ c, t.Contains m a c := by
  induction h generalizing m with
  | self a =>
      obtain rfl := Nat.le_zero.mp hm
      exact ⟨a, .self a⟩
  | element he _ ih =>
      obtain ⟨c, hc⟩ := ih hm
      exact ⟨c, .element he hc⟩
  | @argument n a d b hd _ ih =>
      cases m with
      | zero => exact ⟨a, .self a⟩
      | succ m =>
          obtain ⟨c, hc⟩ := ih (Nat.le_of_succ_le_succ hm)
          exact ⟨c, .argument hd hc⟩

theorem castsDoubt (h : t.Contains n b a) (ha : t.CastsDoubt levels a) :
    t.CastsDoubt levels b := by
  rcases ha with ⟨m, c, -, hac, hc⟩ | ⟨c, hac⟩
  · have hbc := h.trans hac
    rcases Nat.lt_or_ge (n + m) levels with hlt | hge
    · exact .inl ⟨n + m, c, hlt, hbc, hc⟩
    · exact .inr (hbc.exists_of_le hge)
  · exact .inr ((h.trans hac).exists_of_le (Nat.le_add_left levels n))

end Contains

/-! ## One step down -/

theorem castsDoubt_zero (a : Handle) : t.CastsDoubt 0 a :=
  .inr ⟨a, .self a⟩

theorem castsDoubt_of_isDoubtful (ha : t.IsDoubtful a) :
    t.CastsDoubt (levels + 1) a :=
  .inl ⟨0, a, Nat.succ_pos levels, .self a, ha⟩

theorem castsDoubt_element (hs : t.shape? b = some (.array a))
    (hb : ¬ t.IsDoubtful b) :
    t.CastsDoubt (levels + 1) b ↔ t.CastsDoubt (levels + 1) a := by
  have helement := element?_eq_some_iff.mpr hs
  have hstep : ∀ {n c}, t.Contains n b c →
      t.Contains n a c ∨ n = 0 ∧ c = b := by
    intro n c h
    cases h with
    | self => exact .inr ⟨rfl, rfl⟩
    | element he rest =>
        obtain rfl := Option.some.inj (helement.symm.trans he)
        exact .inl rest
    | argument hc =>
        rw [arguments, hs] at hc
        cases hc
  constructor
  · rintro (⟨n, c, hlt, hbc, hc⟩ | ⟨c, hbc⟩)
    · rcases hstep hbc with hac | ⟨-, rfl⟩
      · exact .inl ⟨n, c, hlt, hac, hc⟩
      · exact absurd hc hb
    · rcases hstep hbc with hac | ⟨hzero, -⟩
      · exact .inr ⟨c, hac⟩
      · cases hzero
  · exact (Contains.element helement (.self a)).castsDoubt

theorem castsDoubt_arguments (ha : t.element? a = none)
    (hdoubt : ¬ t.IsDoubtful a) :
    t.CastsDoubt (levels + 1) a ↔ ∃ c ∈ t.arguments a, t.CastsDoubt levels c := by
  constructor
  · rintro (⟨n, b, hlt, hab, hb⟩ | ⟨b, hab⟩)
    · cases hab with
      | self => exact absurd hb hdoubt
      | element he => cases ha.symm.trans he
      | argument hc rest =>
          exact ⟨_, hc, .inl ⟨_, b, Nat.lt_of_succ_lt_succ hlt, rest, hb⟩⟩
    · cases hab with
      | element he => cases ha.symm.trans he
      | argument hc rest => exact ⟨_, hc, .inr ⟨b, rest⟩⟩
  · rintro ⟨c, hc, ⟨n, b, hlt, hcb, hb⟩ | ⟨b, hcb⟩⟩
    · exact .inl ⟨n + 1, b, Nat.succ_lt_succ hlt, .argument hc hcb, hb⟩
    · exact .inr ⟨b, .argument hc hcb⟩

/-! ## Enriched tables -/

theorem WellFormed.admits_element (w : t.WellFormed foreign)
    (he : t.element? b = some a) : t.Admits foreign a :=
  w.admits_part (element?_eq_some_iff.mp he) (List.mem_singleton_self a)

section

variable (e : t.EnrichedTo u) (w : t.WellFormed foreign)
  (wu : u.WellFormed foreign) (hu : u.Avoids foreign)
include e w hu

theorem Contains.enriched (h : t.Contains n a b) (ha : t.Admits foreign a) :
    u.Contains n a b ∧ t.Admits foreign b := by
  induction h with
  | self a => exact ⟨.self a, ha⟩
  | element he _ ih =>
      obtain ⟨hrest, hb⟩ := ih (w.admits_element he)
      exact ⟨.element ((e.element?_eq hu ha).trans he) hrest, hb⟩
  | argument hc _ ih =>
      obtain ⟨hrest, hb⟩ := ih (w.admits_argument hc)
      rw [← e.arguments_eq hu ha] at hc
      exact ⟨.argument hc hrest, hb⟩

include wu in
theorem CastsDoubt.enriched (h : t.CastsDoubt levels a)
    (ha : t.Admits foreign a) : u.CastsDoubt levels a := by
  rcases h with ⟨n, b, hlt, hab, hb⟩ | ⟨b, hab⟩
  · obtain ⟨hab', hadmits⟩ := hab.enriched e w hu ha
    refine .inl ⟨n, b, hlt, hab', ?_⟩
    rwa [IsDoubtful, e.kind_eq w wu hu hadmits, e.tag?_eq hu hadmits,
      e.element?_eq hu hadmits]
  · exact .inr ⟨b, (hab.enriched e w hu ha).1⟩

end

end Table

namespace Program

variable {p : Program} {a b : Handle} {levels : Nat}

/-! ## The walk -/

theorem stripped_of_stops
    (h : p.table.isUnreliable a = true ∨ p.table.kind a ≠ .array) :
    p.stripped a = .core a := by
  rw [stripped, unwind, unwindFresh_of_stops (by simpa using h), id]

theorem stripped_of_hollow (hunreliable : p.table.isUnreliable a = false)
    (hkind : p.table.kind a = .array) (helement : p.element? a = none) :
    p.stripped a = .hollow := by
  have hmem : a ∈ p.table.handles := by
    refine Table.mem_handles_of_knows (Table.knows_of_kind_ne_unknown ?_)
    rw [hkind]
    decide
  rw [stripped, unwind, unwindFresh_of_continues (by simp [hunreliable, hkind])
    hmem]
  simp only [id, helement]

section

variable (w : p.table.WellFormed foreign) (ha : p.table.Avoids foreign)
  (unwired : p.wiring = [])
include unwired

theorem isSome_doubtWithin?_of_isDoubtful (h : p.table.IsDoubtful a) :
    (p.doubtWithin? (levels + 1) a).isSome = true := by
  rw [doubtWithin?]
  cases hunreliable : p.table.isUnreliable a with
  | true =>
      rw [stripped_of_stops (.inl hunreliable)]
      simp [hunreliable]
  | false =>
      obtain ⟨hkind, helement⟩ :=
        (Table.isDoubtful_iff.mp h).resolve_left (by simp [hunreliable])
      rw [← element?_of_unwired unwired] at helement
      rw [stripped_of_hollow hunreliable hkind helement]
      rfl

include w ha

theorem isSome_doubtWithin?_iff (levels : Nat) (a : Handle) :
    (p.doubtWithin? levels a).isSome = true ↔ p.table.CastsDoubt levels a := by
  induction levels generalizing a with
  | zero => exact iff_of_true rfl (Table.castsDoubt_zero a)
  | succ levels ih =>
  -- Below the type arguments of this level, the walk goes down the arrays.
  induction hn : a.index using Nat.strongRecOn generalizing a with
  | ind n ihn =>
      subst hn
      by_cases hdoubt : p.table.IsDoubtful a
      · exact iff_of_true (isSome_doubtWithin?_of_isDoubtful unwired hdoubt)
          (Table.castsDoubt_of_isDoubtful hdoubt)
      cases he : p.table.element? a with
      | some e =>
          have hs := Table.element?_eq_some_iff.mp he
          rw [Table.castsDoubt_element hs hdoubt, doubtWithin?,
            stripped_array w ha unwired hs, ← doubtWithin?]
          rcases w.older hs (List.mem_singleton_self e) with
            ⟨-, hlt⟩ | hforeign
          · exact ihn e.index hlt e rfl
          · have hdoubt : p.table.IsDoubtful e := by
              refine .inl ?_
              rw [kind_of_knows_eq_false (ha e hforeign)]
              exact List.mem_cons_self ..
            exact iff_of_true (isSome_doubtWithin?_of_isDoubtful unwired hdoubt)
              (Table.castsDoubt_of_isDoubtful hdoubt)
      | none =>
          have hunreliable : ¬ p.table.isUnreliable a = true :=
            fun h => hdoubt (Table.isDoubtful_iff.mpr (.inl h))
          have hkind : p.table.kind a ≠ .array :=
            fun h => hdoubt (.inr (.inr ⟨h, he⟩))
          rw [Table.castsDoubt_arguments he hdoubt, doubtWithin?,
            stripped_of_stops (.inr hkind)]
          dsimp only
          rw [if_neg hunreliable, List.findSome?_isSome_iff]
          simp only [ih]

theorem ignores_iff_castsDoubt (a : Handle) :
    p.ignores a = true ↔ p.table.CastsDoubt (Table.depthLimit + 1) a :=
  isSome_doubtWithin?_iff w ha unwired _ a

end

end Program

/-! ## Building a type around another -/

/-- The handed types that the type given out contains. -/
def Table.Operation.enclosed : Table.Operation → List Handle
  | .arrayOf element => [element]
  | .construct _ arguments => arguments
  | .nullableOf underlying => [underlying]
  | _ => []

namespace Table.Operation

variable {t : Table} {op : Operation} {a b : Handle}

theorem isQuery_of_mem_enclosed (ha : a ∈ op.enclosed) : op.isQuery = true := by
  cases op with
  | arrayOf | construct | nullableOf => rfl
  | _ => cases ha

theorem mem_handed_of_mem_enclosed (ha : a ∈ op.enclosed) : a ∈ op.handed := by
  cases op with
  | arrayOf | nullableOf => exact ha
  | construct => exact List.mem_cons_of_mem _ ha
  | _ => cases ha

theorem mem_arguments_construct (definition : Handle) {arguments : List Handle}
    (ha : a ∈ arguments) (t : Table) :
    a ∈ (Table.construct definition arguments t).2.arguments
      (Table.construct definition arguments t).1 := by
  obtain ⟨hown, heq⟩ | hs := construct_cases definition arguments t
  · obtain ⟨d, hd, rfl⟩ := ownsAll_iff.mp hown
    rwa [heq, Table.arguments, hd]
  · rwa [Table.arguments, hs]

theorem mem_arguments_nullableOf (hb : (Table.nullableOf a t).1 = some b) :
    a ∈ (Table.nullableOf a t).2.arguments b := by
  unfold Table.nullableOf at hb ⊢
  rw [bind_apply, get_apply] at hb ⊢
  cases hd : t.builtIn? .nullableT with
  | none =>
      simp only [hd, pure_apply] at hb
      cases hb
  | some definition =>
      simp only [hd, map_apply] at hb ⊢
      obtain rfl := Option.some.inj hb
      exact mem_arguments_construct definition (List.mem_singleton_self a) t

theorem contains_of_mem_run (ha : a ∈ op.enclosed) (hb : b ∈ (op.run t).1) :
    ∃ n, (op.run t).2.Contains n b a := by
  cases op with
  | arrayOf e =>
      obtain rfl := List.mem_singleton.mp ha
      obtain rfl := List.mem_singleton.mp hb
      exact ⟨0, .element (element?_eq_some_iff.mpr (shape?_arrayOf a t)) (.self a)⟩
  | construct d as =>
      obtain rfl := List.mem_singleton.mp hb
      exact ⟨1, .argument (mem_arguments_construct d ha t) (.self a)⟩
  | nullableOf underlying =>
      obtain rfl := List.mem_singleton.mp ha
      exact ⟨1, .argument (mem_arguments_nullableOf (Option.mem_toList.mp hb))
        (.self a)⟩
  | _ => cases ha

end Table.Operation

/-- A type of a reachable table is ignored exactly if element types of arrays
and at most `depthLimit` type arguments lead from it to a doubtful type, or more
type arguments than that follow one another.  So what is ignored makes every
type ignored that contains it, and every type that is built around it. -/
theorem Program.ignores_iff_contains {p : Program}
    (hr : p.table.Reachable foreign) (unwired : p.wiring = []) (a : Handle) :
    (p.ignores a = true ↔
        (∃ n ≤ Table.depthLimit, ∃ b,
          p.table.Contains n a b ∧ p.table.IsDoubtful b) ∨
        ∃ b, p.table.Contains (Table.depthLimit + 1) a b) ∧
      (∀ n b, p.table.Contains n b a → p.ignores a = true →
        p.ignores b = true) ∧
      ∀ op : Table.Operation, op.Permitted foreign p.table →
        (op.run p.table).2.Avoids foreign → a ∈ op.enclosed →
        ∀ b ∈ (op.run p.table).1, p.ignores a = true →
          (Program.onTable op.run p).2.ignores b = true := by
  have w := hr.wellFormed
  have hiff := ignores_iff_castsDoubt w hr.avoids unwired
  refine ⟨?_, ?_, ?_⟩
  · rw [hiff, Table.CastsDoubt]
    simp only [Nat.lt_succ_iff, exists_and_left]
  · intro n b hb ha
    exact (hiff b).mpr (hb.castsDoubt ((hiff a).mp ha))
  · intro op hop havoids henclosed b hb ha
    have w' := op.wellFormed_run w hop havoids
    have e := (Table.Operation.interns_run
      (Table.Operation.isQuery_of_mem_enclosed henclosed) p.table).enrichedTo
    have hadmits := hop.handed a
      (Table.Operation.mem_handed_of_mem_enclosed henclosed)
    obtain ⟨n, hcontains⟩ := Table.Operation.contains_of_mem_run henclosed hb
    have hdoubt := ((hiff a).mp ha).enriched e w w' havoids hadmits
    exact (ignores_iff_castsDoubt (p := (Program.onTable op.run p).2) w' havoids
      unwired b).mpr (hcontains.castsDoubt hdoubt)

theorem Program.table_ofTable (t : Table) : (ofTable t).table = t := rfl

/-- The declaration of an enumeration. -/
def colorDeclaration : Table.Operation :=
  .declare { name := "Color", kind := .enum }

/-- A table with an enumeration. -/
def colorTable : Table := (colorDeclaration.run Table.empty).2

theorem reachable_colorTable : colorTable.Reachable noneForeign := by
  have hdeclare : colorDeclaration.Permitted noneForeign Table.empty :=
    ⟨fun h hh => (List.not_mem_nil hh).elim,
      fun h hh => (List.not_mem_nil hh).elim⟩
  exact ⟨.inl (.step colorDeclaration hdeclare (.refl _)),
    Table.avoids_noneForeign _⟩

/-- An array of an enumeration is built around it, so it is ignored. -/
theorem Program.ignores_iff_contains_enum :
    colorTable.IsDoubtful ⟨1⟩ ∧
      ((Table.Operation.arrayOf ⟨1⟩).run colorTable).1 = [⟨2⟩] ∧
      (Program.onTable (Table.Operation.arrayOf ⟨1⟩).run
        (Program.ofTable colorTable)).2.ignores ⟨2⟩ = true := by
  have hfacts : colorTable.knows ⟨1⟩ = true ∧ colorTable.kind ⟨1⟩ = .enum ∧
      ((Table.Operation.arrayOf ⟨1⟩).run colorTable).1 = [⟨2⟩] := by
    decide +kernel
  obtain ⟨hknown, hkind, hrun⟩ := hfacts
  have harray : (Table.Operation.arrayOf ⟨1⟩).Permitted noneForeign
      colorTable := by
    refine ⟨fun h hh => ?_, fun h hh => (List.not_mem_nil hh).elim⟩
    rw [List.mem_singleton.mp hh]
    exact .inl hknown
  have hdoubtful : colorTable.IsDoubtful ⟨1⟩ := by
    rw [Table.IsDoubtful, hkind]
    decide
  have hreachable := reachable_colorTable
  rw [← Program.table_ofTable colorTable] at hreachable
  have hall := Program.ignores_iff_contains hreachable rfl ⟨1⟩
  rw [Program.table_ofTable] at hall
  obtain ⟨hiff, -, hbuilt⟩ := hall
  have hignored := hiff.mpr (.inl ⟨0, Nat.zero_le _, _, .self _, hdoubtful⟩)
  have hbuilt := hbuilt (.arrayOf ⟨1⟩) harray
    (Table.avoids_noneForeign _) (List.mem_singleton_self _) ⟨2⟩
  rw [hrun] at hbuilt
  exact ⟨hdoubtful, hrun, hbuilt (List.mem_singleton_self _) hignored⟩

end Verdicts
