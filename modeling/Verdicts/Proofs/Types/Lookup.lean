import Verdicts.Types.Table

/-!
# Looking up stored shapes

A look-up by name, by built-in type or by structure searches the stored shapes
from the newest to the oldest.  This module says what the search finds, and how
storing one more shape changes the answers.
-/

namespace Verdicts.Table

variable {t u : Table} {h k : Handle} {s : Shape} {p : Shape → Bool}

/-! ## Stored handles -/

theorem shape?_mk_succ (t : Table) (n : Nat) :
    t.shape? ⟨n + 1⟩ = t.shapes[n]? := rfl

/-- The stored handles are numbered from one to the size of the table. -/
theorem knows_iff : t.knows h = true ↔ 0 < h.index ∧ h.index ≤ t.size := by
  rcases h with ⟨_ | n⟩
  · simp [knows, shape?]
  · simp only [knows, shape?_mk_succ, Option.isSome_iff_ne_none, ne_eq,
      Array.getElem?_eq_none_iff, size]
    omega

theorem knows_of_shape? (hs : t.shape? h = some s) : t.knows h = true := by
  simp [knows, hs]

theorem exists_shape?_of_knows (hk : t.knows h = true) :
    ∃ s, t.shape? h = some s :=
  Option.isSome_iff_exists.mp hk

theorem knows_eq_false_iff : t.knows h = false ↔ t.shape? h = none := by
  simp [knows]

theorem mem_handles_of_knows (hk : t.knows h = true) : h ∈ t.handles := by
  obtain ⟨hpos, hle⟩ := knows_iff.mp hk
  rw [handles, List.mem_map]
  obtain ⟨_ | n⟩ := h
  · simp at hpos
  · exact ⟨n, List.mem_range.mpr hle, rfl⟩

theorem definition?_eq_some_iff {d : Definition} :
    t.definition? h = some d ↔ t.shape? h = some (.named d) := by
  unfold definition?
  split
  · next e he => rw [he]; simp
  · next hne =>
      constructor
      · intro hd
        cases hd
      · intro hd
        exact absurd hd (hne d)

/-! ## The search -/

/-- What the search among the first `n` shapes finds. -/
theorem newestBelow?_eq_some {n : Nat} (hh : t.newestBelow? p n = some h) :
    (∃ s, t.shape? h = some s ∧ p s = true) ∧
      ∀ k s, h.index < k.index → k.index ≤ n →
        t.shape? k = some s → p s = false := by
  induction n with
  | zero => simp [newestBelow?] at hh
  | succ n ih =>
      -- Either the shape at place `n` decides, or the search goes on below it.
      have hbelow :
          (∀ s, t.shapes[n]? = some s → p s = false) →
            t.newestBelow? p n = some h →
          (∃ s, t.shape? h = some s ∧ p s = true) ∧
            ∀ k s, h.index < k.index → k.index ≤ n + 1 →
              t.shape? k = some s → p s = false := by
        intro hn hrec
        refine ⟨(ih hrec).1, ?_⟩
        intro k s hlt hle hs
        rcases Nat.lt_or_ge n k.index with hnk | hnk
        · obtain ⟨m⟩ := k
          obtain rfl : m = n + 1 := by
            simp only at hnk hle
            omega
          exact hn s hs
        · exact (ih hrec).2 k s hlt hnk hs
      rw [newestBelow?] at hh
      split at hh
      · next shape hshape =>
          split at hh
          · next hp =>
              obtain rfl := Option.some.inj hh
              refine ⟨⟨shape, hshape, hp⟩, ?_⟩
              intro k s hlt hle _
              simp only at hlt
              omega
          · next hp =>
              apply hbelow _ hh
              intro s hs
              rw [hshape] at hs
              obtain rfl := Option.some.inj hs
              simpa using hp
      · next hnone =>
          apply hbelow _ hh
          intro s hs
          rw [hnone] at hs
          cases hs

theorem newestBelow?_eq_none {n : Nat} (hh : t.newestBelow? p n = none) :
    ∀ k s, k.index ≤ n → t.shape? k = some s → p s = false := by
  induction n with
  | zero =>
      intro k s hk hs
      have := (knows_iff.mp (knows_of_shape? hs)).1
      omega
  | succ n ih =>
      intro k s hk hs
      rw [newestBelow?] at hh
      rcases Nat.lt_or_ge n k.index with hnk | hnk
      · obtain ⟨m⟩ := k
        obtain rfl : m = n + 1 := by
          simp only at hnk hk
          omega
        rw [shape?_mk_succ] at hs
        rw [hs] at hh
        cases hp : p s with
        | false => rfl
        | true => simp [hp] at hh
      · split at hh
        · next shape hshape =>
            split at hh
            · cases hh
            · exact ih hh k s hnk hs
        · exact ih hh k s hnk hs

/-- The search finds a stored shape that satisfies the condition and is newer
than all others that do. -/
theorem newest?_eq_some_iff :
    t.newest? p = some h ↔
      (∃ s, t.shape? h = some s ∧ p s = true) ∧
        ∀ k s, h.index < k.index → t.shape? k = some s → p s = false := by
  constructor
  · intro hh
    obtain ⟨hfound, hnewer⟩ := newestBelow?_eq_some hh
    refine ⟨hfound, ?_⟩
    intro k s hlt hs
    exact hnewer k s hlt (knows_iff.mp (knows_of_shape? hs)).2 hs
  · rintro ⟨⟨s, hs, hp⟩, hnewer⟩
    cases hh : t.newest? p with
    | none =>
        have := newestBelow?_eq_none hh h s
          (knows_iff.mp (knows_of_shape? hs)).2 hs
        simp [this] at hp
    | some k =>
        obtain ⟨⟨s', hs', hp'⟩, hnewer'⟩ := newestBelow?_eq_some hh
        have hle := (knows_iff.mp (knows_of_shape? hs)).2
        rcases Nat.lt_trichotomy h.index k.index with hlt | heq | hgt
        · simp [hnewer k s' hlt hs'] at hp'
        · obtain ⟨i⟩ := h
          obtain ⟨j⟩ := k
          simp only at heq
          rw [heq]
        · simp [hnewer' h s hgt hle hs] at hp

theorem newest?_eq_none_iff :
    t.newest? p = none ↔ ∀ k s, t.shape? k = some s → p s = false := by
  constructor
  · intro hh k s hs
    exact newestBelow?_eq_none hh k s
      (knows_iff.mp (knows_of_shape? hs)).2 hs
  · intro hall
    cases hh : t.newest? p with
    | none => rfl
    | some k =>
        obtain ⟨⟨s, hs, hp⟩, -⟩ := newest?_eq_some_iff.mp hh
        simp [hall k s hs] at hp

theorem shape?_of_newest? (hh : t.newest? p = some h) :
    ∃ s, t.shape? h = some s ∧ p s = true :=
  (newest?_eq_some_iff.mp hh).1

/-- A search sees nothing of a table but its shapes. -/
theorem newest?_congr (hs : ∀ k, t.shape? k = u.shape? k)
    (p : Shape → Bool) : t.newest? p = u.newest? p := by
  apply Option.ext
  intro h
  simp only [newest?_eq_some_iff, hs]

/-- A condition that one stored shape alone satisfies finds that shape. -/
theorem newest?_eq_some_of_unique (hs : t.shape? h = some s)
    (hp : p s = true)
    (honly : ∀ k s', t.shape? k = some s' → p s' = true → k = h) :
    t.newest? p = some h := by
  rw [newest?_eq_some_iff]
  refine ⟨⟨s, hs, hp⟩, ?_⟩
  intro k s' hlt hk
  cases hp' : p s' with
  | false => rfl
  | true =>
      rw [honly k s' hk hp'] at hlt
      omega

/-! ## Particular searches -/

theorem definition?_of_named? {name : String} (hh : t.named? name = some h) :
    ∃ d, t.shape? h = some (.named d) ∧ d.name = name := by
  obtain ⟨s, hs, hp⟩ := shape?_of_newest? hh
  cases s with
  | named d => exact ⟨d, hs, by simpa using hp⟩
  | array | constructed | parameter | other => simp at hp

/-- A type has one name. -/
theorem name_unique_of_named? {name name' : String}
    (hh : t.named? name = some h) (hh' : t.named? name' = some h) :
    name = name' := by
  obtain ⟨d, hd, hname⟩ := definition?_of_named? hh
  obtain ⟨d', hd', hname'⟩ := definition?_of_named? hh'
  cases hd.symm.trans hd'
  exact hname.symm.trans hname'

theorem named?_eq_none_iff {name : String} :
    t.named? name = none ↔
      ∀ k d, t.shape? k = some (.named d) → d.name ≠ name := by
  rw [named?, newest?_eq_none_iff]
  constructor
  · intro hall k d hd
    simpa using hall k (.named d) hd
  · intro hall k s hs
    cases s with
    | named d => simpa using hall k d hs
    | array | constructed | parameter | other => rfl

theorem definition?_of_builtIn? {b : BuiltIn} (hh : t.builtIn? b = some h) :
    ∃ d, t.shape? h = some (.named d) ∧ d.builtIn = some b := by
  obtain ⟨s, hs, hp⟩ := shape?_of_newest? hh
  cases s with
  | named d => exact ⟨d, hs, by simpa using hp⟩
  | array | constructed | parameter | other => simp at hp

theorem knows_of_tag? {b : BuiltIn} (hh : t.tag? h = some b) :
    t.knows h = true := by
  rw [tag?, Option.bind_eq_some_iff] at hh
  obtain ⟨d, hd, -⟩ := hh
  exact knows_of_shape? (definition?_eq_some_iff.mp hd)

/-- The type with exactly the given shape, when it is stored. -/
def stored? (t : Table) (s : Shape) : Option Handle :=
  t.newest? fun s' => s' == s

theorem shape?_of_stored? (hh : t.stored? s = some h) :
    t.shape? h = some s := by
  obtain ⟨s', hs', hp⟩ := shape?_of_newest? hh
  rwa [beq_iff_eq.mp hp] at hs'

theorem stored?_eq_none_iff :
    t.stored? s = none ↔ ∀ k, t.shape? k ≠ some s := by
  rw [stored?, newest?_eq_none_iff]
  constructor
  · intro hall k hk
    simpa using hall k s hk
  · intro hall k s' hk
    rw [beq_eq_false_iff_ne]
    rintro rfl
    exact hall k hk

theorem array?_eq_stored? (t : Table) (element : Handle) :
    t.array? element = t.stored? (.array element) := by
  unfold array? stored?
  congr 1
  funext s
  rw [Bool.eq_iff_iff]
  cases s <;> simp

theorem constructed?_eq_stored? (t : Table) (definition : Handle)
    (arguments : List Handle) :
    t.constructed? definition arguments =
      t.stored? (.constructed definition arguments) := by
  unfold constructed? stored?
  congr 1
  funext s
  rw [Bool.eq_iff_iff]
  cases s <;> simp

/-! ## Storing a shape -/

/-- The handle that the next stored shape gets. -/
def fresh (t : Table) : Handle :=
  ⟨t.size + 1⟩

/-- The table with one more shape. -/
def push (t : Table) (s : Shape) : Table :=
  { t with shapes := t.shapes.push s }

@[simp] theorem store_apply (s : Shape) (t : Table) :
    store s t = (t.fresh, t.push s) := rfl

@[simp] theorem size_push (t : Table) (s : Shape) :
    (t.push s).size = t.size + 1 := by
  simp [push, size]

@[simp] theorem conversions_push (t : Table) (s : Shape) :
    (t.push s).conversions = t.conversions := rfl

theorem knows_fresh (t : Table) : t.knows t.fresh = false := by
  rw [Bool.eq_false_iff, ne_eq, knows_iff, fresh]
  simp only
  omega

theorem ne_fresh_of_knows (hk : t.knows h = true) : h ≠ t.fresh := by
  rintro rfl
  rw [t.knows_fresh] at hk
  cases hk

theorem shape?_push (t : Table) (s : Shape) (h : Handle) :
    (t.push s).shape? h = if h = t.fresh then some s else t.shape? h := by
  rcases h with ⟨_ | n⟩
  · simp [shape?, fresh]
  · simp only [shape?_mk_succ, push, fresh, size, Handle.mk.injEq,
      Nat.add_right_cancel_iff, Array.getElem?_push]

@[simp] theorem shape?_push_fresh (t : Table) (s : Shape) :
    (t.push s).shape? t.fresh = some s := by
  simp [shape?_push]

theorem shape?_push_of_knows (s : Shape) (hk : t.knows h = true) :
    (t.push s).shape? h = t.shape? h := by
  simp [shape?_push, ne_fresh_of_knows hk]

theorem newest?_push (t : Table) (s : Shape) (p : Shape → Bool) :
    (t.push s).newest? p = if p s = true then some t.fresh else t.newest? p := by
  have hbelow : ∀ n ≤ t.size,
      (t.push s).newestBelow? p n = t.newestBelow? p n := by
    intro n
    induction n with
    | zero => intro _; rfl
    | succ n ih =>
        intro hn
        have hsame : (t.push s).shapes[n]? = t.shapes[n]? := by
          have hlt : n < t.shapes.size := hn
          simp [push, Array.getElem?_push, Nat.ne_of_lt hlt]
        rw [newestBelow?, newestBelow?, hsame, ih (by omega)]
  have hlast : (t.push s).shapes[t.size]? = some s := by
    simp [push, size]
  rw [newest?, size_push, newestBelow?, hlast]
  simp only
  rw [hbelow t.size (Nat.le_refl _)]
  rfl

theorem named?_push_of_not_named (name : String)
    (hs : ∀ d, s ≠ .named d) :
    (t.push s).named? name = t.named? name := by
  rw [named?, newest?_push, named?]
  cases s with
  | named d => exact absurd rfl (hs d)
  | array | constructed | parameter | other => simp

theorem builtIn?_push_of_not_named (b : BuiltIn)
    (hs : ∀ d, s ≠ .named d) :
    (t.push s).builtIn? b = t.builtIn? b := by
  rw [builtIn?, newest?_push, builtIn?]
  cases s with
  | named d => exact absurd rfl (hs d)
  | array | constructed | parameter | other => simp

theorem named?_push_named (t : Table) (d : Definition) (name : String) :
    (t.push (.named d)).named? name =
      if d.name = name then some t.fresh else t.named? name := by
  rw [named?, newest?_push, named?]
  simp

theorem builtIn?_push_named (t : Table) (d : Definition) (b : BuiltIn) :
    (t.push (.named d)).builtIn? b =
      if d.builtIn = some b then some t.fresh else t.builtIn? b := by
  rw [builtIn?, newest?_push, builtIn?]
  simp

end Verdicts.Table
