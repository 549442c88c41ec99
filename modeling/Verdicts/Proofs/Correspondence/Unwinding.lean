import Verdicts.Judgement.Reliability
import Verdicts.Judgement.Serializability
import Verdicts.Proofs.Correspondence.Inquiry

/-!
# Unwinding in corresponding programs

In a well-formed table element types are older than their arrays, so the walk
along element types never comes back to an array, however many other types the
table holds.
-/

namespace Verdicts

/-- Walks that end at the same place, up to the linked handles. -/
inductive Landing.Matches (ρ : World) : Landing → Landing → Prop where
  | core {a b : Handle} (h : ρ a b) : Matches ρ (.core a) (.core b)
  | hollow : Matches ρ .hollow .hollow
  | cyclic : Matches ρ .cyclic .cyclic

namespace Program

/-- A walk looks through a type at older ones, and stops at unknown ones. -/
structure Descends (p : Program) (look : Handle → Handle)
    (stops : Handle → Bool) : Prop where
  lower : ∀ {a}, p.table.knows (look a) = true → (look a).index ≤ a.index
  unknown : ∀ {a}, p.table.knows a = false → look a = a
  stops : ∀ {a}, p.table.knows a = false → stops a = true

variable {foreign : Handle → Prop} {ρ : World} {p q : Program} {a b : Handle}
  {look look' : Handle → Handle} {stops stops' : Handle → Bool}

/-- The list holds every known type up to a place. -/
def Covers (p : Program) (fresh : List Handle) (a : Handle) : Prop :=
  ∀ k, p.table.knows k = true → k.index ≤ a.index → k ∈ fresh

theorem covers_handles (p : Program) (a : Handle) :
    p.Covers p.table.handles a :=
  fun _ hk _ => Table.mem_handles_of_knows hk

theorem Covers.erase {fresh : List Handle} {c e : Handle}
    (hc : p.Covers fresh a) (hle : c.index ≤ a.index)
    (hlt : e.index < c.index) : p.Covers (fresh.erase c) e := by
  intro k hk hke
  have hne : k ≠ c := by
    rintro rfl
    omega
  exact (List.mem_erase_of_ne hne).mpr (hc k hk (by omega))

theorem unwindFresh_of_stops {fresh : List Handle}
    (hs : stops (look a) = true) :
    p.unwindFresh look stops fresh a = .core (look a) := by
  rw [unwindFresh]
  simp only [hs, if_true]

theorem unwindFresh_of_continues {fresh : List Handle}
    (hs : stops (look a) = false) (hmem : look a ∈ fresh) :
    p.unwindFresh look stops fresh a =
      match p.element? (look a) with
      | some element =>
        p.unwindFresh look stops (fresh.erase (look a)) element
      | none => .hollow := by
  rw [unwindFresh]
  cases p.element? (look a) with
  | none => simp [hs, hmem]
  | some element => simp [hs, hmem]

theorem element?_of_unwired (hp : p.wiring = []) (h : Handle) :
    p.element? h = p.table.element? h := by
  rw [element?, hp]
  rfl

/-- Two programs that show the same arrays: what a linked handle stands for is
known on both sides or on neither, and linked arrays have linked element
types. -/
structure Parallel (foreign : Handle → Prop) (ρ : World) (p q : Program) :
    Prop where
  left : p.table.WellFormed foreign
  right : q.table.WellFormed foreign
  avoidsLeft : p.table.Avoids foreign
  avoidsRight : q.table.Avoids foreign
  unwiredLeft : p.wiring = []
  unwiredRight : q.wiring = []
  knows_eq : ∀ {a b}, ρ a b → p.table.knows a = q.table.knows b
  elements : ∀ {a b}, ρ a b →
    Option.Rel ρ (p.table.element? a) (q.table.element? b)

section

variable (m : p.Parallel foreign ρ q)
include m

theorem element?_matches (h : ρ a b) :
    Option.Rel ρ (p.element? a) (q.element? b) := by
  rw [element?_of_unwired m.unwiredLeft, element?_of_unwired m.unwiredRight]
  exact m.elements h

theorem unwindFresh_matches (hp : p.Descends look stops) (hq : q.Descends look' stops')
    (hlook : ∀ {a b}, ρ a b → ρ (look a) (look' b))
    (hstops : ∀ {a b}, ρ a b → stops a = stops' b)
    {fresh fresh' : List Handle} (h : ρ a b)
    (hf : p.Covers fresh a) (hf' : q.Covers fresh' b) :
    (p.unwindFresh look stops fresh a).Matches ρ
      (q.unwindFresh look' stops' fresh' b) := by
  induction hn : a.index using Nat.strongRecOn
    generalizing a b fresh fresh' with
  | ind n ih =>
      subst hn
      have hab := hlook h
      cases hs : stops (look a) with
      | true =>
          rw [unwindFresh_of_stops hs,
            unwindFresh_of_stops ((hstops hab).symm.trans hs)]
          exact .core hab
      | false =>
          -- The walk goes on, so it is at a stored type on either side.
          have hk : p.table.knows (look a) = true := by
            rw [← Bool.not_eq_false]
            intro hk
            rw [hp.stops hk] at hs
            cases hs
          have hk' : q.table.knows (look' b) = true := by
            rw [← m.knows_eq hab, hk]
          rw [unwindFresh_of_continues hs (hf _ hk (hp.lower hk)),
            unwindFresh_of_continues ((hstops hab).symm.trans hs)
              (hf' _ hk' (hq.lower hk'))]
          obtain ⟨e, e', he, he', hee⟩ | ⟨he, he'⟩ :=
            World.rel_cases (element?_matches m hab)
          · rw [he, he']
            simp only
            rw [element?_of_unwired m.unwiredLeft, Table.element?] at he
            rw [element?_of_unwired m.unwiredRight, Table.element?] at he'
            split at he
            · next x hx =>
                obtain rfl := Option.some.inj he
                split at he'
                · next y hy =>
                    obtain rfl := Option.some.inj he'
                    have hold := m.left.older hx (List.mem_cons_self ..)
                    have hold' :=
                      m.right.older hy (List.mem_cons_self ..)
                    cases hke : p.table.knows x with
                    | true =>
                        have hke' := (m.knows_eq hee).symm.trans hke
                        have hlt : x.index < (look a).index := by
                          rcases hold with ⟨-, hlt⟩ | hforeign
                          · exact hlt
                          · rw [m.avoidsLeft x hforeign] at hke
                            cases hke
                        have hlt' : y.index < (look' b).index := by
                          rcases hold' with ⟨-, hlt⟩ | hforeign
                          · exact hlt
                          · rw [m.avoidsRight y hforeign] at hke'
                            cases hke'
                        have hle := hp.lower hk
                        exact ih x.index (by omega) hee
                          (hf.erase hle hlt) (hf'.erase (hq.lower hk') hlt')
                          rfl
                    | false =>
                        have hke' := (m.knows_eq hee).symm.trans hke
                        have hx := hp.unknown hke
                        have hy := hq.unknown hke'
                        rw [unwindFresh_of_stops (hx.symm ▸ hp.stops hke),
                          unwindFresh_of_stops (hy.symm ▸ hq.stops hke')]
                        exact .core (hlook hee)
                · cases he'
            · cases he
          · rw [he, he']
            exact .hollow

end

namespace Matches

variable (m : p.Matches foreign ρ q)
include m

theorem parallel : p.Parallel foreign ρ q where
  left := m.table.left
  right := m.table.right
  avoidsLeft := m.table.avoidsLeft
  avoidsRight := m.table.avoidsRight
  unwiredLeft := m.unwiredLeft
  unwiredRight := m.unwiredRight
  knows_eq := m.table.knows_eq
  elements := m.table.element?

theorem element? (h : ρ a b) :
    Option.Rel ρ (p.element? a) (q.element? b) :=
  element?_matches m.parallel h

theorem unwind (hp : p.Descends look stops) (hq : q.Descends look' stops')
    (hlook : ∀ {a b}, ρ a b → ρ (look a) (look' b))
    (hstops : ∀ {a b}, ρ a b → stops a = stops' b) (h : ρ a b) :
    (p.unwind look stops a).Matches ρ (q.unwind look' stops' b) :=
  unwindFresh_matches m.parallel hp hq hlook hstops h
    (p.covers_handles a) (q.covers_handles b)

end Matches

/-! ## The walks of the verdicts -/

theorem kind_of_knows_eq_false (hk : p.table.knows a = false) :
    p.table.kind a = .unknown :=
  Table.kind_of_unknown (Table.knows_eq_false_iff.mp hk)

theorem descends_innermost (w : p.table.WellFormed foreign)
    (ha : p.table.Avoids foreign) :
    p.Descends p.throughNullable fun h => p.table.kind h ≠ .array where
  lower {a} hk := by
    rw [throughNullable, Table.nullableUnderlying?] at hk ⊢
    split
    · next definition arguments hs =>
        simp only [hs] at hk
        split
        · next htag =>
            rw [if_pos htag] at hk
            cases arguments with
            | nil => exact Nat.le_refl _
            | cons first rest =>
                rw [List.head?_cons, Option.getD_some] at hk ⊢
                have hmem : first ∈
                    (Shape.constructed definition (first :: rest)).parts := by
                  simp [Shape.parts]
                rcases w.older hs hmem with ⟨-, hlt⟩ | hforeign
                · omega
                · rw [ha first hforeign] at hk
                  cases hk
        · exact Nat.le_refl _
    · exact Nat.le_refl _
  unknown {a} hk := by
    rw [throughNullable, Table.nullableUnderlying?,
      Table.knows_eq_false_iff.mp hk]
    rfl
  stops hk := by
    rw [kind_of_knows_eq_false hk]
    rfl

theorem descends_stripped (p : Program) :
    p.Descends id fun h => p.table.isUnreliable h || p.table.kind h ≠ .array where
  lower _ := Nat.le_refl _
  unknown _ := rfl
  stops hk := by
    rw [kind_of_knows_eq_false hk, Bool.or_eq_true]
    exact .inr rfl

namespace Matches

variable (m : p.Matches foreign ρ q)
include m

theorem throughNullable (h : ρ a b) :
    ρ (p.throughNullable a) (q.throughNullable b) :=
  m.table.plain h

theorem innermost (h : ρ a b) :
    (p.innermost a).Matches ρ (q.innermost b) := by
  refine m.unwind
    (descends_innermost m.table.left m.table.avoidsLeft)
    (descends_innermost m.table.right m.table.avoidsRight)
    m.throughNullable ?_ h
  intro x y hxy
  rw [m.table.kind_eq hxy]

theorem isUnreliable_eq (h : ρ a b) :
    p.table.isUnreliable a = q.table.isUnreliable b := by
  rw [Table.isUnreliable, Table.isUnreliable, m.table.kind_eq h,
    m.table.tag?_eq h]

theorem stripped (h : ρ a b) : (p.stripped a).Matches ρ (q.stripped b) := by
  refine m.unwind p.descends_stripped q.descends_stripped id ?_ h
  intro x y hxy
  rw [m.isUnreliable_eq hxy, m.table.kind_eq hxy]

theorem doubtWithin?_eq (levels : Nat) (h : ρ a b) :
    p.doubtWithin? levels a = q.doubtWithin? levels b := by
  induction levels generalizing a b with
  | zero => rfl
  | succ levels ih =>
      rw [doubtWithin?, doubtWithin?]
      have hlanding := m.stripped h
      revert hlanding
      generalize p.stripped a = x
      generalize q.stripped b = y
      rintro (@⟨c, d, hcd⟩ | _ | _)
      · simp only [m.isUnreliable_eq hcd]
        have hall : ∀ {as bs : List Handle}, List.Forall₂ ρ as bs →
            as.findSome? (p.doubtWithin? levels) =
              bs.findSome? (q.doubtWithin? levels) := by
          intro as bs has
          induction has with
          | nil => rfl
          | cons hab _ ih' =>
              rw [List.findSome?_cons, List.findSome?_cons, ih hab, ih']
        rw [hall (m.table.arguments hcd)]
      · rfl
      · rfl

theorem ignores_eq (h : ρ a b) : p.ignores a = q.ignores b := by
  rw [ignores, ignores, doubt?, doubt?, m.doubtWithin?_eq _ h]

end Matches

end Program

end Verdicts
