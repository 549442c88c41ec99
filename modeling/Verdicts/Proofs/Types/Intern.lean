import Verdicts.Proofs.Transition
import Verdicts.Proofs.Types.Lookup

/-!
# Interning a shape

Arrays and constructed types are stored by one and the same step: answer the
handle of the shape if it is stored, and store it if it is not.
-/

namespace Verdicts.Table

variable {t : Table} {h : Handle} {s : Shape}

/-- The handle of a shape, which is stored if it was not. -/
def intern (s : Shape) : StateM Table Handle := do
  match (← get).stored? s with
  | some h => return h
  | none => store s

theorem arrayOf_eq_intern (element : Handle) :
    arrayOf element = intern (.array element) := by
  funext t
  cases hs : t.stored? (.array element) with
  | none => simp [arrayOf, intern, array?_eq_stored?, hs]
  | some h => simp [arrayOf, intern, array?_eq_stored?, hs]

/-- Whether the arguments are the definition's own parameters. -/
def ownsAll (t : Table) (definition : Handle) (arguments : List Handle) : Bool :=
  (t.definition? definition).any (·.parameters == arguments)

theorem ownsAll_iff {definition : Handle} {arguments : List Handle} :
    t.ownsAll definition arguments = true ↔
      ∃ d, t.shape? definition = some (.named d) ∧ d.parameters = arguments := by
  simp only [← definition?_eq_some_iff, ownsAll]
  cases t.definition? definition with
  | none => simp
  | some d => simp

theorem intern_apply_of_none (hs : t.stored? s = none) :
    intern s t = (t.fresh, t.push s) := by
  simp [intern, hs]

theorem intern_apply_of_some (hs : t.stored? s = some h) :
    intern s t = (h, t) := by
  simp [intern, hs]

theorem construct_apply_of_own {definition : Handle} {arguments : List Handle}
    (hown : t.ownsAll definition arguments = true) :
    construct definition arguments t = (definition, t) := by
  change (if t.ownsAll definition arguments = true
    then (pure definition : StateM Table Handle) else _) t = _
  rw [if_pos hown]
  rfl

theorem construct_apply_of_not_own {definition : Handle}
    {arguments : List Handle}
    (hown : ¬t.ownsAll definition arguments = true) :
    construct definition arguments t =
      intern (.constructed definition arguments) t := by
  change (if t.ownsAll definition arguments = true
    then (pure definition : StateM Table Handle)
    else match t.constructed? definition arguments with
      | some h => pure h
      | none => store (.constructed definition arguments)) t = _
  rw [if_neg hown, constructed?_eq_stored?]
  cases hs : t.stored? (.constructed definition arguments) with
  | none =>
      rw [intern_apply_of_none hs]
      rfl
  | some h =>
      rw [intern_apply_of_some hs]
      rfl

/-- After interning a shape its handle has that shape. -/
theorem shape?_intern (s : Shape) (t : Table) :
    (intern s t).2.shape? (intern s t).1 = some s := by
  cases hs : t.stored? s with
  | none =>
      rw [intern_apply_of_none hs]
      exact t.shape?_push_fresh s
  | some h =>
      rw [intern_apply_of_some hs]
      exact shape?_of_stored? hs

theorem intern_eq_or (s : Shape) (t : Table) :
    (intern s t).2 = t ∨
      (∀ k, t.shape? k ≠ some s) ∧ (intern s t).2 = t.push s := by
  cases hs : t.stored? s with
  | none =>
      rw [intern_apply_of_none hs]
      exact .inr ⟨stored?_eq_none_iff.mp hs, rfl⟩
  | some h =>
      rw [intern_apply_of_some hs]
      exact .inl rfl

end Verdicts.Table
