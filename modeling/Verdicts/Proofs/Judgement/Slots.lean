import Verdicts.Capability.Capabilities
import Verdicts.Proofs.Transition

/-!
# Where answers to look-ups are kept

An inquiry has a slot for each framework type of each active family and one for
each library type.  A slot looks its name up in the program when it is asked for
the first time, and keeps the answer.  Slots without a name, and those of other
families, answer that there is no type without looking anything up.
-/

namespace Verdicts

theorem Capabilities.isActive_congr {c c' : Capabilities}
    (h : c'.active = c.active) : c'.isActive = c.isActive := by
  funext f
  rw [isActive, isActive, version?_congr h]

/-- A place for the answer to a look-up by name. -/
inductive Slot where
  | framework (f : Family) (w : FrameworkType)
  | system (s : SystemType)
  deriving DecidableEq

namespace Slot

/-- The name that the slot looks up. -/
def name? : Slot → Option String
  | .framework f w => w.qualifiedName? f
  | .system s => some s.qualifiedName

/-- Whether an inquiry has the slot. -/
def isPresent (q : Inquiry) : Slot → Bool
  | .framework f _ => q.capabilities.isActive f
  | .system _ => true

/-- Ask the slot for its handle. -/
def ask : Slot → StateM Inquiry (Option Handle)
  | .framework f w => Inquiry.familyType f w
  | .system s => Inquiry.systemType s

/-- The answer that an inquiry has kept for the slot. -/
def kept? (q : Inquiry) : Slot → Option (Option Handle)
  | .framework f w => q.capabilities.frameworkTypes.lookup (f, w)
  | .system s => q.capabilities.systemTypes.lookup s

/-- The answer that the slot gives without a look-up: the one that it keeps, or
that there is no type when there is nothing to look up. -/
def settled? (x : Slot) (q : Inquiry) : Option (Option Handle) :=
  if x.isPresent q then
    match x.kept? q with
    | some kept => some kept
    | none => if x.name?.isSome then none else some none
  else
    some none

/-- The slot looks its name up, which the program counts, and keeps the
answer. -/
structure LooksUp (x : Slot) (q : Inquiry) (a : Option Handle) (q' : Inquiry) :
    Prop where
  present : x.isPresent q = true
  answer : ∃ name, x.name? = some name ∧ a = q.program.table.named? name
  program : q'.program = { q.program with lookups := q.program.lookups + 1 }
  active : q'.capabilities.active = q.capabilities.active
  kept : ∀ y : Slot, y.kept? q' = if y = x then some a else y.kept? q

variable {x y : Slot} {q q' : Inquiry} {a : Option Handle}

theorem isPresent_congr (h : q'.capabilities.active = q.capabilities.active)
    (x : Slot) : x.isPresent q' = x.isPresent q := by
  cases x with
  | framework f w => exact congrFun (Capabilities.isActive_congr h) f
  | system s => rfl

theorem settled?_of_absent (hp : x.isPresent q = false) :
    x.settled? q = some none := by
  rw [settled?, hp]
  rfl

theorem settled?_of_kept (hp : x.isPresent q = true)
    (hk : x.kept? q = some a) : x.settled? q = some a := by
  rw [settled?, if_pos hp, hk]

theorem settled?_of_unnamed (hp : x.isPresent q = true)
    (hk : x.kept? q = none) (hn : x.name? = none) :
    x.settled? q = some none := by
  rw [settled?, if_pos hp, hk, hn]
  rfl

theorem settled?_of_named {name : String} (hp : x.isPresent q = true)
    (hk : x.kept? q = none) (hn : x.name? = some name) :
    x.settled? q = none := by
  rw [settled?, if_pos hp, hk, hn]
  rfl

/-! ## Asking a slot -/

theorem ask_framework_of_isActive {f : Family} (w : FrameworkType)
    (hactive : q.capabilities.isActive f = true) :
    ask (.framework f w) q =
      (match q.capabilities.frameworkTypes.lookup (f, w) with
      | some kept => return kept
      | none =>
        match w.qualifiedName? f with
        | some name => do
          let h ← Program.resolve name
          Inquiry.keepFrameworkType f w h
          return h
        | none => return none : StateM Inquiry (Option Handle)) q := by
  change (if _ then _ else _ : StateM Inquiry (Option Handle)) q = _
  exact congrFun (if_pos hactive) q

theorem kept?_keepFrameworkType (f : Family) (w : FrameworkType)
    (h : Option Handle) (q : Inquiry) (y : Slot) :
    y.kept? (Inquiry.keepFrameworkType f w h q).2 =
      if y = .framework f w then some h else y.kept? q := by
  cases y with
  | framework g v =>
      change List.lookup (g, v) (((f, w), h) :: q.capabilities.frameworkTypes) = _
      rw [List.lookup_cons]
      by_cases heq : (g, v) = (f, w)
      · cases heq
        rw [beq_self_eq_true, if_pos rfl]
      · rw [beq_false_of_ne heq, if_neg fun hslot => heq (by cases hslot; rfl)]
        rfl
  | system s => rfl

theorem kept?_keepSystemType (s : SystemType) (h : Option Handle) (q : Inquiry)
    (y : Slot) : y.kept? (Inquiry.keepSystemType s h q).2 =
      if y = .system s then some h else y.kept? q := by
  cases y with
  | framework f w => rfl
  | system s' =>
      change List.lookup s' ((s, h) :: q.capabilities.systemTypes) = _
      rw [List.lookup_cons]
      by_cases heq : s' = s
      · rw [heq, beq_self_eq_true, if_pos rfl]
      · rw [beq_false_of_ne heq, if_neg fun hslot => heq (by cases hslot; rfl)]
        rfl

/-- A slot that has its answer gives it, and any other looks its name up. -/
theorem ask_cases (x : Slot) (q : Inquiry) :
    (∃ a, x.settled? q = some a ∧ x.ask q = (a, q)) ∨
      x.settled? q = none ∧ x.LooksUp q (x.ask q).1 (x.ask q).2 := by
  cases x with
  | framework f w =>
      cases hactive : q.capabilities.isActive f with
      | false =>
          refine .inl ⟨none, settled?_of_absent hactive, ?_⟩
          simp [ask, Inquiry.familyType, bind_apply, hactive]
      | true =>
      rw [ask_framework_of_isActive w hactive]
      cases hkept : q.capabilities.frameworkTypes.lookup (f, w) with
      | some kept => exact .inl ⟨kept, settled?_of_kept hactive hkept, rfl⟩
      | none =>
      cases hname : w.qualifiedName? f with
      | none =>
          exact .inl ⟨none, settled?_of_unnamed hactive hkept hname, rfl⟩
      | some name =>
          exact .inr ⟨settled?_of_named hactive hkept hname, hactive,
            ⟨name, hname, rfl⟩, rfl, rfl, kept?_keepFrameworkType f w _ _⟩
  | system s =>
      rw [ask, Inquiry.systemType, bind_apply, get_apply]
      dsimp only
      cases hkept : q.capabilities.systemTypes.lookup s with
      | some kept => exact .inl ⟨kept, settled?_of_kept rfl hkept, rfl⟩
      | none =>
          exact .inr ⟨settled?_of_named rfl hkept rfl, rfl,
            ⟨s.qualifiedName, rfl, rfl⟩, rfl, rfl, kept?_keepSystemType s _ _⟩

/-- Asking a slot stores no types. -/
theorem table_ask (x : Slot) (q : Inquiry) :
    (x.ask q).2.program.table = q.program.table := by
  obtain ⟨a, -, hask⟩ | ⟨-, hlooks⟩ := x.ask_cases q
  · rw [hask]
  · rw [hlooks.program]

theorem active_ask (x : Slot) (q : Inquiry) :
    (x.ask q).2.capabilities.active = q.capabilities.active := by
  obtain ⟨a, -, hask⟩ | ⟨-, hlooks⟩ := x.ask_cases q
  · rw [hask]
  · exact hlooks.active

/-! ## What asking a slot settles -/

theorem LooksUp.settled (l : x.LooksUp q a q') (y : Slot) :
    y.settled? q' = if y = x then some a else y.settled? q := by
  by_cases hyx : y = x
  · subst hyx
    rw [if_pos rfl]
    exact settled?_of_kept ((isPresent_congr l.active y).trans l.present)
      ((l.kept y).trans (if_pos rfl))
  · rw [if_neg hyx, settled?, settled?, isPresent_congr l.active, l.kept,
      if_neg hyx]

theorem ask_of_settled (h : x.settled? q = some a) : x.ask q = (a, q) := by
  obtain ⟨b, hb, hask⟩ | ⟨hnone, -⟩ := x.ask_cases q
  · rw [h] at hb
    cases hb
    exact hask
  · rw [h] at hnone
    cases hnone

/-- A slot that was asked has its answer. -/
theorem settled?_ask (x : Slot) (q : Inquiry) :
    x.settled? (x.ask q).2 = some (x.ask q).1 := by
  obtain ⟨a, ha, hask⟩ | ⟨-, hlooks⟩ := x.ask_cases q
  · rw [hask, ha]
  · rw [hlooks.settled, if_pos rfl]

/-- Other slots that have their answers keep them. -/
theorem settled?_ask_of_settled (x : Slot) (h : y.settled? q = some a) :
    y.settled? (x.ask q).2 = some a := by
  obtain ⟨b, -, hask⟩ | ⟨hnone, hlooks⟩ := x.ask_cases q
  · rw [hask, h]
  · have hne : y ≠ x := by
      rintro rfl
      rw [h] at hnone
      cases hnone
    rw [hlooks.settled, if_neg hne, h]

end Slot

end Verdicts
