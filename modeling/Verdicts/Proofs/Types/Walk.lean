import Verdicts.Proofs.Transition
import Verdicts.Proofs.Types.WellFormed
import Verdicts.Types.Assignability

/-!
# Steps of the walk

What a definition states about its supertypes, and the first thing that the walk
of assignability looks at.
-/

namespace Verdicts.Table

variable {foreign : Handle → Prop} {t u : Table} {h k s : Handle} {d : Definition}

/-! ## Stated supertypes -/

theorem impliedBase?_congr (hb : ∀ b, u.builtIn? b = t.builtIn? b)
    (kind : Kind) : u.impliedBase? kind = t.impliedBase? kind := by
  cases kind <;> simp only [impliedBase?, hb]

theorem statedSupertypes_congr (hb : ∀ b, u.builtIn? b = t.builtIn? b)
    (s : Handle) (d : Definition) :
    u.statedSupertypes s d = t.statedSupertypes s d := by
  rw [statedSupertypes, statedSupertypes, impliedBase?_congr hb]

theorem mem_statedSupertypes : k ∈ t.statedSupertypes s d ↔
    ((d.base <|> t.impliedBase? d.kind) = some k ∧ k ≠ s) ∨
      k ∈ d.interfaces := by
  rw [statedSupertypes, List.mem_append, Option.mem_toList,
    Option.filter_eq_some_iff, decide_eq_true_iff]

theorem definition_of_impliedBase? {kind : Kind}
    (hk : t.impliedBase? kind = some k) :
    ∃ e, t.shape? k = some (.named e) := by
  have hfound : ∃ b, t.builtIn? b = some k := by
    cases kind <;> first | exact ⟨_, hk⟩ | cases hk
  obtain ⟨b, hb⟩ := hfound
  obtain ⟨e, he, -⟩ := definition?_of_builtIn? hb
  exact ⟨e, he⟩

theorem WellFormed.admits_base (w : t.WellFormed foreign)
    (hd : t.shape? h = some (.named d))
    (hk : (d.base <|> t.impliedBase? d.kind) = some k) : t.Admits foreign k := by
  cases hb : d.base with
  | none =>
      rw [hb] at hk
      obtain ⟨e, he⟩ := definition_of_impliedBase? hk
      exact .inl (knows_of_shape? he)
  | some b =>
      rw [hb] at hk
      obtain rfl := Option.some.inj hk
      exact w.linked hd (by simp [Shape.links, hb])

theorem WellFormed.admits_interface (w : t.WellFormed foreign)
    (hd : t.shape? h = some (.named d))
    (hk : k ∈ d.interfaces) : t.Admits foreign k :=
  w.linked hd (by simp [Shape.links, hk])

/-! ## The walk -/

theorem assignableWithin_self (levels : Nat) (s : Handle) (t : Table) :
    assignableWithin levels s s t = (t.knows s, t) := by
  cases levels with
  | zero => simp [assignableWithin]
  | succ levels => simp [assignableWithin]

theorem assignable_self (hk : t.knows s = true) :
    (assignable s s t).1 = true := by
  rw [assignable, assignableWithin_self]
  exact hk

end Verdicts.Table
