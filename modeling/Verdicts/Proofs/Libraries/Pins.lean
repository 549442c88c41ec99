import Verdicts.Library.Reference
import Verdicts.Proofs.Lists

/-!
# Pinned versions

Versions are pinned one after the other, each in place of the one before it, so
the last pin of a family counts.  Pinning the entries of overrides, which name
each family once, gives these overrides again.
-/

namespace Verdicts.Overrides

variable {pins : List (Family × Version)} {f : Family} {v : Version}

/-- The version in the last pin of a family. -/
def lastPin? (pins : List (Family × Version)) (f : Family) : Option Version :=
  pins.reverse.lookup f

theorem lastPin?_eq_some_iff : lastPin? pins f = some v ↔
    ∃ before after, pins = before ++ (f, v) :: after ∧
      ∀ pin ∈ after, pin.1 ≠ f := by
  rw [lastPin?, List.lookup_eq_some_iff]
  constructor
  · rintro ⟨after, before, hsplit, hafter⟩
    refine ⟨before.reverse, after.reverse, ?_, fun pin hpin => ?_⟩
    · rw [← List.reverse_reverse pins, hsplit]
      simp
    · have hne := hafter pin (List.mem_reverse.mp hpin)
      exact fun heq => by simp [heq] at hne
  · rintro ⟨before, after, rfl, hafter⟩
    refine ⟨after.reverse, before.reverse, by simp, fun pin hpin => ?_⟩
    have hne := hafter pin (List.mem_reverse.mp hpin)
    simpa using hne.symm

theorem lastPin?_eq_none_iff :
    lastPin? pins f = none ↔ ∀ pin ∈ pins, pin.1 ≠ f := by
  rw [lastPin?, List.lookup_eq_none_iff]
  simp [ne_comm]

theorem isSome_lastPin?_iff :
    (lastPin? pins f).isSome = true ↔ ∃ pin ∈ pins, pin.1 = f := by
  rw [← Option.ne_none_iff_isSome, Ne, lastPin?_eq_none_iff]
  simp

/-- The last pin of a family counts, and without one the version pinned
before. -/
theorem version?_insertAll (o : Overrides) (pins : List (Family × Version))
    (f : Family) : (o.insertAll pins).version? f =
      (lastPin? pins f).or (o.version? f) := by
  induction pins generalizing o with
  | nil => rfl
  | cons pin pins ih =>
      obtain ⟨g, v⟩ := pin
      have hpin : (o.insert g v).version? f =
          ([(g, v)].lookup f).or (o.version? f) := by
        rw [version?_insert, List.lookup_cons]
        by_cases hf : f = g
        · rw [if_pos hf, beq_iff_eq.mpr hf]
          rfl
        · rw [if_neg hf, beq_eq_false_iff_ne.mpr hf]
          rfl
      rw [insertAll, List.foldl_cons, ← insertAll, ih, hpin, lastPin?,
        lastPin?, List.reverse_cons, List.lookup_append, Option.or_assoc]

theorem insertAll_entries (o : Overrides) : empty.insertAll o.entries = o := by
  ext1
  funext f
  rw [version?_insertAll, lastPin?, entries, ← List.filterMap_reverse,
    lookup_filterMap_pair, if_pos (List.mem_reverse.mpr f.mem_all),
    version?_empty, Option.or_none]

end Verdicts.Overrides
