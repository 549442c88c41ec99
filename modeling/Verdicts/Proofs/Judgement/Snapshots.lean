import Verdicts.Proofs.Judgement.Classification
import Verdicts.Proofs.Judgement.Use
import Verdicts.Proofs.Subtyping.Derivation

/-!
# Types that the table never gave out

The handles that an inquiry in use keeps for library types are those of the
table, so nothing binds to a type that the table never gave out.  Such a type
itself binds where nothing is asked of it: to a type parameter without demands,
and to arrays of one.
-/

namespace Verdicts

namespace Table

variable {t : Table} {u a : Handle} {c : Constraints}

theorem assignable_of_unknown (hu : t.knows u = false) (a : Handle) :
    (assignable u a t).1 = false := by
  rw [← Bool.not_eq_true]
  intro h
  have hk := (knows_of_assignable h).1
  rw [hu] at hk
  cases hk

theorem satisfies_of_unknown (hu : t.knows u = false) :
    (satisfies u c t).1 = true ↔ c.isTrivial = true := by
  have hshape := knows_eq_false_iff.mp hu
  have hvalue : t.isValueType u = false := by
    rw [isValueType, hshape, kind_of_unknown hshape]
  have hreference : t.isReferenceType u = false := by
    rw [isReferenceType, hshape]
  rw [satisfies, bind_apply, get_apply, Constraints.isTrivial]
  dsimp only
  rw [hvalue, hreference]
  cases c.valueType with
  | true => exact iff_of_false Bool.false_ne_true (by simp)
  | false =>
  cases c.referenceType with
  | true => exact iff_of_false Bool.false_ne_true (by simp)
  | false =>
  cases htypes : c.types with
  | nil => exact iff_of_true rfl rfl
  | cons bound types =>
      refine iff_of_false ?_ (by simp)
      change ¬ ((bound :: types).allM (fun b => assignable u b) t).1 = true
      rw [List.allM_cons, bind_apply, assignable_of_unknown hu]
      exact Bool.false_ne_true

end Table

namespace Inquiry

variable {q : Inquiry} {u x : Handle}

theorem unboundParameter?_eq_some_iff {p : Program} {parameter : Handle} :
    p.unboundParameter? x = some parameter ↔
      p.table.kind parameter = .typeParameter ∧
        (x = parameter ∨
          p.table.kind x = .array ∧ p.element? x = some parameter) := by
  rw [Program.unboundParameter?]
  split
  · next hx =>
      rw [Option.some.injEq]
      constructor
      · rintro rfl
        exact ⟨hx, .inl rfl⟩
      · rintro ⟨-, h | ⟨harray, -⟩⟩
        · exact h
        · cases hx.symm.trans harray
  · next hx =>
      rw [Option.filter_eq_some_iff, decide_eq_true_iff, and_comm]
      refine and_congr_right fun hparameter => ?_
      constructor
      · exact fun h => .inr ⟨hx, h⟩
      · rintro (rfl | ⟨-, h⟩)
        · cases hx.symm.trans hparameter
        · exact h
  · next hparameter harray =>
      refine iff_of_false (by simp) ?_
      rintro ⟨hk, rfl | ⟨hx, -⟩⟩
      · exact hparameter hk
      · exact harray hx

theorem unboundParameter?_of_unknown {p : Program}
    (hu : p.table.knows u = false) : p.unboundParameter? u = none := by
  rw [Program.unboundParameter?,
    Table.kind_of_unknown (Table.knows_eq_false_iff.mp hu)]

theorem Faithful.takesStringsOnly_of_unknown (hq : q.Faithful)
    (hu : q.program.table.knows u = false) :
    (takesStringsOnly u q).1 = false := by
  have hfresh : ∀ y, q.systemHandle? y ≠ some u := by
    intro y hy
    rw [Table.knows_of_named? (hq y u hy)] at hu
    cases hu
  have htag : q.program.table.tag? u = none := by
    rw [Table.tag?, Table.definition?, Table.knows_eq_false_iff.mp hu]
    rfl
  rw [← Bool.not_eq_true, takesStringsOnly_iff, ConvertsStringsTo, htag]
  simp [hfresh]

/-- Nothing binds to a type that the table never gave out, and such a type binds
to a type parameter that demands nothing and to arrays of one, and nowhere
else. -/
theorem convertible_unknown (hq : q.InUse)
    (hu : q.program.table.knows u = false) (x : Handle) :
    (convertible x u q).1 = false ∧
      ((convertible u x q).1 = true ↔
        ∃ parameter, (q.program.table.kind parameter = .typeParameter ∧
          (x = parameter ∨ q.program.table.kind x = .array ∧
            q.program.element? x = some parameter)) ∧
          ((q.program.table.constraints? parameter).getD
            Constraints.none).isTrivial = true) := by
  simp only [← unboundParameter?_eq_some_iff]
  have hkind := Table.kind_of_unknown (Table.knows_eq_false_iff.mp hu)
  constructor
  · rw [convertible_apply_of_bound x (unboundParameter?_of_unknown hu)]
    dsimp only
    rw [Table.conversion_of_unknown (.inr hkind),
      hq.faithful.takesStringsOnly_of_unknown hu]
    rfl
  cases hbound : q.program.unboundParameter? x with
  | some parameter =>
      rw [convertible, bind_apply, get_apply]
      dsimp only
      rw [hbound]
      refine (Table.satisfies_of_unknown hu).trans ?_
      simp
  | none =>
      have htag : q.program.table.tag? u = none := by
        rw [Table.tag?, Table.definition?, Table.knows_eq_false_iff.mp hu]
        rfl
      rw [convertible_apply_of_bound u hbound]
      dsimp only
      rw [Table.conversion_of_unknown (.inl hkind), htag]
      simp

/-- Of two type parameters, the one that demands a value type does not take an
unknown type, and the other one does. -/
theorem convertible_unknown_parameters :
    let plain : Shape := .parameter "T" Constraints.none
    let value : Shape :=
      .parameter "S" { Constraints.none with valueType := true }
    let q : Inquiry := ⟨Program.ofTable ⟨#[plain, value], []⟩,
      Capabilities.resolve [] Overrides.empty⟩
    (convertible ⟨1⟩ ⟨9⟩ q).1 = false ∧ (convertible ⟨9⟩ ⟨1⟩ q).1 = true ∧
      (convertible ⟨9⟩ ⟨2⟩ q).1 = false := by
  intro plain value q
  have hfacts : q.program.table.knows ⟨9⟩ = false ∧
      q.program.table.kind ⟨1⟩ = .typeParameter ∧
      q.program.table.kind ⟨2⟩ = .typeParameter ∧
      q.program.table.constraints? ⟨1⟩ = some Constraints.none ∧
      q.program.table.constraints? ⟨2⟩ =
        some { Constraints.none with valueType := true } := by
    decide +kernel
  obtain ⟨hunknown, hplain, hvalue, hnone, hdemands⟩ := hfacts
  have hq : q.InUse := inUse_resolve (Program.ofTable ⟨#[plain, value], []⟩) _
  refine ⟨(convertible_unknown hq hunknown ⟨1⟩).1, ?_, ?_⟩
  · refine (convertible_unknown hq hunknown ⟨1⟩).2.mpr ⟨⟨1⟩, ⟨hplain, .inl rfl⟩, ?_⟩
    rw [hnone]
    rfl
  · rw [← Bool.not_eq_true, (convertible_unknown hq hunknown ⟨2⟩).2]
    rintro ⟨parameter, ⟨-, rfl | ⟨harray, -⟩⟩, htrivial⟩
    · rw [hdemands] at htrivial
      cases htrivial
    · cases hvalue.symm.trans harray

end Inquiry

end Verdicts
