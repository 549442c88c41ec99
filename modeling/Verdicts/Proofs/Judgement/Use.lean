import Verdicts.Proofs.Judgement.Lookups
import Verdicts.Proofs.Judgement.Trails
import Verdicts.Proofs.Types.Reachable

/-!
# Inquiries in use

An inquiry goes on while its host works on the types.  Whatever the host does,
names go on to name what they named, and so the handles that the inquiry keeps
for library types stay those of the table.  What does not stay is an absence: a
library type that was missing when it was looked up may be declared afterwards,
and the inquiry goes on to miss it.
-/

namespace Verdicts

variable {foreign : Handle → Prop}

/-! ## Names that stay -/

namespace Table

variable {t u v : Table}

/-- In the second table the names of the first one name what they named. -/
def KeepsNames (t u : Table) : Prop :=
  ∀ ⦃name h⦄, t.named? name = some h → u.named? name = some h

theorem KeepsNames.of_eq (h : ∀ name, u.named? name = t.named? name) :
    t.KeepsNames u :=
  fun name _ hh => (h name).trans hh

theorem KeepsNames.trans (h : t.KeepsNames u) (h' : u.KeepsNames v) :
    t.KeepsNames v :=
  fun _ _ hh => h' (h hh)

theorem GrowsTo.keepsNames (g : t.GrowsTo u) : t.KeepsNames u :=
  .of_eq g.named?_eq

theorem keepsNames_declare (d : Declaration) (t : Table) :
    t.KeepsNames (declare d t).2 := by
  intro name h hh
  rw [named?_declare]
  split
  · next heq =>
      rw [← heq] at hh
      rw [declare_apply_of_named hh]
  · exact hh

theorem Operation.keepsNames_run (op : Operation) (t : Table) :
    t.KeepsNames (op.run t).2 := by
  cases hq : op.isQuery with
  | true => exact (interns_run hq t).keepsNames
  | false =>
      cases op with
      | declare d => exact keepsNames_declare d t
      | declareUnder b d => exact keepsNames_declare _ t
      | parameter | other =>
          exact .of_eq fun name => named?_push_of_not_named name (by simp)
      | setBase h base =>
          exact .of_eq ((relinks_setBase base).named?_redefined t h)
      | addInterface h interface =>
          exact .of_eq ((relinks_addInterface interface).named?_redefined t h)
      | addConversion source destination implicit =>
          exact .of_eq (named?_addConversion source destination implicit t)
      | named | builtIn | arrayOf | construct | nullableOf | assignable
        | conversion | resolve => cases hq

/-- Whatever a host does to a table, names stay. -/
theorem Run.keepsNames (r : Run foreign t u) : t.KeepsNames u := by
  induction r with
  | refl t => exact .of_eq fun _ => rfl
  | step op _ _ ih => exact (op.keepsNames_run _).trans ih

end Table

/-! ## Inquiries in use -/

namespace Inquiry

variable {q q' : Inquiry}

/-- Names stay while the host works on the program. -/
def HostWork (p p' : Program) : Prop :=
  p.table.KeepsNames p'.table

/-- The inquiry was opened for a program and has been asked since, while the host
worked on the program. -/
def InUse (q : Inquiry) : Prop :=
  ∃ p overrides,
    AsksTo HostWork ⟨p, Capabilities.resolve p.references overrides⟩ q

/-- The handles of library types are those of the table. -/
def Faithful (q : Inquiry) : Prop :=
  ∀ y h, q.systemHandle? y = some h →
    q.program.table.named? y.qualifiedName = some h

theorem inUse_resolve (p : Program) (overrides : Overrides) :
    InUse ⟨p, Capabilities.resolve p.references overrides⟩ :=
  ⟨p, overrides, [], .refl _⟩

theorem InUse.work (hq : q.InUse) {p : Program} (hp : HostWork q.program p) :
    InUse { q with program := p } := by
  obtain ⟨p₀, overrides, l, h⟩ := hq
  exact ⟨p₀, overrides, l ++ [], h.trans (.work hp (.refl _))⟩

/-- An inquiry stays in use whatever its host does to the table. -/
theorem InUse.run (hq : q.InUse) {t : Table}
    (hrun : Table.Run foreign q.program.table t) :
    InUse { q with program := { q.program with table := t } } :=
  hq.work hrun.keepsNames

/-- An inquiry stays in use while it is asked. -/
theorem InUse.asks (hq : q.InUse) {α : Type} {m : StateM Inquiry α}
    (hm : Asks m) : (m q).2.InUse := by
  obtain ⟨p, overrides, l, h⟩ := hq
  obtain ⟨l', h'⟩ := hm q
  refine ⟨p, overrides, l ++ l', h.trans (h'.mono ?_)⟩
  rintro p p' ⟨t, g, rfl⟩
  exact g.keepsNames

theorem Faithful.ask (hq : q.Faithful) (x : Slot) : (x.ask q).2.Faithful := by
  intro y h hh
  rw [(x.ask_apply q).2.system] at hh
  rw [x.table_ask]
  exact hq y h hh

theorem Faithful.work (hq : q.Faithful) {p : Program}
    (hp : HostWork q.program p) : Faithful { q with program := p } := by
  intro y h hh
  rw [systemHandle?] at hh
  cases hkept : q.capabilities.systemTypes.lookup y with
  | none =>
      simp only [hkept] at hh
      exact hh
  | some kept =>
      simp only [hkept, Option.getD_some] at hh
      refine hp (hq y h ?_)
      rw [systemHandle?, hkept]
      exact hh

theorem Faithful.trail {l : List Access} (hq : q.Faithful)
    (h : Trail HostWork q l q') : q'.Faithful := by
  induction h with
  | refl q => exact hq
  | ask x _ ih => exact ih (hq.ask x)
  | work hp _ ih => exact ih (hq.work hp)

theorem InUse.faithful (hq : q.InUse) : q.Faithful := by
  obtain ⟨p, overrides, l, h⟩ := hq
  have hopened : Faithful ⟨p, Capabilities.resolve p.references overrides⟩ :=
    fun _ _ hh => hh
  exact hopened.trail h

/-- A faithful inquiry knows the library types of its table, except where it
keeps that there is none. -/
theorem Faithful.systemHandle?_eq_some_iff (hq : q.Faithful) {y : SystemType}
    {h : Handle} : q.systemHandle? y = some h ↔
      q.program.table.named? y.qualifiedName = some h ∧
        q.capabilities.systemTypes.lookup y ≠ some none := by
  have hfaithful := hq y h
  rw [systemHandle?] at hfaithful ⊢
  cases hkept : q.capabilities.systemTypes.lookup y with
  | none => simp
  | some kept =>
      rw [hkept, Option.getD_some] at hfaithful
      rw [Option.getD_some]
      constructor
      · rintro rfl
        exact ⟨hfaithful rfl, by simp⟩
      · rintro ⟨hnamed, hkeeps⟩
        cases kept with
        | none => exact absurd rfl hkeeps
        | some h' =>
            have hnamed' := hq y h' (by rw [systemHandle?, hkept]; rfl)
            exact hnamed'.symm.trans hnamed

end Inquiry

end Verdicts
