import Verdicts.Proofs.Judgement.Interning

/-!
# What inquiries know by name

Look-ups by qualified name keep their answers.  The handle that an inquiry gives
a library type or a framework type can be read off it without looking anything
up, and no consultation changes it: consulting stores arrays and constructed
types in the table, which have no names, and keeps answers that the table gives
anyway.
-/

namespace Verdicts

namespace Inquiry

/-! ## The handle of a type -/

/-- The handle that an inquiry gives a library type: the one that it keeps, or
else the one that the table has. -/
def systemHandle? (q : Inquiry) (s : SystemType) : Option Handle :=
  (q.capabilities.systemTypes.lookup s).getD
    (q.program.table.named? s.qualifiedName)

/-- The handle that an inquiry gives a framework type of a family. -/
def familyHandle? (q : Inquiry) (f : Family) (w : FrameworkType) :
    Option Handle :=
  if q.capabilities.isActive f then
    (q.capabilities.frameworkTypes.lookup (f, w)).getD
      ((w.qualifiedName? f).bind q.program.table.named?)
  else none

/-- The inquiry knows as much as before: its table has some arrays and
constructed types more, and the types that it knows by name are the same. -/
structure Consulted (q q' : Inquiry) : Prop where
  table : q.program.table.GrowsTo q'.program.table
  references : q'.program.references = q.program.references
  attributes : q'.program.attributes = q.program.attributes
  wiring : q'.program.wiring = q.program.wiring
  active : q'.capabilities.active = q.capabilities.active
  system : ∀ s, q'.systemHandle? s = q.systemHandle? s
  family : ∀ f w, q'.familyHandle? f w = q.familyHandle? f w

theorem Consulted.refl (q : Inquiry) : q.Consulted q :=
  ⟨.refl _, rfl, rfl, rfl, rfl, fun _ => rfl, fun _ _ => rfl⟩

theorem Consulted.trans {q q' q'' : Inquiry} (h : q.Consulted q')
    (h' : q'.Consulted q'') : q.Consulted q'' where
  table := h.table.trans h'.table
  references := h'.references.trans h.references
  attributes := h'.attributes.trans h.attributes
  wiring := h'.wiring.trans h.wiring
  active := h'.active.trans h.active
  system s := (h'.system s).trans (h.system s)
  family f w := (h'.family f w).trans (h.family f w)

/-- A transition that consults the inquiry, and does nothing else to it. -/
def Consults {α : Type} (m : StateM Inquiry α) : Prop :=
  ∀ q : Inquiry, q.Consulted (m q).2

theorem Consults.onTable {α : Type} {m : StateM Table α} (hm : Interns m) :
    Consults (liftM (Program.onTable m)) := by
  intro q
  have hgrows : q.program.table.GrowsTo (m q.program.table).2 := hm _
  refine ⟨hgrows, rfl, rfl, rfl, rfl, fun s => ?_, fun f w => ?_⟩
  · exact congrArg _ (hgrows.named?_eq _)
  · have hnamed : (m q.program.table).2.named? = q.program.table.named? :=
      funext hgrows.named?_eq
    change (if _ then Option.getD _ (Option.bind _ (m q.program.table).2.named?)
      else none) = _
    rw [hnamed]
    rfl

end Inquiry

/-! ## Look-ups -/

namespace Slot

/-- The handle that an inquiry gives the slot. -/
def handle? (q : Inquiry) : Slot → Option Handle
  | .framework f w => q.familyHandle? f w
  | .system s => q.systemHandle? s

/-- The handle of a slot is the answer that it has, or else what the table has
under its name. -/
theorem handle?_eq (x : Slot) (q : Inquiry) :
    x.handle? q =
      (x.settled? q).getD (x.name?.bind q.program.table.named?) := by
  cases x with
  | framework f w =>
      rw [handle?, Inquiry.familyHandle?, settled?, isPresent, kept?, name?]
      split
      · cases q.capabilities.frameworkTypes.lookup (f, w) with
        | some kept => rfl
        | none => cases w.qualifiedName? f <;> rfl
      · rfl
  | system s =>
      rw [handle?, Inquiry.systemHandle?, settled?, isPresent, kept?, name?]
      cases q.capabilities.systemTypes.lookup s <;> rfl

variable {x : Slot} {q q' : Inquiry} {a : Option Handle}

theorem LooksUp.handle? (l : x.LooksUp q a q') (h : x.settled? q = none)
    (y : Slot) : y.handle? q' = y.handle? q := by
  rw [handle?_eq, handle?_eq y q, l.settled, l.program]
  split
  · next hyx =>
      obtain ⟨name, hname, rfl⟩ := l.answer
      rw [hyx, h, hname]
      rfl
  · rfl

/-- Asking a slot answers its handle, which stays. -/
theorem ask_apply (x : Slot) (q : Inquiry) :
    (x.ask q).1 = x.handle? q ∧ q.Consulted (x.ask q).2 := by
  obtain ⟨a, ha, hask⟩ | ⟨hnone, hlooks⟩ := x.ask_cases q
  · rw [hask, handle?_eq, ha]
    exact ⟨rfl, .refl q⟩
  · constructor
    · obtain ⟨name, hname, hanswer⟩ := hlooks.answer
      rw [handle?_eq, hnone, hname, hanswer]
      rfl
    · exact
        { table := x.table_ask q ▸ .refl _
          references := by rw [hlooks.program]
          attributes := by rw [hlooks.program]
          wiring := by rw [hlooks.program]
          active := hlooks.active
          system := fun s => hlooks.handle? hnone (.system s)
          family := fun f w => hlooks.handle? hnone (.framework f w) }

end Slot

namespace Inquiry

/-- A look-up of a library type answers its handle, which stays. -/
theorem systemType_apply (s : SystemType) (q : Inquiry) :
    (systemType s q).1 = q.systemHandle? s ∧
      q.Consulted (systemType s q).2 :=
  (Slot.system s).ask_apply q

/-- A look-up of a framework type of a family answers its handle, which
stays. -/
theorem familyType_apply (f : Family) (w : FrameworkType) (q : Inquiry) :
    (familyType f w q).1 = q.familyHandle? f w ∧
      q.Consulted (familyType f w q).2 :=
  (Slot.framework f w).ask_apply q

/-- Whether a type is one of some library types. -/
theorem anySystemType_apply (h : Handle) (l : List SystemType) (q : Inquiry) :
    (l.anyM (fun s => do return (← systemType s) = some h :
      SystemType → StateM Inquiry Bool) q).1 =
      l.any fun s => q.systemHandle? s = some h := by
  induction l generalizing q with
  | nil => rfl
  | cons s l ih =>
      obtain ⟨hanswer, hconsulted⟩ := systemType_apply s q
      rw [List.anyM_cons, List.any_cons]
      simp only [bind_apply, pure_apply, hanswer]
      cases hs : decide (q.systemHandle? s = some h) with
      | true => rfl
      | false =>
          simp only [Bool.false_or]
          exact (ih _).trans (by simp only [hconsulted.system])

/-- An inquiry that has looked nothing up yet knows what its table names. -/
theorem systemHandle?_resolve (p : Program) (overrides : Overrides)
    (s : SystemType) :
    systemHandle? ⟨p, Capabilities.resolve p.references overrides⟩ s =
      p.table.named? s.qualifiedName := rfl

end Inquiry

end Verdicts
