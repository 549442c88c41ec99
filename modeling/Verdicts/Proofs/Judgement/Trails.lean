import Verdicts.Judgement.Serializability
import Verdicts.Proofs.Judgement.Slots
import Verdicts.Proofs.Types.Interning

/-!
# What verdicts do to an inquiry

A verdict asks slots for handles and asks the table about types, one after the
other.  The trail of a verdict lists the accesses to the slots; between them the
table stores arrays and constructed types at most.  Whatever is true along
every trail is therefore true of every verdict.
-/

namespace Verdicts

/-! ## Trails -/

/-- One access to a slot, with the answer and the look-ups that it took. -/
structure Access where
  slot : Slot
  answer : Option Handle
  lookups : Nat

/-- The access by which an inquiry asks a slot. -/
def Slot.access (x : Slot) (q : Inquiry) : Access :=
  ⟨x, (x.ask q).1, (x.ask q).2.program.lookups - q.program.lookups⟩

/-- Asking slots leads from the first inquiry to the second, with work on the
program between the accesses. -/
inductive Trail (W : Program → Program → Prop) :
    Inquiry → List Access → Inquiry → Prop where
  | refl (q : Inquiry) : Trail W q [] q
  | ask {q q' : Inquiry} {l : List Access} (x : Slot)
      (rest : Trail W (x.ask q).2 l q') : Trail W q (x.access q :: l) q'
  | work {q q' : Inquiry} {l : List Access} {p : Program}
      (h : W q.program p) (rest : Trail W { q with program := p } l q') :
      Trail W q l q'

namespace Trail

variable {W W' : Program → Program → Prop} {q q' q'' : Inquiry}
  {l l' : List Access}

theorem trans (h : Trail W q l q') (h' : Trail W q' l' q'') :
    Trail W q (l ++ l') q'' := by
  induction h with
  | refl q => exact h'
  | ask x _ ih => exact .ask x (ih h')
  | work hp _ ih => exact .work hp (ih h')

theorem mono (hW : ∀ {p p'}, W p p' → W' p p') (h : Trail W q l q') :
    Trail W' q l q' := by
  induction h with
  | refl q => exact .refl q
  | ask x _ ih => exact .ask x ih
  | work hp _ ih => exact .work (hW hp) ih

end Trail

/-! ## Asking -/

namespace Inquiry

/-- The program stores arrays and constructed types at most. -/
def Stores (p p' : Program) : Prop :=
  ∃ t, p.table.GrowsTo t ∧ p' = { p with table := t }

/-- Asking slots leads from the first inquiry to the second, with work between
the accesses. -/
def AsksTo (W : Program → Program → Prop) (q q' : Inquiry) : Prop :=
  ∃ l, Trail W q l q'

instance {W : Program → Program → Prop} : IsPreorder Inquiry (AsksTo W) where
  refl q := ⟨[], .refl q⟩
  trans _ _ _ := fun ⟨l, h⟩ ⟨l', h'⟩ => ⟨l ++ l', h.trans h'⟩

/-- The transition does nothing but ask slots and store types. -/
abbrev Asks {α : Type} (m : StateM Inquiry α) : Prop :=
  Leads (AsksTo Stores) m

variable {α : Type}

theorem asks_slot (x : Slot) : Asks x.ask :=
  fun q => ⟨[x.access q], .ask x (.refl _)⟩

theorem asks_onTable {m : StateM Table α} (hm : Interns m) :
    Asks (liftM (Program.onTable m)) :=
  fun q => ⟨[], .work ⟨_, hm q.program.table, rfl⟩ (.refl _)⟩

theorem AsksTo.growsTo {q q' : Inquiry} (h : AsksTo Stores q q') :
    q.program.table.GrowsTo q'.program.table := by
  obtain ⟨l, h⟩ := h
  induction h with
  | refl q => exact .refl _
  | @ask q _ _ x _ ih => rwa [x.table_ask q] at ih
  | work hp _ ih =>
      obtain ⟨t, hgrows, rfl⟩ := hp
      exact hgrows.trans ih

theorem Asks.interns {m : StateM Inquiry α} (hm : Asks m) : Interns m :=
  fun q => (hm q).growsTo

/-! ## Verdicts -/

theorem asks_frameworkType (w : FrameworkType) : Asks (frameworkType w) :=
  Leads.findSomeM? (fun f => asks_slot (.framework f w)) _

theorem asks_composedType (w : FrameworkType) : Asks (composedType w) := by
  apply Leads.get_bind
  intro q
  split
  · next f _ => exact asks_slot (.framework f w)
  · exact .of_pure none

/-- Whether a type is one of some library types. -/
theorem asks_anySystemType (h : Handle) (l : List SystemType) :
    Asks (l.anyM fun s => do return (← systemType s) = some h) :=
  Leads.anyM (fun s => Leads.bind (asks_slot (.system s)) fun _ =>
    .of_pure _) l

theorem asks_takesStringsOnly (h : Handle) : Asks (takesStringsOnly h) := by
  apply Leads.get_bind
  intro q
  exact .ite (.of_pure _) (.ite (asks_anySystemType h _) (.of_pure _))

theorem asks_convertible (source destination : Handle) :
    Asks (convertible source destination) := by
  apply Leads.get_bind
  intro q
  dsimp only
  split
  · exact asks_onTable (Table.interns_satisfies source _)
  · apply (asks_onTable (Table.interns_conversion source destination)).bind
    intro c
    refine Leads.ite (.of_pure _) ?_
    apply (asks_takesStringsOnly destination).bind
    intro b
    exact .ite (.of_pure _) (.of_pure _)

theorem asks_registeredTypes : Asks registeredTypes := by
  apply (asks_frameworkType _).bind
  rintro (_ | registration)
  · exact .of_pure []
  · apply Leads.get_bind
    intro q
    refine Leads.bind (Leads.filterM (fun a => ?_) _) fun _ => .of_pure _
    exact asks_onTable
      (Table.interns_assignable a.attributeClass registration)

theorem asks_classifier : Asks classifier :=
  (Leads.filterMapM asks_frameworkType _).bind fun _ =>
    asks_registeredTypes.bind fun _ => .of_pure _

theorem asks_isTraitDictionary (h : Handle) : Asks (isTraitDictionary h) := by
  apply Leads.bind (asks_slot (.system .dictionary))
  intro dictionary
  apply Leads.bind (asks_slot (.system .list))
  intro list
  apply Leads.get_bind
  intro q
  dsimp only
  split
  · exact .of_pure _
  · exact .of_pure _

theorem asks_isAssignableToAny (h : Handle) (targets : List Handle) :
    Asks (isAssignableToAny h targets) :=
  Leads.anyM (fun target => asks_onTable (Table.interns_assignable h target)) _

theorem asks_classifyCore (c : Classifier) (h : Handle) :
    Asks (classifyCore c h) := by
  apply (asks_isAssignableToAny h c.markers).bind
  intro marked
  refine Leads.ite (.of_pure _) ?_
  apply (asks_isTraitDictionary h).bind
  intro traits
  refine Leads.ite (.of_pure _) ?_
  apply Leads.get_bind
  intro q
  dsimp only
  split
  · exact .of_pure _
  · apply Leads.bind (asks_anySystemType h _)
    intro durable
    refine Leads.ite (.of_pure _) ?_
    apply (asks_isAssignableToAny h c.registered).bind
    intro registered
    exact .ite (.of_pure _) (.of_pure _)

theorem asks_classify (c : Classifier) (h : Handle) : Asks (classify c h) := by
  apply Leads.get_bind
  intro q
  dsimp only
  split
  · exact .ite (asks_classifyCore c _) (.of_pure _)
  · exact .of_pure _
  · exact .of_pure _

end Inquiry

end Verdicts
