import Verdicts.Proofs.Correspondence.Query
import Verdicts.Proofs.Types.Reachable

/-!
# Asking questions changes no answers

Questions store types: following the supertypes of constructed types, and
resolving expressions, intern arrays and constructed types.  Whatever has been
interned, though, every later question about the types of before has the answer
that it would have had without.
-/

namespace Verdicts

/-! ## Interning work -/

/-- Interning work leads from the first program to the second. -/
inductive Work (foreign : Handle → Prop) : Program → Program → Prop where
  | refl (p : Program) : Work foreign p p
  | step {p q : Program} (op : Table.Operation) (hq : op.isQuery = true)
      (hop : op.Permitted foreign p.table)
      (rest : Work foreign (Program.onTable op.run p).2 q) : Work foreign p q

/-- Nothing about the types of the first program differs in the second. -/
structure Program.Untouched (p q : Program) : Prop where
  shape : ∀ {h}, p.table.knows h = true → q.table.shape? h = p.table.shape? h
  named : ∀ name, q.table.named? name = p.table.named? name
  builtIn : ∀ b, q.table.builtIn? b = p.table.builtIn? b
  conversions : ∀ a b, q.table.conversion? a b = p.table.conversion? a b
  references : q.references = p.references
  attributes : q.attributes = p.attributes

/-- An inquiry whose program a host has built, and all of whose handles are
the program's or foreign. -/
structure Inquiry.Reachable (foreign : Handle → Prop) (q : Inquiry) : Prop where
  table : q.program.table.Reachable foreign
  unwired : q.program.wiring = []
  attributes : ∀ a ∈ q.program.attributes,
    ∀ h ∈ a.attributeClass :: a.arguments, q.program.table.Admits foreign h
  frameworkTypes : ∀ e ∈ q.capabilities.frameworkTypes, ∀ h ∈ e.2,
    q.program.table.Admits foreign h
  systemTypes : ∀ e ∈ q.capabilities.systemTypes, ∀ h ∈ e.2,
    q.program.table.Admits foreign h

/-- The inquiry about another program. -/
def Inquiry.about (q : Inquiry) (p : Program) : Inquiry :=
  { q with program := p }

/-- The inquiry about the types of a table, before any look-up. -/
def Inquiry.ofTable (t : Table) : Inquiry :=
  ⟨Program.ofTable t, Capabilities.empty⟩

variable {foreign : Handle → Prop} {p p' : Program}

theorem Inquiry.table_ofTable (t : Table) :
    (Inquiry.ofTable t).program.table = t := rfl

theorem Inquiry.reachable_ofTable {t : Table} (ht : t.Reachable foreign) :
    (Inquiry.ofTable t).Reachable foreign where
  table := ht
  unwired := rfl
  attributes a ha := by cases ha
  frameworkTypes e he := by cases he
  systemTypes e he := by cases he

namespace Work

theorem single {op : Table.Operation} (hq : op.isQuery = true)
    (hop : op.Permitted foreign p.table) :
    Work foreign p (Program.onTable op.run p).2 :=
  .step op hq hop (.refl _)

theorem trans {p'' : Program} (r : Work foreign p p')
    (r' : Work foreign p' p'') : Work foreign p p'' := by
  induction r with
  | refl p => exact r'
  | step op hq hop _ ih => exact .step op hq hop (ih r')

/-- Resolving a text outside all scopes is interning work. -/
theorem resolve {text : String} {h : Handle} {t : Table}
    (hr : Table.resolveTextIn [] text p.table = (.ok h, t)) :
    Work foreign p { p with table := t } := by
  let op : Table.Operation := .resolve [] text
  have hrun : (Program.onTable op.run p).2 = { p with table := t } := by
    change { p with table := (op.run p.table).2 } = _
    rw [Table.Operation.run, bind_apply,
      show (Table.resolveTextIn [] text).run p.table = _ from hr]
    rfl
  have hop : op.Permitted foreign p.table := ⟨by simp [op, Table.Operation.handed],
    by simp [op, Table.Operation.visible]⟩
  exact hrun ▸ single rfl hop

theorem run (r : Work foreign p p') :
    Table.Run foreign p.table p'.table := by
  induction r with
  | refl p => exact .refl p.table
  | step op _ hop _ ih => exact .step op hop ih

theorem growsTo (r : Work foreign p p') : p.table.GrowsTo p'.table := by
  induction r with
  | refl p => exact .refl p.table
  | step op hq _ _ ih =>
      exact (Table.Operation.interns_run hq _).trans ih

theorem unchanged (r : Work foreign p p') :
    p'.references = p.references ∧ p'.attributes = p.attributes ∧
      p'.wiring = p.wiring := by
  induction r with
  | refl p => exact ⟨rfl, rfl, rfl⟩
  | step op _ _ _ ih => exact ih

theorem untouched (r : Work foreign p p') : p.Untouched p' where
  shape hk := r.growsTo.shape hk
  named := r.growsTo.named?_eq
  builtIn := r.growsTo.builtIn?_eq
  conversions := r.growsTo.conversion?_eq
  references := r.unchanged.1
  attributes := r.unchanged.2.1

end Work

/-! ## Answers after work -/

theorem keptMatch_itself {κ : Type} {t : Table}
    {l : List (κ × Option Handle)}
    (h : ∀ e ∈ l, ∀ h ∈ e.2, t.Admits foreign h) :
    KeptMatch (t.itself foreign) l l := by
  refine List.forall₂_same.mpr ?_
  rintro ⟨k, _ | c⟩ he
  · exact ⟨rfl, .none⟩
  · exact ⟨rfl, .some ⟨h _ he c rfl, rfl⟩⟩

/-- A program corresponds to what it has become when its table has grown and
nothing else has changed, each handle to itself. -/
theorem Program.matches_of_growsTo (g : p.table.GrowsTo p'.table)
    (w : p.table.WellFormed foreign) (w' : p'.table.WellFormed foreign)
    (ha : p'.table.Avoids foreign) (unwired : p.wiring = [])
    (hattributes : ∀ a ∈ p.attributes,
      ∀ h ∈ a.attributeClass :: a.arguments, p.table.Admits foreign h)
    (unchanged : p'.references = p.references ∧ p'.attributes = p.attributes ∧
      p'.wiring = p.wiring) :
    p.Matches foreign (p.table.itself foreign) p' where
  table := g.matches w w' ha
  attributes := by
    rw [unchanged.2.1]
    refine List.forall₂_same.mpr fun a hmem => ?_
    have hall := List.forall_mem_cons.mp (hattributes a hmem)
    exact ⟨⟨hall.1, rfl⟩, Table.forall₂_itself hall.2⟩
  active overrides := by rw [unchanged.1]
  unwiredLeft := unwired
  unwiredRight := unchanged.2.2.trans unwired

/-- An inquiry corresponds to the one after work, each handle to itself. -/
theorem Inquiry.Reachable.matches {q : Inquiry} (hq : q.Reachable foreign)
    (r : Work foreign q.program p) (ha : p.table.Avoids foreign) :
    q.Matches foreign (q.program.table.itself foreign) (q.about p) where
  program := Program.matches_of_growsTo r.growsTo hq.table.wellFormed
    (r.run.wellFormed hq.table.wellFormed ha) ha hq.unwired hq.attributes r.unchanged
  capabilities := ⟨rfl, keptMatch_itself hq.frameworkTypes,
    keptMatch_itself hq.systemTypes⟩

/-- A question about handles that stand for themselves matches itself. -/
theorem Query.matches_self {ρ : World} (hid : ∀ {a b}, ρ a b → a = b)
    (query : Query) (hρ : ∀ h ∈ query.handles, ρ h h) :
    query.Matches ρ query := by
  cases query with
  | kind h => exact .kind (hρ h (by simp [handles]))
  | tag h => exact .tag (hρ h (by simp [handles]))
  | closed h => exact .closed (hρ h (by simp [handles]))
  | display h => exact .display hid (hρ h (by simp [handles]))
  | ignored h => exact .ignored (hρ h (by simp [handles]))
  | assignable a b =>
      exact .assignable (hρ a (by simp [handles])) (hρ b (by simp [handles]))
  | conversion a b =>
      exact .conversion (hρ a (by simp [handles])) (hρ b (by simp [handles]))
  | convertible a b =>
      exact .convertible (hρ a (by simp [handles])) (hρ b (by simp [handles]))
  | tier h => exact .tier (hρ h (by simp [handles]))
  | tierBy c h =>
      exact .tierBy
        ⟨List.forall₂_same.mpr fun x hx => hρ x (by simp [handles, hx]),
          List.forall₂_same.mpr fun x hx => hρ x (by simp [handles, hx])⟩
        (hρ h (by simp [handles]))

/-- Interning work beforehand changes no answer, and touches nothing that was
there. -/
theorem ask_after_work {q : Inquiry} (hq : q.Reachable foreign)
    (work : Work foreign q.program p) (query : Query)
    (hquery : ∀ h ∈ query.handles, q.program.table.Admits foreign h)
    (ha : (query.ask q).2.program.table.Avoids foreign)
    (ha' : (query.ask (q.about p)).2.program.table.Avoids foreign) :
    (query.ask (q.about p)).1 = (query.ask q).1 ∧
      q.program.Untouched p := by
  have havoids : p.table.Avoids foreign :=
    (query.interns_ask (q.about p)).avoids ha'
  have hmatches := hq.matches work havoids
  have hself : query.Matches (q.program.table.itself foreign) query :=
    query.matches_self (fun h => h.2) fun h hh => Table.itself_self (hquery h hh)
  obtain ⟨ρ, -, -, heq⟩ := Query.agree_ask hself hmatches ha ha'
  exact ⟨heq.symm, work.untouched⟩

/-- An expression that fails on its second argument has stored the first one,
which the tier of the object type does not show. -/
theorem ask_after_failed_naming :
    let q := Inquiry.ofTable Table.coreLibrary
    let naming : Table.Operation := .resolve [] "Dictionary<int[], Missing>"
    let p := (Program.onTable naming.run q.program).2
    let query : Query := .tier ⟨1⟩
    (query.ask (q.about p)).1 = (query.ask q).1 ∧ q.program.Untouched p := by
  have hcore : Table.coreLibrary.Reachable fun h => h.index = 0 :=
    ⟨.inr (.refl _), Table.avoids_zero _⟩
  have hobject : Table.coreLibrary.knows ⟨1⟩ = true := by decide +kernel
  refine ask_after_work (Inquiry.reachable_ofTable hcore)
    (.single rfl ⟨?_, ?_⟩) (.tier ⟨1⟩) ?_ (Table.avoids_zero _)
    (Table.avoids_zero _)
  · exact fun h hh => (List.not_mem_nil hh).elim
  · exact fun h hh => (List.not_mem_nil hh).elim
  · intro h hh
    rw [List.mem_singleton.mp hh, Inquiry.table_ofTable]
    exact .inl hobject

end Verdicts
