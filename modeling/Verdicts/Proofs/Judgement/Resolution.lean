import Verdicts.Proofs.Correspondence.Query

/-!
# Handles are looked up once

An inquiry goes on for as long as its host likes, and the host declares types
in between.  Whatever is asked, in whatever order, each slot looks its name up
at most once, and the first answer is the answer to every later question for the
same handle.

Both follow from what an access does to the slots: the one that was asked is
settled from then on, and settled slots stay as they are.
-/

namespace Verdicts

/-! ## What stays settled -/

/-- The same families are active, and slots that had their answers keep
them. -/
structure Inquiry.Keeps (q q' : Inquiry) : Prop where
  active : q'.capabilities.active = q.capabilities.active
  settled : ∀ {x : Slot} {a : Option Handle},
    x.settled? q = some a → x.settled? q' = some a

instance : IsPreorder Inquiry Inquiry.Keeps where
  refl _ := ⟨rfl, id⟩
  trans _ _ _ h h' :=
    ⟨h'.active.trans h.active, fun hx => h'.settled (h.settled hx)⟩

namespace Slot

theorem settled?_withProgram (x : Slot) (q : Inquiry) (p : Program) :
    x.settled? { q with program := p } = x.settled? q := by
  cases x <;> rfl

theorem keeps_ask (x : Slot) (q : Inquiry) : q.Keeps (x.ask q).2 where
  active := x.active_ask q
  settled hx := settled?_ask_of_settled x hx

theorem access_of_settled {x : Slot} {q : Inquiry} {a : Option Handle}
    (h : x.settled? q = some a) : x.access q = ⟨x, a, 0⟩ := by
  rw [access, ask_of_settled h, Nat.sub_self]

theorem lookups_ask (x : Slot) (q : Inquiry) :
    (x.ask q).2.program.lookups =
        q.program.lookups + (x.access q).lookups ∧
      (x.access q).lookups ≤ 1 := by
  obtain ⟨a, ha, hask⟩ | ⟨-, hlooks⟩ := x.ask_cases q
  · rw [access_of_settled ha, hask]
    exact ⟨rfl, Nat.zero_le 1⟩
  · rw [access, hlooks.program]
    dsimp only
    omega

end Slot

/-! ## Counting look-ups -/

/-- The look-ups that accesses take together. -/
def Access.total : List Access → Nat
  | [] => 0
  | e :: l => e.lookups + total l

theorem Access.total_eq_zero {l : List Access} (h : ∀ e ∈ l, e.lookups = 0) :
    total l = 0 := by
  induction l with
  | nil => rfl
  | cons e l ih =>
      rw [List.forall_mem_cons] at h
      rw [total, h.1, ih h.2]

/-- The look-ups that a slot takes. -/
def Slot.lookups (x : Slot) (l : List Access) : Nat :=
  Access.total (l.filter (·.slot = x))

theorem Slot.lookups_cons (x : Slot) (e : Access) (l : List Access) :
    x.lookups (e :: l) = (if e.slot = x then e.lookups else 0) + x.lookups l := by
  rw [lookups, lookups, List.filter_cons]
  by_cases he : e.slot = x
  · rw [if_pos he, if_pos (decide_eq_true he), Access.total]
  · rw [if_neg he, if_neg (by simpa using he), Nat.zero_add]

/-! ## Along a trail -/

/-- The number of look-ups is as before. -/
def Uncounted (p p' : Program) : Prop :=
  p'.lookups = p.lookups

/-- The accesses take one look-up for each slot at most, and give one answer. -/
structure Inquiry.LooksUpOnce (q : Inquiry) (l : List Access) (q' : Inquiry) :
    Prop where
  /-- There are no look-ups besides those of the accesses. -/
  total : q'.program.lookups = q.program.lookups + Access.total l
  once : ∀ x : Slot, x.lookups l ≤ 1
  /-- Families that are not active, and types that a family does not define, take
  no look-up. -/
  nothing : ∀ x : Slot, x.isPresent q = false ∨ x.name? = none → x.lookups l = 0
  /-- The slots that took a look-up are those that have an answer to keep. -/
  kept : ∀ x : Slot, 0 < x.lookups l ↔ (x.kept? q').isSome = true
  constant : l.Pairwise fun e e' => e.slot = e'.slot → e'.answer = e.answer

namespace Trail

variable {W : Program → Program → Prop} {q q' : Inquiry} {l : List Access}
  {x : Slot} {a : Option Handle}

theorem keeps (h : Trail W q l q') : q.Keeps q' := by
  induction h with
  | refl q => exact refl_of _ q
  | ask x _ ih => exact trans_of _ (x.keeps_ask _) ih
  | @work q _ _ p _ _ ih =>
      have hkeeps : q.Keeps { q with program := p } :=
        ⟨rfl, fun {x _} hx => (x.settled?_withProgram q p).trans hx⟩
      exact trans_of _ hkeeps ih

/-- A settled slot answers what it has, and takes no look-up. -/
theorem access_of_settled (h : Trail W q l q') (hx : x.settled? q = some a) :
    ∀ e ∈ l, e.slot = x → e = ⟨x, a, 0⟩ := by
  induction h with
  | refl q => exact fun _ he => (List.not_mem_nil he).elim
  | ask y _ ih =>
      rw [List.forall_mem_cons]
      constructor
      · rintro rfl
        exact Slot.access_of_settled hx
      · exact ih (Slot.settled?_ask_of_settled y hx)
  | @work q _ _ p _ _ ih => exact ih ((x.settled?_withProgram q p).trans hx)

theorem lookups_of_settled (h : Trail W q l q') (hx : x.settled? q = some a) :
    x.lookups l = 0 := by
  refine Access.total_eq_zero fun e he => ?_
  obtain ⟨he, hslot⟩ := List.mem_filter.mp he
  rw [h.access_of_settled hx e he (of_decide_eq_true hslot)]

theorem lookups_le_one (h : Trail W q l q') (x : Slot) : x.lookups l ≤ 1 := by
  induction h with
  | refl q => exact Nat.zero_le 1
  | @ask q _ l y rest ih =>
      rw [Slot.lookups_cons]
      by_cases hyx : y = x
      · subst hyx
        have hrest : y.lookups l = 0 := rest.lookups_of_settled (y.settled?_ask q)
        rw [if_pos (show (y.access q).slot = y from rfl), hrest]
        exact (y.lookups_ask q).2
      · rw [if_neg (show ¬(y.access q).slot = x from hyx), Nat.zero_add]
        exact ih
  | work _ _ ih => exact ih

/-- Only look-ups leave answers to keep. -/
theorem isSome_kept?_iff (h : Trail W q l q') (x : Slot) :
    (x.kept? q').isSome = true ↔
      (x.kept? q).isSome = true ∨ 0 < x.lookups l := by
  induction h with
  | refl q => exact (or_iff_left (Nat.lt_irrefl 0)).symm
  | @ask q _ l y _ ih =>
      rw [ih, Slot.lookups_cons]
      obtain ⟨a, ha, hask⟩ | ⟨-, hlooks⟩ := y.ask_cases q
      · rw [hask, Slot.access_of_settled ha, ite_self, Nat.zero_add]
      · rw [hlooks.kept]
        by_cases hxy : x = y
        · have hone : 0 < (y.access q).lookups := by
            rw [Slot.access, hlooks.program]
            exact Nat.sub_pos_of_lt (Nat.lt_succ_self _)
          have hslot : (y.access q).slot = x := hxy.symm
          rw [if_pos hxy, if_pos hslot]
          exact iff_of_true (.inl rfl) (.inr (Nat.add_pos_left hone _))
        · have hslot : ¬(y.access q).slot = x := Ne.symm hxy
          rw [if_neg hxy, if_neg hslot, Nat.zero_add]
  | @work q _ _ p _ _ ih =>
      rw [ih, show x.kept? { q with program := p } = x.kept? q by cases x <;> rfl]

theorem lookups_eq (h : Trail Uncounted q l q') :
    q'.program.lookups = q.program.lookups + Access.total l := by
  induction h with
  | refl q => rfl
  | @ask q q' l x _ ih =>
      rw [ih, (x.lookups_ask q).1, Access.total, Nat.add_assoc]
  | @work q _ _ p hp _ ih => rw [ih, show p.lookups = q.program.lookups from hp]

theorem pairwise_answer (h : Trail W q l q') :
    l.Pairwise fun e e' => e.slot = e'.slot → e'.answer = e.answer := by
  induction h with
  | refl q => exact .nil
  | ask x rest ih =>
      refine .cons (fun e he hslot => ?_) ih
      rw [rest.access_of_settled (x.settled?_ask _) e he hslot.symm]
      rfl
  | work _ _ ih => exact ih

end Trail

theorem Slot.kept?_resolve (p : Program) (overrides : Overrides) (x : Slot) :
    x.kept? ⟨p, Capabilities.resolve p.references overrides⟩ = none := by
  cases x <;> rfl

/-- Slots that have nothing to look up are settled before anything is asked. -/
theorem Slot.settled?_resolve (p : Program) (overrides : Overrides) {x : Slot}
    (hx : x.isPresent ⟨p, Capabilities.resolve p.references overrides⟩ = false ∨
      x.name? = none) :
    x.settled? ⟨p, Capabilities.resolve p.references overrides⟩ = some none := by
  cases hp : x.isPresent ⟨p, Capabilities.resolve p.references overrides⟩ with
  | false => exact settled?_of_absent hp
  | true =>
      have hn : x.name? = none := hx.resolve_left (by rw [hp]; simp)
      exact settled?_of_unnamed hp (x.kept?_resolve p overrides) hn

theorem Trail.looksUpOnce {p : Program} {overrides : Overrides} {l : List Access}
    {q' : Inquiry} (h : Trail Uncounted
      ⟨p, Capabilities.resolve p.references overrides⟩ l q') :
    Inquiry.LooksUpOnce ⟨p, Capabilities.resolve p.references overrides⟩ l q' where
  total := h.lookups_eq
  once := h.lookups_le_one
  nothing _ hx := h.lookups_of_settled (Slot.settled?_resolve p overrides hx)
  kept x := by
    rw [h.isSome_kept?_iff x, x.kept?_resolve p overrides]
    simp
  constant := h.pairwise_answer

/-! ## Answers that last -/

/-- Which family decides a concern depends on the active ones only. -/
theorem Capabilities.family?_congr {c c' : Capabilities}
    (h : c'.active = c.active) (concern : Concern) :
    c'.family? concern = c.family? concern := by
  rw [family?, family?, isActive_congr h]

/-- Once the transition has answered, it goes on to give the same answer and
leaves everything as it is. -/
def Lasting {α : Type} (m : StateM Inquiry α) : Prop :=
  ∀ q, q.Keeps (m q).2 ∧ ∀ q', (m q).2.Keeps q' → m q' = ((m q).1, q')

namespace Lasting

variable {α β : Type}

theorem of_pure (a : α) : Lasting (pure a) :=
  fun q => ⟨refl_of _ q, fun _ _ => rfl⟩

theorem of_slot (x : Slot) : Lasting x.ask :=
  fun q => ⟨x.keeps_ask q, fun _ h =>
    Slot.ask_of_settled (h.settled (x.settled?_ask q))⟩

theorem bind {m : StateM Inquiry α} {f : α → StateM Inquiry β}
    (hm : Lasting m) (hf : ∀ a, Lasting (f a)) : Lasting (m >>= f) := by
  intro q
  obtain ⟨hkeeps, hagain⟩ := hm q
  obtain ⟨hkeeps', hagain'⟩ := hf (m q).1 (m q).2
  refine ⟨trans_of _ hkeeps hkeeps', fun q' hq' => ?_⟩
  rw [bind_apply, hagain q' (trans_of _ hkeeps' hq')]
  exact hagain' q' hq'

/-- Which families are active does not change, so what depends on them lasts. -/
theorem get_bind {f : Inquiry → StateM Inquiry β} (hf : ∀ q, Lasting (f q))
    (hcongr : ∀ {q q' : Inquiry},
      q'.capabilities.active = q.capabilities.active → f q' = f q) :
    Lasting (get >>= f) := by
  intro q
  obtain ⟨hkeeps, hagain⟩ := hf q q
  refine ⟨hkeeps, fun q' hq' => ?_⟩
  change f q' q' = _
  rw [hcongr (hq'.active.trans hkeeps.active)]
  exact hagain q' hq'

theorem findSomeM? {f : α → StateM Inquiry (Option β)}
    (hf : ∀ a, Lasting (f a)) (l : List α) : Lasting (l.findSomeM? f) := by
  induction l with
  | nil => exact of_pure none
  | cons a l ih =>
      rw [List.findSomeM?_cons]
      apply (hf a).bind
      rintro (_ | b)
      · exact ih
      · exact of_pure (some b)

end Lasting

/-- A question for the handle of a type. -/
inductive HandleQuery where
  | framework (w : FrameworkType)
  | composed (w : FrameworkType)
  | ofFamily (f : Family) (w : FrameworkType)
  | system (s : SystemType)

namespace HandleQuery

/-- Ask for the handle. -/
def ask : HandleQuery → StateM Inquiry (Option Handle)
  | .framework w => Inquiry.frameworkType w
  | .composed w => Inquiry.composedType w
  | .ofFamily f w => Inquiry.familyType f w
  | .system s => Inquiry.systemType s

theorem asks (x : HandleQuery) : Inquiry.Asks x.ask := by
  cases x with
  | framework w => exact Inquiry.asks_frameworkType w
  | composed w => exact Inquiry.asks_composedType w
  | ofFamily f w => exact Inquiry.asks_slot (.framework f w)
  | system s => exact Inquiry.asks_slot (.system s)

theorem lasting (x : HandleQuery) : Lasting x.ask := by
  cases x with
  | framework w =>
      exact Lasting.findSomeM? (fun f => .of_slot (.framework f w)) _
  | composed w =>
      refine Lasting.get_bind (fun q => ?_) fun h => ?_
      · split
        · next f _ => exact .of_slot (.framework f w)
        · exact .of_pure none
      · rw [Capabilities.family?_congr h]
  | ofFamily f w => exact .of_slot (.framework f w)
  | system s => exact .of_slot (.system s)

end HandleQuery

/-! ## Turns -/

/-- One turn of an inquiry: a question, or a change by the host, who may do
anything to the program short of looking a type up. -/
inductive Turn where
  | handle (x : HandleQuery)
  | query (x : Query)
  | classifier
  | host (change : Program → Program)
      (uncounted : ∀ p, Uncounted p (change p))

namespace Turn

/-- Take a turn. -/
def take : Turn → StateM Inquiry Unit
  | .handle x => do let _ ← x.ask
  | .query x => do let _ ← x.ask
  | .classifier => do let _ ← Inquiry.classifier
  | .host change _ => modify fun q => { q with program := change q.program }

/-- Take turns, one after the other. -/
def takeAll (turns : List Turn) : StateM Inquiry Unit :=
  turns.forM take

end Turn

theorem Inquiry.Stores.uncounted {p p' : Program} (h : Inquiry.Stores p p') :
    Uncounted p p' := by
  obtain ⟨t, -, rfl⟩ := h
  rfl

namespace Turn

theorem asksTo_of_asks {α : Type} {m : StateM Inquiry α} (hm : Inquiry.Asks m) :
    Leads (Inquiry.AsksTo Uncounted) m := by
  intro q
  obtain ⟨l, h⟩ := hm q
  exact ⟨l, h.mono Inquiry.Stores.uncounted⟩

theorem leads_take (turn : Turn) :
    Leads (Inquiry.AsksTo Uncounted) turn.take := by
  cases turn with
  | handle x => exact (asksTo_of_asks x.asks).bind fun _ => .of_pure _
  | query x => exact (asksTo_of_asks x.asks).bind fun _ => .of_pure _
  | classifier =>
      exact (asksTo_of_asks Inquiry.asks_classifier).bind fun _ => .of_pure _
  | host change uncounted =>
      exact fun q => ⟨[], .work (uncounted q.program) (.refl _)⟩

theorem leads_takeAll (turns : List Turn) :
    Leads (Inquiry.AsksTo Uncounted) (takeAll turns) :=
  Leads.forM leads_take turns

theorem keeps_takeAll (turns : List Turn) (q : Inquiry) :
    q.Keeps (takeAll turns q).2 := by
  obtain ⟨l, h⟩ := leads_takeAll turns q
  exact h.keeps

/-- However an inquiry goes, its accesses take one look-up for each slot at most,
there are no others, and whatever handle has been asked for once stays the answer,
also when the host has declared the type in between. -/
theorem handles_resolve_once (p : Program) (overrides : Overrides)
    (turns : List Turn) :
    let q : Inquiry := ⟨p, Capabilities.resolve p.references overrides⟩
    let q' := (takeAll turns q).2
    (∃ l, Trail Uncounted q l q') ∧
      (∀ l, Trail Uncounted q l q' → q.LooksUpOnce l q') ∧
      ∀ (x : HandleQuery) (later : List Turn),
        let q'' := (takeAll later (x.ask q').2).2
        x.ask q'' = ((x.ask q').1, q'') := by
  intro q q'
  refine ⟨leads_takeAll turns q, fun l h => h.looksUpOnce, fun x later => ?_⟩
  exact (x.lasting q').2 _ (keeps_takeAll later (x.ask q').2)

/-- The tier of a class takes eight look-ups.  The marker that was absent then
stays so when the host declares it. -/
theorem handles_resolve_once_absent :
    let p : Program :=
      { Program.ofTable .empty with references := [⟨"xunit.abstractions", none⟩] }
    let order : Table.Declaration := { name := "Order", kind := .classType }
    let marker : Table.Declaration :=
      { name := "Xunit.Abstractions.IXunitSerializable", kind := .interface }
    let declares (d : Table.Declaration) := Turn.host
      (fun p => (Program.onTable (Table.declare d) p).2) fun _ => rfl
    let x := HandleQuery.framework .xunitSerializable
    let q : Inquiry := ⟨p, Capabilities.resolve p.references .empty⟩
    let q' := (takeAll [declares order, .query (.tier ⟨1⟩)] q).2
    let q'' := (takeAll [declares marker] (x.ask q').2).2
    (∃ l, q.LooksUpOnce l q' ∧ Access.total l = 8) ∧
      q''.program.table.named? marker.name = some ⟨2⟩ ∧
      x.ask q'' = (none, q'') := by
  intro p order marker declares x q q' q''
  have hfacts : q'.program.lookups = 8 ∧ (x.ask q').1 = none ∧
      q''.program.table.named? marker.name = some ⟨2⟩ := by
    decide +kernel
  obtain ⟨hlookups, habsent, hdeclared⟩ := hfacts
  obtain ⟨⟨l, htrail⟩, honce, hlasts⟩ :=
    handles_resolve_once p .empty [declares order, .query (.tier ⟨1⟩)]
  have hl := honce l htrail
  refine ⟨⟨l, hl, ?_⟩, hdeclared, ?_⟩
  · have htotal := hl.total
    rw [show (takeAll _ _).2.program.lookups = 8 from hlookups] at htotal
    exact (htotal.trans (Nat.zero_add _)).symm
  · exact habsent ▸ hlasts x [declares marker]

end Turn

end Verdicts
