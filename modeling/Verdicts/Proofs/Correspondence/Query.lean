import Verdicts.Proofs.Correspondence.Judgement

/-!
# Questions about types

All verdicts about the types of a program are answers to questions of a few
sorts.  Corresponding inquiries give one answer to a question about linked
types.
-/

namespace Verdicts

/-- A question about the types of a program. -/
inductive Query where
  | kind (h : Handle)
  | tag (h : Handle)
  | closed (h : Handle)
  | display (h : Handle)
  | assignable (source target : Handle)
  | conversion (source destination : Handle)
  | convertible (source destination : Handle)
  /-- The tier that a classifier gathered for the occasion gives. -/
  | tier (h : Handle)
  /-- The tier that an earlier classifier gives. -/
  | tierBy (c : Classifier) (h : Handle)
  | ignored (h : Handle)

/-- The answer to a question. -/
inductive Answer where
  | kind (k : Kind)
  | tag (b : Option BuiltIn)
  | verdict (holds : Bool)
  | conversion (c : Option Conversion)
  | text (s : String)
  | tier (t : Tier)
  deriving DecidableEq

namespace Query

/-- Ask a question. -/
def ask : Query → StateM Inquiry Answer
  | .kind h => do return .kind ((← get).program.table.kind h)
  | .tag h => do return .tag ((← get).program.table.tag? h)
  | .closed h => do return .verdict ((← get).program.table.isClosed h)
  | .display h => do return .text ((← get).program.table.display h)
  | .assignable a b => .verdict <$> Program.onTable (Table.assignable a b)
  | .conversion a b => .conversion <$> Program.onTable (Table.conversion a b)
  | .convertible a b => .verdict <$> Inquiry.convertible a b
  | .tier h => do return .tier (← Inquiry.classify (← Inquiry.classifier) h)
  | .tierBy c h => .tier <$> Inquiry.classify c h
  | .ignored h => do return .verdict ((← get).program.ignores h)

/-- The handles about which a question is. -/
def handles : Query → List Handle
  | .kind h | .tag h | .closed h | .display h | .tier h | .ignored h => [h]
  | .assignable a b | .conversion a b | .convertible a b => [a, b]
  | .tierBy c h => h :: c.markers ++ c.registered

end Query

/-- Questions of one sort about linked types. -/
inductive Query.Matches (ρ : World) : Query → Query → Prop where
  | kind {a b} (h : ρ a b) : Matches ρ (.kind a) (.kind b)
  | tag {a b} (h : ρ a b) : Matches ρ (.tag a) (.tag b)
  | closed {a b} (h : ρ a b) : Matches ρ (.closed a) (.closed b)
  | display {a b} (hid : ∀ {a b}, ρ a b → a = b) (h : ρ a b) :
      Matches ρ (.display a) (.display b)
  | ignored {a b} (h : ρ a b) : Matches ρ (.ignored a) (.ignored b)
  | assignable {a b a' b'} (h : ρ a b) (h' : ρ a' b') :
      Matches ρ (.assignable a a') (.assignable b b')
  | conversion {a b a' b'} (h : ρ a b) (h' : ρ a' b') :
      Matches ρ (.conversion a a') (.conversion b b')
  | convertible {a b a' b'} (h : ρ a b) (h' : ρ a' b') :
      Matches ρ (.convertible a a') (.convertible b b')
  | tier {a b} (h : ρ a b) : Matches ρ (.tier a) (.tier b)
  | tierBy {c d a b} (hc : c.Matches ρ d) (h : ρ a b) :
      Matches ρ (.tierBy c a) (.tierBy d b)

variable {foreign : Handle → Prop} {ρ : World}

theorem Query.asks (x : Query) : Inquiry.Asks x.ask := by
  cases x with
  | kind | tag | closed | display | ignored =>
      exact Leads.get_bind fun q => .of_pure _
  | assignable a b =>
      exact (Inquiry.asks_onTable (Table.interns_assignable a b)).map _
  | conversion a b =>
      exact (Inquiry.asks_onTable (Table.interns_conversion a b)).map _
  | convertible a b => exact (Inquiry.asks_convertible a b).map _
  | tier h =>
      exact Inquiry.asks_classifier.bind fun c =>
        (Inquiry.asks_classify c h).bind fun _ => .of_pure _
  | tierBy c h => exact (Inquiry.asks_classify c h).map _

theorem Query.interns_ask (query : Query) : Interns query.ask :=
  query.asks.interns

/-- Corresponding inquiries give one answer to matching questions. -/
theorem Query.agree_ask {query query' : Query} (hq : query.Matches ρ query') :
    Agree foreign ρ query.ask query'.ask Same := by
  have hread : ∀ {f g : Inquiry → Answer},
      (∀ {p q}, Inquiry.Matches foreign ρ p q → f p = g q) →
      Agree foreign ρ (do return f (← get)) (do return g (← get)) Same :=
    fun hf => Agree.get_bind fun m => Agree.of_pure (hf m)
  cases hq with
  | kind h =>
      apply hread
      intro p q m
      rw [m.program.table.kind_eq h]
  | tag h =>
      apply hread
      intro p q m
      rw [m.program.table.tag?_eq h]
  | closed h =>
      apply hread
      intro p q m
      rw [m.program.table.isClosed_eq h]
  | display hid h =>
      apply hread
      intro p q m
      rw [m.program.table.display_eq hid h]
  | ignored h =>
      apply hread
      intro p q m
      rw [m.program.ignores_eq h]
  | assignable h h' =>
      refine Agree.map (Table.agree_assignable h h').onTable.onProgram ?_
      rintro _ _ _ _ rfl
      rfl
  | conversion h h' =>
      refine Agree.map (Table.agree_conversion h h').onTable.onProgram ?_
      rintro _ _ _ _ rfl
      rfl
  | convertible h h' =>
      refine Agree.map (Inquiry.agree_convertible h h') ?_
      rintro _ _ _ _ rfl
      rfl
  | @tier a b h =>
      have hrest : ∀ (h : Handle) (c : Classifier), Shields foreign (do
          return .tier (← Inquiry.classify c h) : StateM Inquiry Answer) :=
        fun h c => ((Inquiry.interns_classify c h).bind fun _ =>
          .of_pure _).shields
      apply Inquiry.agree_classifier.bind (hrest a) (hrest b)
      intro ρ' hle c d hcd
      apply (Inquiry.agree_classify hcd (hle _ _ h)).bind
      · exact fun _ => (Interns.of_pure _).shields
      · exact fun _ => (Interns.of_pure _).shields
      · rintro _ _ _ _ rfl
        exact .of_pure rfl
  | tierBy hc h =>
      refine Agree.map (Inquiry.agree_classify hc h) ?_
      rintro _ _ _ _ rfl
      rfl

end Verdicts
