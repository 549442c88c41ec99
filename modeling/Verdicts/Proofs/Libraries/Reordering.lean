import Verdicts.CommandLine.Run
import Verdicts.Proofs.Correspondence.Loading
import Verdicts.Proofs.Correspondence.Query
import Verdicts.Proofs.Libraries.Families
import Verdicts.Proofs.Libraries.Order
import Verdicts.Proofs.Loading.References
import Verdicts.Proofs.Types.CoreLibrary

/-!
# Verdicts and the order of references

References may be reordered without a change to any verdict as long as those to
one family keep their order, the same core library stays the first one, and the
test cases come as before or after the abstractions upon which they build.
-/

namespace Verdicts

open Program.LibraryType (brought declareAll)

/-! ## Questions about a manifest -/

/-- A question about the types that expressions name. -/
inductive TextQuery where
  | assignable (source target : String)
  | conversion (source destination : String)
  | convertible (source destination : String)
  | tier (text : String)
  | ignored (text : String)

namespace TextQuery

/-- Ask a question about two types. -/
def askPair (query : Handle → Handle → Query) (source destination : String) :
    Running Answer := do
  let s ← Inquiry.argumentType .source source
  let d ← Inquiry.argumentType .destination destination
  (query s d).ask

/-- Ask a question about one type. -/
def askSingle (query : Handle → Query) (text : String) : Running Answer := do
  let h ← Inquiry.argumentType .subject text
  (query h).ask

/-- Find the types that a question is about, and ask it. -/
def ask : TextQuery → Running Answer
  | .assignable source target => askPair .assignable source target
  | .conversion source destination => askPair .conversion source destination
  | .convertible source destination => askPair .convertible source destination
  | .tier text => askSingle .tier text
  | .ignored text => askSingle .ignored text

/-- The answers to questions that are asked one after the other. -/
def answers (queries : List TextQuery) :
    StateM Inquiry (List (Except RunError Answer)) :=
  queries.mapM fun query => query.ask.run

end TextQuery

/-- Load a manifest, find the active families, and ask questions. -/
def Manifest.inquire (m : Manifest) (overrides : Overrides)
    (queries : List TextQuery) :
    Except LoadError (Capabilities × List (Except RunError Answer)) := do
  let p ← m.load
  let c := Capabilities.resolve p.references overrides
  return (c, (TextQuery.answers queries ⟨p, c⟩).1)

/-! ## Reordered references -/

/-- The first family of a group to which a reference belongs. -/
def Reference.leading? (group : List Family) (references : List Reference) :
    Option Family :=
  (references.filterMap Reference.family?).find? (· ∈ group)

/-- The references are the same, and those to one family are in the same
order. -/
structure Reference.Permuted (references references' : List Reference) :
    Prop where
  perm : references.Perm references'
  sameFamily : ∀ f, references.filter (·.family? = some f) =
    references'.filter (·.family? = some f)

/-- Moreover the same comes first of the two core libraries, and of the
abstractions and the test cases. -/
structure Reference.Reordered (references references' : List Reference) : Prop
    extends Reference.Permuted references references' where
  core : leading? [.coreV2, .coreV3] references =
    leading? [.coreV2, .coreV3] references'
  testCase : leading? [.abstractionsV2, .executionV2] references =
    leading? [.abstractionsV2, .executionV2] references'

theorem Reference.Reordered.sameLeaders {references references' : List Reference}
    (h : Reordered references references') :
    Program.LibraryType.SameLeaders (references.filterMap Reference.family?)
      (references'.filterMap Reference.family?) where
  mem _ := (h.perm.filterMap Reference.family?).mem_iff
  core := h.core
  testCase := h.testCase

/-! ## Corresponding programs -/

namespace Program

/-- A program with reordered references corresponds to what it was with the
others. -/
theorem withReferences_matches {t : Table} (w : t.WellFormed noneForeign)
    {references references' : List Reference}
    (h : Reference.Reordered references references') :
    ∃ ρ, ((ofTable t).withReferences references).Matches noneForeign ρ
      ((ofTable t).withReferences references') := by
  have htable := LibraryType.matches_of_alike
    (LibraryType.holds_declareAll w
      (brought (references.filterMap Reference.family?)))
    (LibraryType.holds_declareAll w
      (brought (references'.filterMap Reference.family?)))
    w (LibraryType.alike_brought h.sameLeaders)
  exact ⟨_, htable, .nil, Capabilities.resolve_eq h.sameFamily, rfl, rfl⟩

end Program

/-! ## Asking corresponding programs -/

section

variable {ρ : World}

theorem Inquiry.agree_argumentType (role : TypeRole) (text : String) :
    AgreeOrFail noneForeign ρ (argumentType role text) (argumentType role text)
      Linked := by
  have hrun : Agree noneForeign ρ
      (onProgram (Program.onTable (Table.resolveText text).run))
      (onProgram (Program.onTable (Table.resolveText text).run))
      fun ρ' => Outcomes ρ' :=
    (Agree.onTable (Table.agree_resolveText text)).onProgram
  exact hrun.map fun _ _ _ hout => hout.mapError _

/-- Corresponding inquiries give the same answers one after the other, if they
give the same answer to each question. -/
theorem Inquiry.agree_mapM_run {γ α : Type} {ask : γ → Running α}
    (hask : ∀ {ρ : World} (c : γ),
      AgreeOrFail noneForeign ρ (ask c) (ask c) Same) (l : List γ) :
    Agree noneForeign ρ (l.mapM fun c => (ask c).run)
      (l.mapM fun c => (ask c).run) Same := by
  have hrun : ∀ {ρ : World} (c : γ),
      Agree noneForeign ρ (ask c).run (ask c).run Same := by
    intro ρ c p q m ha ha'
    obtain ⟨ρ', hle, m', hout⟩ := hask c m ha ha'
    exact ⟨ρ', hle, m', hout.eq⟩
  have hall : Agree noneForeign ρ (l.mapM fun c => (ask c).run)
      (l.mapM fun c => (ask c).run) fun ρ' => List.Forall₂ (Same ρ') := by
    apply Agree.mapM (R := Same) (Q := Same) Same.mono Same.mono
      (fun _ => shields_noneForeign _) (fun _ => shields_noneForeign _) _
      (forall₂_same ρ l)
    rintro ρ' _ c _ rfl
    exact hrun c
  intro p q m ha ha'
  obtain ⟨ρ', hle, m', hanswers⟩ := hall m ha ha'
  refine ⟨ρ', hle, m', ?_⟩
  rwa [Same, ← List.forall₂_eq_eq_eq]

namespace TextQuery

theorem agree_askPair {query : Handle → Handle → Query}
    (hquery : ∀ {ρ : World} {a b a' b'}, ρ a b → ρ a' b' →
      (query a a').Matches ρ (query b b')) (source destination : String) :
    AgreeOrFail noneForeign ρ (askPair query source destination)
      (askPair query source destination) Same := by
  apply (Inquiry.agree_argumentType .source source).bind_closed
  intro ρ' _ a b hab
  apply (Inquiry.agree_argumentType .destination destination).bind_closed
  intro ρ'' hle a' b' hab'
  exact .lift (Query.agree_ask (hquery (hle _ _ hab) hab'))

theorem agree_askSingle {query : Handle → Query}
    (hquery : ∀ {ρ : World} {a b}, ρ a b → (query a).Matches ρ (query b))
    (text : String) :
    AgreeOrFail noneForeign ρ (askSingle query text) (askSingle query text)
      Same := by
  apply (Inquiry.agree_argumentType .subject text).bind_closed
  intro ρ' _ a b hab
  exact .lift (Query.agree_ask (hquery hab))

theorem agree_ask (query : TextQuery) :
    AgreeOrFail noneForeign ρ query.ask query.ask Same := by
  cases query with
  | assignable source target => exact agree_askPair .assignable source target
  | conversion source destination =>
      exact agree_askPair .conversion source destination
  | convertible source destination =>
      exact agree_askPair .convertible source destination
  | tier text => exact agree_askSingle .tier text
  | ignored text => exact agree_askSingle .ignored text

theorem agree_answers (queries : List TextQuery) :
    Agree noneForeign ρ (answers queries) (answers queries) Same :=
  Inquiry.agree_mapM_run agree_ask queries

end TextQuery

end

namespace Manifest

/-- With reordered references a manifest loads into a corresponding program, or
fails in the same way. -/
theorem load_reordered (m : Manifest) {references : List Reference}
    (h : Reference.Reordered m.references references) :
    Outcomes (fun p q : Program => ∃ ρ, p.Matches noneForeign ρ q)
      m.load (load { m with references := references }) := by
  obtain ⟨ρ, hm⟩ := Program.withReferences_matches
    (Table.wellFormed_coreLibrary noneForeign) h
  obtain ⟨ρ', -, hm', hout⟩ := m.agree_loadContents hm
    (Table.avoids_noneForeign _) (Table.avoids_noneForeign _)
  have hcontents : loadContents { m with references := references } =
      m.loadContents := rfl
  rw [load_eq, load_eq, hcontents]
  exact hout.map fun _ => ⟨ρ', hm'⟩

/-- Reordered references change no verdict. -/
theorem inquire_reordered (m : Manifest) {references : List Reference}
    (h : Reference.Reordered m.references references) (overrides : Overrides)
    (queries : List TextQuery) :
    inquire { m with references := references } overrides queries =
      m.inquire overrides queries := by
  rw [inquire, inquire]
  have hload := m.load_reordered h
  revert hload
  generalize m.load = x
  generalize load { m with references := references } = y
  rintro (@⟨p, q, ρ, hm⟩ | e)
  · have hinquiry : Inquiry.Matches noneForeign ρ
        ⟨p, Capabilities.resolve p.references overrides⟩
        ⟨q, Capabilities.resolve p.references overrides⟩ :=
      ⟨hm, ⟨rfl, .nil, .nil⟩⟩
    obtain ⟨ρ', -, -, heq⟩ := TextQuery.agree_answers queries hinquiry
      (Table.avoids_noneForeign _) (Table.avoids_noneForeign _)
    change Except.ok (_, (TextQuery.answers queries ⟨q, _⟩).1) =
      Except.ok (_, (TextQuery.answers queries ⟨p, _⟩).1)
    rw [← hm.active overrides, heq]
  · rfl

/-- The core library may come after the abstractions and the test cases. -/
theorem inquire_core_last :
    Reference.Reordered
        [⟨"xunit.core", none⟩, ⟨"xunit.abstractions", none⟩,
          ⟨"xunit.execution.desktop", none⟩]
        [⟨"xunit.abstractions", none⟩, ⟨"xunit.execution.desktop", none⟩,
          ⟨"xunit.core", none⟩] ∧
      inquire
          { empty with
            references := [⟨"xunit.abstractions", none⟩,
              ⟨"xunit.execution.desktop", none⟩, ⟨"xunit.core", none⟩] }
          Overrides.empty [.tier "Xunit.Sdk.XunitTestCase"] =
        inquire
          { empty with
            references := [⟨"xunit.core", none⟩, ⟨"xunit.abstractions", none⟩,
              ⟨"xunit.execution.desktop", none⟩] }
          Overrides.empty [.tier "Xunit.Sdk.XunitTestCase"] := by
  have h : Reference.Reordered
      [⟨"xunit.core", none⟩, ⟨"xunit.abstractions", none⟩,
        ⟨"xunit.execution.desktop", none⟩]
      [⟨"xunit.abstractions", none⟩, ⟨"xunit.execution.desktop", none⟩,
        ⟨"xunit.core", none⟩] :=
    { perm := by decide
      sameFamily := fun f => by cases f <;> decide +kernel
      core := by decide +kernel
      testCase := by decide +kernel }
  exact ⟨h, inquire_reordered { empty with references := _ } h _ _⟩

/-- The test case implements the interface of the abstractions only if these are
referenced before it. -/
theorem inquire_permuted_differs :
    ¬∀ (m : Manifest) (references : List Reference),
      Reference.Permuted m.references references →
      ∀ (overrides : Overrides) (queries : List TextQuery),
        inquire { m with references := references } overrides queries =
          m.inquire overrides queries := by
  intro h
  have hsame := h
    { empty with
      references :=
        [⟨"xunit.execution.desktop", none⟩, ⟨"xunit.abstractions", none⟩] }
    [⟨"xunit.abstractions", none⟩, ⟨"xunit.execution.desktop", none⟩]
    ⟨by decide, fun f => by cases f <;> decide +kernel⟩ Overrides.empty
    [.assignable "Xunit.Sdk.XunitTestCase" "Xunit.Abstractions.ITestCase"]
  have hanswers := congrArg (Except.map Prod.snd) hsame
  exact absurd hanswers (by decide +kernel)

/-- The core libraries share their data attributes, which derive from the base of
the core library that comes first.  So it matters which one this is, even where
the abstractions and the test cases keep their order. -/
theorem inquire_cores_permuted_differs :
    ¬∀ (m : Manifest) (references : List Reference),
      Reference.Permuted m.references references →
      Reference.leading? [.abstractionsV2, .executionV2] m.references =
        Reference.leading? [.abstractionsV2, .executionV2] references →
      ∀ (overrides : Overrides) (queries : List TextQuery),
        inquire { m with references := references } overrides queries =
          m.inquire overrides queries := by
  intro h
  have hsame := h
    { empty with
      references := [⟨"xunit.core", none⟩, ⟨"xunit.v3.core", none⟩] }
    [⟨"xunit.v3.core", none⟩, ⟨"xunit.core", none⟩]
    ⟨by decide, fun f => by cases f <;> decide +kernel⟩ (by decide +kernel)
    Overrides.empty
    [.assignable "Xunit.InlineDataAttribute" "Xunit.v3.DataAttribute"]
  have hanswers := congrArg (Except.map Prod.snd) hsame
  exact absurd hanswers (by decide +kernel)

end Manifest

end Verdicts
