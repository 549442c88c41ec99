import Verdicts.Proofs.Correspondence.Extensions
import Verdicts.Proofs.Loading.Programs
import Verdicts.Proofs.Loading.Success

/-!
# Verdicts and the order of types

The types of a manifest may be declared in any order, with bases and interfaces
that refer forward or to each other.  As long as no type parameter demands that
arguments be assignable to other types, the manifest loads in any order or in
none, and no question about types that expressions name has another answer.
-/

namespace Verdicts

open Table

variable {c t u : Table} {p p' q : Program} {a b : Handle} {d e : Definition}
  {ρ : World}

/-! ## Tables with declared types -/

namespace TypeDeclaration

variable {x : TypeDeclaration} {ds ds' : List TypeDeclaration}

/-- The table is the origin together with the types of a list, which have their
bases and interfaces. -/
structure Holds (c : Table) (ds : List TypeDeclaration) (t : Table) : Prop where
  extension : c.Extends t
  named : ∀ name, (t.named? name).isSome = true ↔
    (c.named? name).isSome = true ∨ name ∈ ds.map (·.storedName)
  nodup : (ds.map (·.storedName)).Nodup
  added : ∀ {h e}, c.Adds t h e → ∃ d ∈ ds, d.Connected t h e

section

variable (ht : Holds c ds t) (hu : Holds c ds' u) (hperm : ds.Perm ds')
include ht hu hperm

/-- Definitions with one name come from one declaration. -/
theorem declaration_of_adds (hd : c.Adds t a d) (he : c.Adds u b e)
    (hname : d.name = e.name) :
    ∃ x ∈ ds, x.Connected t a d ∧ x.Connected u b e := by
  obtain ⟨x, hx, hxd⟩ := ht.added hd
  obtain ⟨y, hy, hye⟩ := hu.added he
  have hxy : x.storedName = y.storedName := by rw [← hxd.name, hname, hye.name]
  obtain rfl := List.inj_on_of_nodup_map ht.nodup hx (hperm.mem_iff.mpr hy) hxy
  exact ⟨x, hx, hxd, hye⟩

theorem parallel_of_perm (w : c.WellFormed noneForeign)
    (hplain : ∀ d ∈ ds, d.Plain) : c.Parallel t u where
  origin := w
  left := ht.extension
  right := hu.extension
  named name := by
    rw [Bool.eq_iff_iff, ht.named, hu.named, (hperm.map _).mem_iff]
  parameters hd he hname := by
    obtain ⟨x, hx, hxd, hxe⟩ := declaration_of_adds ht hu hperm hd he hname
    have hparameters :=
      List.forall₂_and_left _ _ |>.mpr ⟨hplain x hx, hxd.parameters⟩
    refine (forall₂_of_common hparameters.flip hxe.parameters.flip).imp ?_
    rintro k k' ⟨y, ⟨hy, c, hk, hc⟩, c', hk', hc'⟩
    obtain rfl := hc hy
    obtain rfl := hc' hy
    exact ⟨y.name, _, hk, hk', ParameterDeclaration.types_demands y.constraint⟩

end

/-- Definitions from one declaration are the same, up to the links. -/
theorem Connected.matches (hd : x.Connected t a d) (he : x.Connected u b e)
    (w : c.Parallel t u)
    (hparameters : List.Forall₂ (Alongside c t u) d.parameters e.parameters) :
    d.Matches (Alongside c t u) e := by
  have hs : ScopesMatch (Alongside c t u)
      ((x.parameters.map (·.name)).zip d.parameters)
      ((x.parameters.map (·.name)).zip e.parameters) :=
    World.forall₂_zip _ hparameters
  have hnames : ∀ {text k k'},
      t.NamesText ((x.parameters.map (·.name)).zip d.parameters) text k →
      u.NamesText ((x.parameters.map (·.name)).zip e.parameters) text k' →
      Alongside c t u k k' := by
    rintro text k k' ⟨y, hy, hk⟩ ⟨y', hy', hk'⟩
    cases hy.symm.trans hy'
    exact w.names hs hk hk'
  refine
    { name := hd.name.trans he.name.symm
      kind := hd.kind.trans he.kind.symm
      builtIn := hd.builtIn.trans he.builtIn.symm
      isClosed := hd.isClosed.trans he.isClosed.symm
      base := ?_
      interfaces := ?_
      parameters := hparameters }
  · cases hbase : x.base with
    | none =>
        rw [hd.unbased hbase, he.unbased hbase, hd.kind, he.kind]
        exact w.findsAlike.impliedBase? _
    | some text =>
        obtain ⟨k, hk, hnamed⟩ := hd.based text hbase
        obtain ⟨k', hk', hnamed'⟩ := he.based text hbase
        rw [hk, hk']
        exact .some (hnames hnamed hnamed')
  · obtain ⟨ks, hks, heq⟩ := hd.interfaces
    obtain ⟨ks', hks', heq'⟩ := he.interfaces
    rw [heq, heq']
    refine forall₂_eraseDups w.leftUnique w.rightUnique ?_
    exact (forall₂_of_common hks.flip hks'.flip).imp
      fun k k' ⟨_, hk, hk'⟩ => hnames hk hk'

/-- Tables with the same types in another order correspond. -/
theorem matches_of_perm (ht : Holds c ds t) (hu : Holds c ds' u)
    (hperm : ds.Perm ds') (w : c.WellFormed noneForeign)
    (hplain : ∀ d ∈ ds, d.Plain) :
    t.Matches noneForeign (Alongside c t u) u := by
  have hparallel := parallel_of_perm ht hu hperm w hplain
  refine hparallel.matches fun {a b d e} hd he hname => ?_
  obtain ⟨x, -, hxd, hxe⟩ := declaration_of_adds ht hu hperm hd he hname
  exact hxd.matches hxe hparallel (hparallel.parameters_linked hd he hname)

end TypeDeclaration

namespace Manifest

open TypeDeclaration (Holds Plain)

variable {m : Manifest} {types : List TypeDeclaration}

/-! ## Loading types -/

/-- Loading types leaves the origin with these types. -/
theorem holds_of_loadTypes (hself : p.Matches noneForeign ρ p)
    (hplain : ∀ d ∈ m.types, d.Plain) (hm : m.loadTypes p = (.ok (), p')) :
    Holds p.table m.types p'.table := by
  obtain ⟨q, hs, hdeclare, hq, -, hconnected⟩ := loadTypes_eq_ok hm
  obtain ⟨r, -, hnew, -⟩ := TypeDeclaration.mapM_declare_eq_ok hdeclare
  have hold : ∀ {k}, p.table.knows k = true → k ∉ hs := by
    intro k hk hmem
    rw [hnew k hmem] at hk
    cases hk
  -- What is added was declared.
  have hadded : ∀ {k e}, p.table.Adds p'.table k e →
      k ∈ hs ∧ ∀ x ∈ e.parameters, p.table.knows x = false := by
    intro k e hk
    obtain ⟨d, hd, -⟩ := hq.steady.definition hk.shape
    obtain ⟨e', he', -, -, hparameters⟩ := hq.steady.persists.definition hd
    cases he'.symm.trans hk.shape
    rw [hparameters]
    refine (TypeDeclaration.definition_of_mapM_declare hdeclare hd).resolve_left ?_
    intro hd
    have hknown := knows_of_shape? hd
    rw [hk.unknown] at hknown
    cases hknown
  have hwellFormed : p'.table.WellFormed noneForeign := by
    obtain ⟨ρ', -, hm', -⟩ := m.agree_loadTypes hself (avoids_noneForeign _)
      (avoids_noneForeign _)
    have hrun : m.loadTypes.run p = (.ok (), p') := hm
    rw [hrun] at hm'
    exact hm'.table.left
  exact
    { extension :=
        { wellFormed := hwellFormed
          kept := fun hs => hq.shape (hold (knows_of_shape? hs)) (r.shape hs)
          builtIn := fun b => (hq.steady.builtIn b).trans (r.builtIn b)
          conversions := hq.conversions.trans r.conversions
          fresh := fun hk => (hadded hk).2 }
      named := fun name => by
        rw [hq.steady.named, TypeDeclaration.named?_of_mapM_declare hdeclare]
      nodup := ((TypeDeclaration.exists_mapM_declare_iff hplain).mp
        ⟨hs, q, hdeclare⟩).1
      added := fun {k e} hk => by
        obtain ⟨d, hd, e', he'⟩ := exists_of_forall₂ hconnected.flip (hadded hk).1
        cases he'.shape.symm.trans hk.shape
        exact ⟨d, hd, he'⟩ }

/-- Types in another order are loaded into a corresponding program. -/
theorem loadTypes_of_perm (hself : p.Matches noneForeign ρ p)
    (hattributes : p.attributes = []) (hperm : m.types.Perm types)
    (hplain : ∀ d ∈ m.types, d.Plain) (hm : m.loadTypes p = (.ok (), p')) :
    ∃ q ρ', loadTypes { m with types := types } p = (.ok (), q) ∧
      p'.Matches noneForeign ρ' q := by
  obtain ⟨q, hq⟩ := exists_loadTypes_of_perm hperm hplain hm
  have hplain' : ∀ d ∈ types, d.Plain := fun d hd => hplain d (hperm.mem_iff.mpr hd)
  have htable := TypeDeclaration.matches_of_perm
    (holds_of_loadTypes hself hplain hm) (holds_of_loadTypes hself hplain' hq)
    hperm hself.table.left hplain
  obtain ⟨-, -, -, -, hrest, -⟩ := loadTypes_eq_ok hm
  obtain ⟨-, -, -, -, hrest', -⟩ := loadTypes_eq_ok hq
  have hnone : p'.attributes = [] ∧ q.attributes = [] := by
    rw [hrest, hrest']
    exact ⟨hattributes, hattributes⟩
  have hreferences : p'.references = q.references := by
    rw [hrest, hrest']
  have hunwired : p'.wiring = [] ∧ q.wiring = [] := by
    rw [hrest, hrest']
    exact ⟨hself.unwiredLeft, hself.unwiredLeft⟩
  refine ⟨q, p.table.Alongside p'.table q.table, hq, htable, ?_, fun overrides => ?_,
    hunwired.1, hunwired.2⟩
  · rw [hnone.1, hnone.2]
    exact .nil
  · rw [hreferences]

/-! ## Loading manifests -/

/-- A manifest loads if what it says of the program itself does. -/
theorem load_eq_ok_iff : m.load = .ok p ↔
    m.loadContents ((Program.ofTable .coreLibrary).withReferences m.references) =
      (.ok (), p) := by
  refine ⟨loadContents_of_load, fun h => ?_⟩
  rw [load_eq]
  dsimp only
  rw [h]
  rfl

/-- With its types in another order a manifest loads into a corresponding
program. -/
theorem load_of_perm (hperm : m.types.Perm types)
    (hplain : ∀ d ∈ m.types, d.Plain) (hm : m.load = .ok p) :
    ∃ q ρ, load { m with types := types } = .ok q ∧ p.Matches noneForeign ρ q := by
  have hreordered : Reference.Reordered m.references m.references :=
    ⟨⟨.refl _, fun _ => rfl⟩, rfl, rfl⟩
  obtain ⟨ρ, hself⟩ := Program.withReferences_matches
    (Table.wellFormed_coreLibrary noneForeign) hreordered
  have hattributes :
      ((Program.ofTable .coreLibrary).withReferences m.references).attributes = [] :=
    rfl
  rw [load_eq_ok_iff] at hm
  simp only [load_eq_ok_iff]
  generalize (Program.ofTable .coreLibrary).withReferences m.references = p₀
    at hself hattributes hm ⊢
  obtain ⟨_, p₁, htypes, hm⟩ := bind_apply_eq_ok hm
  obtain ⟨q₁, ρ₁, htypes', hmatches⟩ :=
    loadTypes_of_perm hself hattributes hperm hplain htypes
  obtain ⟨ρ', _, q, hq, hmatches', -⟩ := m.agree_loadRest.exists_ok hmatches hm
  exact ⟨q, ρ', (bind_apply_ok htypes' _).trans hq, hmatches'⟩

/-- With its types in another order a manifest loads as well. -/
theorem exists_load_iff_of_perm (hperm : m.types.Perm types)
    (hplain : ∀ d ∈ m.types, d.Plain) :
    (∃ p, m.load = .ok p) ↔ ∃ p, load { m with types := types } = .ok p := by
  have hplain' : ∀ d ∈ types, d.Plain := fun d hd => hplain d (hperm.mem_iff.mpr hd)
  constructor
  · rintro ⟨p, hm⟩
    obtain ⟨q, -, hq, -⟩ := load_of_perm hperm hplain hm
    exact ⟨q, hq⟩
  · rintro ⟨p, hm⟩
    obtain ⟨q, -, hq, -⟩ :=
      load_of_perm (m := { m with types := types }) hperm.symm hplain' hm
    exact ⟨q, hq⟩

end Manifest

/-! ## Questions about a manifest -/

/-- A question about the types that expressions name. -/
inductive TextQuestion where
  | kind (text : String)
  | closed (text : String)
  | verdict (query : TextQuery)

namespace TextQuestion

/-- Find the types that a question is about, and ask it. -/
def ask : TextQuestion → Running Answer
  | .kind text => TextQuery.askSingle .kind text
  | .closed text => TextQuery.askSingle .closed text
  | .verdict query => query.ask

/-- The answers to questions that are asked one after the other. -/
def answers (questions : List TextQuestion) :
    StateM Inquiry (List (Except RunError Answer)) :=
  questions.mapM fun question => question.ask.run

theorem agree_ask (question : TextQuestion) :
    AgreeOrFail noneForeign ρ question.ask question.ask Same := by
  cases question with
  | kind text => exact TextQuery.agree_askSingle .kind text
  | closed text => exact TextQuery.agree_askSingle .closed text
  | verdict query => exact query.agree_ask

theorem agree_answers (questions : List TextQuestion) :
    Agree noneForeign ρ (answers questions) (answers questions) Same :=
  Inquiry.agree_mapM_run agree_ask questions

end TextQuestion

namespace Manifest

/-- Load a manifest and ask questions, one after the other. -/
def examine (m : Manifest) (overrides : Overrides) (questions : List TextQuestion) :
    Except LoadError (List (Except RunError Answer)) := do
  let p ← m.load
  let c := Capabilities.resolve p.references overrides
  return (TextQuestion.answers questions ⟨p, c⟩).1

/-- Types may be declared in any order, if their parameters demand nothing of
other types: a manifest loads in any order or in none, and what is asked about
types that expressions name has the same answers. -/
theorem examine_permuted (m : Manifest) {types : List TypeDeclaration}
    (hperm : m.types.Perm types) (hplain : ∀ d ∈ m.types, d.Plain) :
    ((∃ p, m.load = .ok p) ↔ ∃ p, load { m with types := types } = .ok p) ∧
      ∀ (overrides : Overrides) (questions : List TextQuestion),
        (examine { m with types := types } overrides questions).toOption =
          (m.examine overrides questions).toOption := by
  have hload := exists_load_iff_of_perm hperm hplain
  refine ⟨hload, fun overrides questions => ?_⟩
  rw [examine, examine]
  cases hm : m.load with
  | error e =>
      cases hm' : load { m with types := types } with
      | error e' => rfl
      | ok q =>
          obtain ⟨p, hp⟩ := hload.mpr ⟨q, hm'⟩
          cases hm.symm.trans hp
  | ok p =>
      obtain ⟨q, ρ, hq, hmatches⟩ := load_of_perm hperm hplain hm
      have hinquiry : Inquiry.Matches noneForeign ρ
          ⟨p, Capabilities.resolve p.references overrides⟩
          ⟨q, Capabilities.resolve p.references overrides⟩ :=
        ⟨hmatches, ⟨rfl, .nil, .nil⟩⟩
      obtain ⟨ρ', -, -, heq⟩ := TextQuestion.agree_answers questions hinquiry
        (avoids_noneForeign _) (avoids_noneForeign _)
      rw [hq]
      change some (TextQuestion.answers questions ⟨q, _⟩).1 =
        some (TextQuestion.answers questions ⟨p, _⟩).1
      rw [← hmatches.active overrides, heq]

/-- A type whose base, a generic type over it, and whose interface come later. -/
def forwardManifest : Manifest :=
  { empty with
    types :=
      [⟨"Node", .classType, none, some "Linked<Node>", ["IMarked"], []⟩,
        ⟨"Linked", .classType, none, none, ["IMarked"], [⟨"T", some .classType, []⟩]⟩,
        ⟨"IMarked", .interface, none, none, [], []⟩] }

/-- The later types may come first. -/
theorem examine_permuted_forward :
    forwardManifest.types.Perm forwardManifest.types.reverse ∧
      (∀ d ∈ forwardManifest.types, d.Plain) ∧
      (∃ p, load { forwardManifest with types := forwardManifest.types.reverse } =
        .ok p) ∧
      (examine { forwardManifest with types := forwardManifest.types.reverse }
        Overrides.empty
        [.verdict (.assignable "Node" "Linked<Node>"),
          .verdict (.assignable "Linked<string>" "IMarked"), .kind "IMarked",
          .kind "Linked<IMissing>"]).toOption =
        some [.ok (.verdict true), .ok (.verdict true), .ok (.kind .interface),
          .error (.naming .subject "Linked<IMissing>" (.unknownType "IMissing"))] := by
  have hperm : forwardManifest.types.Perm forwardManifest.types.reverse :=
    (List.reverse_perm _).symm
  have hplain : ∀ d ∈ forwardManifest.types, d.Plain := by
    simp [forwardManifest, TypeDeclaration.Plain]
  have hanswers : (forwardManifest.examine Overrides.empty
      [.verdict (.assignable "Node" "Linked<Node>"),
        .verdict (.assignable "Linked<string>" "IMarked"), .kind "IMarked",
        .kind "Linked<IMissing>"]).toOption =
      some [.ok (.verdict true), .ok (.verdict true), .ok (.kind .interface),
        .error (.naming .subject "Linked<IMissing>" (.unknownType "IMissing"))] := by
    decide +kernel
  obtain ⟨hload, hexamine⟩ := examine_permuted forwardManifest hperm hplain
  refine ⟨hperm, hplain, hload.mp ?_, (hexamine _ _).trans hanswers⟩
  cases hm : forwardManifest.load with
  | error e =>
      rw [examine, hm] at hanswers
      cases hanswers
  | ok p => exact ⟨p, rfl⟩

end Manifest

end Verdicts
