import Verdicts.Proofs.Libraries.Families
import Verdicts.Proofs.Loading.References

/-!
# Which families are active

A family is active when it is pinned or a reference belongs to it, in the pinned
version or else in that of the first such reference.  Later references to the
family, and references to no family at all, change nothing.

Declaring a reference brings the types of one family into the program, and this
is the family that the reference makes active.
-/

namespace Verdicts

/-- A reference that changes nothing behind the given ones: it belongs to no
family, or to one to which one of these does. -/
def Reference.IsIdleAfter (r : Reference) (earlier : List Reference) : Prop :=
  r.family? = none ∨ ∃ s ∈ earlier, s.family? = r.family?

namespace Activation

/-- Places that are filled from a table of versions hold what the table says, and
else what they held before. -/
theorem version?_foldl_insert (g : Family → Option (Option Version))
    (fs : List Family) (a : Activation) (f : Family) :
    ((fs.filterMap fun f => (g f).map (f, ·)).foldl
      (fun a entry => a.insert entry.1 entry.2) a).version? f =
        if f ∈ fs then (g f).or (a.version? f) else a.version? f := by
  induction fs generalizing a with
  | nil => rfl
  | cons x fs ih =>
      rw [List.filterMap_cons]
      cases hx : g x with
      | none =>
          rw [Option.map_none]
          dsimp only
          rw [ih]
          by_cases hf : f = x
          · subst hf
            simp [hx]
          · simp [hf]
      | some v =>
          rw [Option.map_some]
          dsimp only
          rw [List.foldl_cons, ih, version?_insert]
          by_cases hf : f = x
          · subst hf
            simp [hx]
          · simp [hf]

/-- The list keeps the families in their order and repeats none. -/
theorem map_fst_toList_sublist (a : Activation) :
    (a.toList.map (·.1)).Sublist Family.all := by
  rw [toList_eq]
  induction Family.all with
  | nil => exact .slnil
  | cons f fs ih =>
      rw [List.filterMap_cons]
      cases a.version? f with
      | none => exact ih.cons f
      | some v => exact ih.cons_cons f

end Activation

namespace Capabilities

/-- The family is active in the given version. -/
inductive HasVersion (references : List Reference) (overrides : Overrides)
    (f : Family) : Option Version → Prop where
  | pinned {v : Version} (h : overrides.version? f = some v) :
      HasVersion references overrides f (some v)
  | referenced {before after : List Reference} {r : Reference}
      (h : overrides.version? f = none)
      (hsplit : references = before ++ r :: after)
      (hr : f.admits r.name = true)
      (hbefore : ∀ s ∈ before, f.admits s.name = false) :
      HasVersion references overrides f r.version

/-- The capabilities list exactly the families that are pinned or referenced,
each in its version, and tell from them which generations there are. -/
structure Settled (references : List Reference) (overrides : Overrides)
    (c : Capabilities) : Prop where
  ordered : (c.active.map (·.1)).Sublist Family.all
  once : (c.active.map (·.1)).Nodup
  listed : ∀ f v, (f, v) ∈ c.active ↔ HasVersion references overrides f v
  generations : ∀ g, c.has g = true ↔
    ∃ f v, (f, v) ∈ c.active ∧ f.generation = g

variable {references : List Reference} {overrides : Overrides} {f : Family}
  {v : Option Version}

/-! ## Versions -/

theorem resolveFamily?_eq_some_iff :
    resolveFamily? references overrides f = some v ↔
      HasVersion references overrides f v := by
  constructor
  · intro h
    rw [resolveFamily?] at h
    cases hpin : overrides.version? f with
    | some pinned =>
        rw [hpin] at h
        cases h
        exact .pinned hpin
    | none =>
        rw [hpin] at h
        obtain ⟨r, hr, rfl⟩ := Option.map_eq_some_iff.mp h
        obtain ⟨hadmits, before, after, hsplit, hbefore⟩ :=
          List.find?_eq_some_iff_append.mp hr
        exact .referenced hpin hsplit hadmits fun s hs => by
          simpa using hbefore s hs
  · intro h
    rw [resolveFamily?]
    cases h with
    | pinned hpin => rw [hpin]
    | referenced hpin hsplit hr hbefore =>
        rw [hpin]
        refine Option.map_eq_some_iff.mpr ⟨_, ?_, rfl⟩
        exact List.find?_eq_some_iff_append.mpr
          ⟨hr, _, _, hsplit, fun s hs => by simp [hbefore s hs]⟩

theorem version?_resolve (references : List Reference) (overrides : Overrides)
    (f : Family) : (resolve references overrides).version? f =
      resolveFamily? references overrides f := by
  rw [version?, resolve]
  dsimp only
  rw [Activation.ofList, Activation.version?_foldl_insert, if_pos f.mem_all,
    Activation.version?_empty, Option.or_none]

theorem mem_active_resolve_iff :
    (f, v) ∈ (resolve references overrides).active ↔
      HasVersion references overrides f v := by
  rw [active, Activation.mem_toList_iff, ← resolveFamily?_eq_some_iff,
    ← version?_resolve, version?]

theorem isActive_resolve (references : List Reference) (overrides : Overrides)
    (f : Family) : (resolve references overrides).isActive f =
      (resolveFamily? references overrides f).isSome := by
  rw [isActive, version?_resolve]

theorem isActive_resolve_empty :
    (resolve references .empty).isActive f = true ↔
      ∃ r ∈ references, r.family? = some f := by
  rw [isActive_resolve, resolveFamily?_eq, Overrides.version?_empty]
  dsimp only
  rw [Option.isSome_map, List.isSome_head?]
  simp

theorem settled_resolve (references : List Reference) (overrides : Overrides) :
    (resolve references overrides).Settled references overrides :=
  have hordered := (resolve references overrides).activation.map_fst_toList_sublist
  { ordered := hordered
    once := hordered.nodup (by decide)
    listed := fun _ _ => mem_active_resolve_iff
    generations := fun _ => Activation.has_iff }

/-! ## References that change nothing -/

theorem resolve_insert_idle {before : List Reference} {r : Reference}
    (h : r.IsIdleAfter before) (after : List Reference)
    (overrides : Overrides) :
    resolve (before ++ r :: after) overrides =
      resolve (before ++ after) overrides := by
  have hfamily : resolveFamily? (before ++ r :: after) overrides =
      resolveFamily? (before ++ after) overrides := by
    funext f
    rw [resolveFamily?_eq, resolveFamily?_eq]
    simp only [List.filter_append, List.filter_cons]
    split
    · rfl
    · by_cases hr : r.family? = some f
      · -- An earlier reference to the family stands in front of this one.
        obtain hnone | ⟨s, hs, hsame⟩ := h
        · rw [hnone] at hr
          cases hr
        · have hmem : s ∈ before.filter (·.family? = some f) :=
            List.mem_filter.mpr ⟨hs, decide_eq_true (hsame.trans hr)⟩
          obtain ⟨x, xs, hx⟩ :=
            List.exists_cons_of_ne_nil (List.ne_nil_of_mem hmem)
          rw [hx]
          rfl
      · rw [if_neg (by simpa using hr)]
  rw [resolve, resolve, hfamily]

/-! ## Declaring a reference -/

/-- One more reference leaves what is active as it is, and makes its own family
active unless that is so already. -/
theorem version?_resolve_concat (references : List Reference) (r : Reference)
    (overrides : Overrides) (f : Family) :
    (resolve (references ++ [r]) overrides).version? f =
      ((resolve references overrides).version? f).or
        (if r.family? = some f then some r.version else none) := by
  rw [version?_resolve, version?_resolve, resolveFamily?_eq, resolveFamily?_eq]
  cases overrides.version? f with
  | some v => rfl
  | none =>
      dsimp only
      rw [List.filter_append, List.head?_append, Option.map_or]
      by_cases hr : r.family? = some f
      · simp [hr]
      · simp [hr]

end Capabilities

/-- The names of the public types of a family. -/
def Family.typeNames : Family → List String
  | .coreV2 =>
    ["Xunit.FactAttribute", "Xunit.TheoryAttribute", "Xunit.Sdk.DataAttribute",
      "Xunit.InlineDataAttribute", "Xunit.MemberDataAttribute",
      "Xunit.ClassDataAttribute", "Xunit.CollectionAttribute",
      "Xunit.CollectionDefinitionAttribute", "Xunit.IClassFixture`1",
      "Xunit.ICollectionFixture`1"]
  | .coreV3 =>
    ["Xunit.FactAttribute", "Xunit.TheoryAttribute", "Xunit.v3.DataAttribute",
      "Xunit.InlineDataAttribute", "Xunit.MemberDataAttribute",
      "Xunit.ClassDataAttribute", "Xunit.CollectionAttribute",
      "Xunit.CollectionDefinitionAttribute", "Xunit.IClassFixture`1",
      "Xunit.ICollectionFixture`1", "Xunit.TheoryDataRow",
      "Xunit.Sdk.RegisterXunitSerializerAttribute"]
  | .assertV2 | .assertV3 => ["Xunit.Assert"]
  | .abstractionsV2 =>
    ["Xunit.Abstractions.IXunitSerializable",
      "Xunit.Abstractions.ITestOutputHelper", "Xunit.Abstractions.IMessageSink",
      "Xunit.Abstractions.ITestCase"]
  | .commonV3 =>
    ["Xunit.Sdk.IXunitSerializable", "Xunit.Sdk.IXunitSerializer",
      "Xunit.Sdk.IMessageSink", "Xunit.ITestOutputHelper"]
  | .executionV2 =>
    ["Xunit.LongLivedMarshalByRefObject", "Xunit.Sdk.XunitTestCase"]
  | .runnerUtilityV2 | .runnerUtilityV3 =>
    ["Xunit.Sdk.LongLivedMarshalByRefObject"]

namespace Program

variable {p : Program} {r : Reference}

theorem map_name_surface (f : Family) :
    (surface f).map (·.name) = f.typeNames := by
  cases f <;> rfl

/-- The second program is the first one with a reference more: it has the public
types of the family as well, and the family is active in it. -/
structure Introduces (r : Reference) (family? : Option Family)
    (p p' : Program) : Prop where
  references : p'.references = p.references ++ [r]
  kept : ∀ name h, p.table.named? name = some h →
    p'.table.named? name = some h
  named : ∀ name, (p'.table.named? name).isSome = true ↔
    (p.table.named? name).isSome = true ∨
      ∃ f, family? = some f ∧ name ∈ f.typeNames
  active : ∀ overrides f,
    (Capabilities.resolve p'.references overrides).version? f =
      ((Capabilities.resolve p.references overrides).version? f).or
        (if family? = some f then some r.version else none)

theorem family_declareReference (r : Reference) (p : Program) :
    (declareReference r p).1 = r.family? := by
  rw [declareReference]
  cases r.family? with
  | none => rfl
  | some f => rfl

theorem introduces_withReferences (r : Reference) (p : Program) :
    Introduces r r.family? p (p.withReferences [r]) where
  references := rfl
  kept name h hh := LibraryType.named?_declareAll_of_named _ hh
  named name := by
    rw [withReferences, LibraryType.isSome_named?_declareAll]
    refine or_congr_right ?_
    cases hfamily : r.family? with
    | none => simp [LibraryType.brought, hfamily]
    | some f => simp [LibraryType.brought, hfamily, ← map_name_surface]
  active overrides f := Capabilities.version?_resolve_concat _ r overrides f

end Program

namespace Capabilities

/-- A library belongs to one family at most, whose types its reference brings
and which it makes active.  What is active is settled by the pinned versions and
the first reference to each family, in whatever order those to different
families stand. -/
theorem resolve_settled (references : List Reference) (overrides : Overrides) :
    (∀ name f g, Family.admits f name = true → Family.admits g name = true →
      f = g) ∧
    (∀ name f, Family.identify? name = some f ↔ f.admits name = true) ∧
    (∀ r p,
      (Program.declareReference r p).1 = Family.identify? r.name ∧
      Program.Introduces r (Program.declareReference r p).1 p
        (Program.declareReference r p).2) ∧
    (resolve references overrides).Settled references overrides ∧
    (∀ references',
      (∀ f, references.filter (·.family? = some f) =
        references'.filter (·.family? = some f)) →
      resolve references' overrides = resolve references overrides) ∧
    (∀ before r after, references = before ++ after →
      r.IsIdleAfter before →
      resolve (before ++ r :: after) overrides =
        resolve references overrides) := by
  refine ⟨fun _ _ _ => Family.eq_of_admits,
    fun _ _ => Family.identify?_eq_some_iff, fun r p => ?_,
    settled_resolve references overrides,
    fun references' h => (resolve_eq h overrides).symm, ?_⟩
  · have hfamily := Program.family_declareReference r p
    refine ⟨hfamily, ?_⟩
    rw [hfamily, Program.declareReference_apply]
    exact Program.introduces_withReferences r p
  · rintro before r after rfl hidle
    exact resolve_insert_idle hidle after overrides

/-- References to two families may be swapped, and of two references to one the
first counts.  Declaring the first one brings the attribute of facts. -/
theorem resolve_settled_repeated :
    let core : Reference := ⟨"xunit.core", some (.release 2 4 1)⟩
    let later : Reference := ⟨"XUnit.Core", some (.release 2 9 0)⟩
    let execution : Reference := ⟨"xunit.execution.dotnet", none⟩
    (.coreV2, some (.release 2 4 1)) ∈
        (resolve [core, execution] .empty).active ∧
      (resolve [core, execution] .empty).has .v2 = true ∧
      resolve [execution, core] .empty = resolve [core, execution] .empty ∧
      resolve [core, later, execution] .empty =
        resolve [core, execution] .empty ∧
      ((Program.declareReference core (Program.ofTable Table.empty)).2.table.named?
        "Xunit.FactAttribute").isSome = true := by
  intro core later execution
  obtain ⟨-, -, hdeclared, hsettled, hpermuted, hinserted⟩ :=
    resolve_settled [core, execution] .empty
  have hsplit : [core, execution] = [] ++ core :: [execution] := rfl
  have hcore : (.coreV2, core.version) ∈
      (resolve [core, execution] .empty).active :=
    (hsettled.listed .coreV2 core.version).mpr
      (.referenced rfl hsplit (by decide +kernel) fun s hs => by cases hs)
  refine ⟨hcore, (hsettled.generations .v2).mpr ⟨_, _, hcore, rfl⟩,
    hpermuted [execution, core] ?_,
    hinserted [core] later [execution] rfl (.inr ⟨core, ?_, ?_⟩), ?_⟩
  · intro f
    cases f <;> decide +kernel
  · exact List.mem_singleton_self core
  · decide +kernel
  · obtain ⟨hfamily, hintroduces⟩ := hdeclared core (Program.ofTable Table.empty)
    refine (hintroduces.named _).mpr (.inr ⟨.coreV2, ?_, by decide⟩)
    rw [hfamily]
    decide +kernel

end Capabilities

end Verdicts
