import Verdicts.Proofs.Correspondence.Libraries

/-!
# When the order of libraries does not matter

Most library types are declared by one family alone, or in the same way by
several, and build upon types of their own family.  The exceptions are the data
attributes, for which the first core library counts, and the test case, which
implements an interface only if the abstractions come before it.  Lists of
families that agree in these two respects bring alike library types.
-/

namespace Verdicts.Program.LibraryType

/-- The library types that families bring, in order. -/
def brought (fs : List Family) : List LibraryType :=
  fs.flatMap surface

/-- Lists with the same families in which the same core library, and the same of
the abstractions and the test cases, comes first. -/
structure SameLeaders (fs gs : List Family) : Prop where
  mem : ∀ f, f ∈ fs ↔ f ∈ gs
  core : fs.find? (· ∈ [.coreV2, .coreV3]) = gs.find? (· ∈ [.coreV2, .coreV3])
  testCase : fs.find? (· ∈ [.abstractionsV2, .executionV2]) =
    gs.find? (· ∈ [.abstractionsV2, .executionV2])

/-! ## Searching lists -/

section

variable {α β : Type} {fs gs : List α} {p : α → Bool} {g : α → Option β}

/-- A search finds the same in lists with the same elements if all that it may
find is the same. -/
theorem findSome?_eq_of_agree (hmem : ∀ a, a ∈ fs ↔ a ∈ gs)
    (hagree : ∀ a a' b b', g a = some b → g a' = some b' → b = b') :
    fs.findSome? g = gs.findSome? g := by
  have hfound : ∀ {fs gs : List α}, (∀ a, a ∈ fs ↔ a ∈ gs) → ∀ b,
      fs.findSome? g = some b → gs.findSome? g = some b := by
    intro fs gs hmem b hb
    obtain ⟨a, ha, hgb⟩ := List.exists_of_findSome?_eq_some hb
    have hsome : (gs.findSome? g).isSome = true :=
      List.findSome?_isSome_iff.mpr ⟨a, (hmem a).mp ha, by rw [hgb]; rfl⟩
    obtain ⟨b', hb'⟩ := Option.isSome_iff_exists.mp hsome
    obtain ⟨a', -, hgb'⟩ := List.exists_of_findSome?_eq_some hb'
    rw [hb', hagree a a' b b' hgb hgb']
  cases hb : fs.findSome? g with
  | some b => exact (hfound hmem b hb).symm
  | none =>
      cases hb' : gs.findSome? g with
      | none => rfl
      | some b =>
          rw [hfound (fun a => (hmem a).symm) b hb'] at hb
          cases hb

/-- A search that succeeds on certain elements finds what it finds on the first
of them. -/
theorem findSome?_eq_bind (hp : ∀ a, (g a).isSome = p a) (fs : List α) :
    fs.findSome? g = (fs.find? p).bind g := by
  induction fs with
  | nil => rfl
  | cons a fs ih =>
      rw [List.findSome?_cons, List.find?_cons, ← hp a]
      cases hg : g a with
      | none => exact ih
      | some b => exact hg.symm

/-- An element stands before the first of another kind when it is the first of
the two. -/
theorem mem_takeWhile_ne_iff [DecidableEq α] {a b : α} (hne : a ≠ b)
    (fs : List α) :
    a ∈ fs.takeWhile (· ≠ b) ↔ fs.find? (· ∈ [a, b]) = some a := by
  induction fs with
  | nil => simp
  | cons x fs ih =>
      by_cases hb : x = b
      · simp [hb, hne.symm]
      · by_cases ha : x = a
        · simp [ha, hne]
        · simpa [hb, ha, Ne.symm ha] using ih

end

/-! ## What families bring -/

theorem first?_brought (fs : List Family) (name : String) :
    first? (brought fs) name = fs.findSome? fun f => first? (surface f) name :=
  List.find?_flatMap

/-- What comes before a name: what its own family has before it, and all that
families before that one bring. -/
theorem mem_before_brought {fs : List Family} {name parent : String} :
    parent ∈ before (brought fs) name ↔
      (∃ f ∈ fs.find? fun f => (first? (surface f) name).isSome,
        parent ∈ before (surface f) name) ∨
      ∃ f ∈ fs.takeWhile fun f => !(first? (surface f) name).isSome,
        parent ∈ (surface f).map (·.name) := by
  induction fs with
  | nil => simp [brought, before]
  | cons f fs ih =>
      have hcons : brought (f :: fs) = surface f ++ brought fs := by
        rw [brought, List.flatMap_cons, ← brought]
      rw [hcons]
      cases hf : first? (surface f) name with
      | none =>
          have hall : ∀ l ∈ surface f, decide (l.name ≠ name) = true := by
            simpa [first?] using hf
          have happ : before (surface f ++ brought fs) name =
              (surface f).map (·.name) ++ before (brought fs) name := by
            rw [before, List.takeWhile_append_of_pos hall, List.map_append,
              ← before]
          rw [happ, List.mem_append, ih, List.find?_cons, List.takeWhile_cons,
            hf]
          simp only [Option.isSome_none, Bool.not_false, if_true,
            List.mem_cons, exists_eq_or_imp]
          exact or_left_comm
      | some l =>
          rw [before_append_of_some hf, List.find?_cons, List.takeWhile_cons, hf]
          simp

/-! ## The libraries of the framework -/

/-- A library type is declared alike by all families that declare its name,
except for those of the core libraries. -/
theorem entries_settled :
    ∀ f ∈ Family.all, ∀ l ∈ surface f,
      (∀ g ∈ Family.all, ∀ l' ∈ first? (surface g) l.name, l' = l) ∨
        ∀ g ∈ Family.all, (first? (surface g) l.name).isSome =
          decide (g ∈ [.coreV2, .coreV3]) := by
  decide +kernel

/-- What a library type builds upon comes before it in its family, or from no
library, or from the abstractions. -/
theorem parents_settled :
    ∀ f ∈ Family.all, ∀ l ∈ surface f, ∀ parent ∈ l.parents,
      (∀ g ∈ Family.all, first? (surface g) l.name = some l →
          parent ∈ before (surface g) l.name) ∨
        (∀ g ∈ Family.all, parent ∉ (surface g).map (·.name)) ∨
        ((∀ g ∈ Family.all, (first? (surface g) l.name).isSome =
            decide (g = .executionV2)) ∧
          ∀ g ∈ Family.all, parent ∈ (surface g).map (·.name) ↔
            g = .abstractionsV2) := by
  decide +kernel

variable {fs gs : List Family}

theorem mem_surface_of_first? {f : Family} {name : String} {l : LibraryType}
    (hl : first? (surface f) name = some l) :
    l ∈ surface f ∧ l.name = name :=
  ⟨List.mem_of_find?_eq_some hl, name_of_first? hl⟩

theorem first?_brought_eq (h : SameLeaders fs gs) (name : String) :
    first? (brought fs) name = first? (brought gs) name := by
  rw [first?_brought, first?_brought]
  by_cases hnone : ∀ f, first? (surface f) name = none
  · apply findSome?_eq_of_agree h.mem
    intro f g b b' hb
    rw [hnone f] at hb
    cases hb
  · rw [not_forall] at hnone
    obtain ⟨f, hf⟩ := hnone
    obtain ⟨l, hl⟩ := Option.ne_none_iff_exists'.mp hf
    obtain ⟨hmem, rfl⟩ := mem_surface_of_first? hl
    obtain hsame | hcore := entries_settled f f.mem_all l hmem
    · apply findSome?_eq_of_agree h.mem
      intro g g' b b' hb hb'
      rw [hsame g g.mem_all b hb, hsame g' g'.mem_all b' hb']
    · have hbind := fun fs : List Family =>
        findSome?_eq_bind (fun g => hcore g g.mem_all) fs
      rw [hbind, hbind, h.core]

/-- The family whose library type counts for a name. -/
theorem family_of_first?_brought {name : String} {l : LibraryType}
    (hl : first? (brought fs) name = some l) :
    ∃ f, (fs.find? fun f => (first? (surface f) name).isSome) = some f ∧
      first? (surface f) name = some l := by
  rw [first?_brought, findSome?_eq_bind fun _ => rfl] at hl
  exact Option.bind_eq_some_iff.mp hl

theorem alike_brought (h : SameLeaders fs gs) :
    Alike (brought fs) (brought gs) where
  first := first?_brought_eq h
  before {name l} hl parent hparent := by
    have hl' : first? (brought gs) name = some l := by
      rw [← first?_brought_eq h, hl]
    obtain ⟨f, hf, hlf⟩ := family_of_first?_brought hl
    obtain ⟨hmem, rfl⟩ := mem_surface_of_first? hlf
    obtain hown | hnone | ⟨hexecution, habstractions⟩ :=
      parents_settled f f.mem_all l hmem parent hparent
    · have hbefore : ∀ {fs : List Family},
          first? (brought fs) l.name = some l →
          parent ∈ before (brought fs) l.name := by
        intro fs hl
        obtain ⟨f, hf, hlf⟩ := family_of_first?_brought hl
        exact mem_before_brought.mpr (.inl ⟨f, hf, hown f f.mem_all hlf⟩)
      exact iff_of_true (hbefore hl) (hbefore hl')
    · have hbefore : ∀ fs : List Family,
          parent ∉ before (brought fs) l.name := by
        intro fs hparent
        rcases mem_before_brought.mp hparent with ⟨f, -, hp⟩ | ⟨f, -, hp⟩
        · exact hnone f f.mem_all (mem_of_mem_before hp)
        · exact hnone f f.mem_all hp
      exact iff_of_false (hbefore fs) (hbefore gs)
    · have hbefore : ∀ fs : List Family,
          parent ∈ before (brought fs) l.name ↔
            fs.find? (· ∈ [.abstractionsV2, .executionV2]) =
              some .abstractionsV2 := by
        intro fs
        have hwhile : (fun f => !(first? (surface f) l.name).isSome) =
            fun f => decide (f ≠ .executionV2) := by
          funext f
          rw [hexecution f f.mem_all, decide_not]
        rw [← mem_takeWhile_ne_iff (by decide), mem_before_brought, hwhile]
        constructor
        · rintro (⟨f, hf, hp⟩ | ⟨f, hf, hp⟩)
          · obtain rfl := (habstractions f f.mem_all).mp (mem_of_mem_before hp)
            have hsome := List.find?_some hf
            rw [hexecution _ (Family.mem_all _)] at hsome
            exact absurd hsome (by decide)
          · obtain rfl := (habstractions f f.mem_all).mp hp
            exact hf
        · intro hf
          exact .inr ⟨_, hf, (habstractions _ (Family.mem_all _)).mpr rfl⟩
      rw [hbefore, hbefore, h.testCase]

end Verdicts.Program.LibraryType
