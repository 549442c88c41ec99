import Verdicts.Proofs.Correspondence.Extensions

/-!
# Libraries declared in different orders

Two tables that hold libraries over the same origin correspond when for each
name the same library type counts in both, and finds the same bases and
interfaces.
-/

namespace Verdicts

namespace Program.LibraryType

open Table

variable {c t u : Table} {ls ms : List LibraryType} {a b : Handle}

/-- For each name the same library type counts, and the same of those that it
builds upon come before it. -/
structure Alike (ls ms : List LibraryType) : Prop where
  first : ∀ name, first? ls name = first? ms name
  before : ∀ {name l}, first? ls name = some l →
    ∀ parent ∈ l.parents, parent ∈ before ls name ↔ parent ∈ before ms name

theorem Holds.extends (ht : Holds c ls t) : c.Extends t where
  wellFormed := ht.wellFormed
  kept := ht.kept
  builtIn := ht.builtIn
  conversions := ht.conversions
  fresh hd p hp := by
    obtain ⟨l, v, -, hsource⟩ := ht.added hd
    exact hsource.fresh p hp

section

variable (ht : Holds c ls t) (hu : Holds c ms u) (halike : Alike ls ms)
include ht hu halike

/-- Definitions with one name come from one library type. -/
theorem sources_of_alike {d e : Definition} (hd : c.Adds t a d) (he : c.Adds u b e)
    (hname : d.name = e.name) :
    ∃ l v v', Source c t (before ls d.name) l d v ∧
      Source c u (before ms d.name) l e v' ∧ first? ls d.name = some l := by
  obtain ⟨l, v, hl, hsource⟩ := ht.added hd
  obtain ⟨l', v', hl', hsource'⟩ := hu.added he
  rw [← hname, ← halike.first, hl] at hl'
  obtain rfl := Option.some.inj hl'
  rw [← hname] at hsource'
  exact ⟨l, v, v', hsource, hsource', hl⟩

theorem parallel_of_alike (w : c.WellFormed noneForeign) : c.Parallel t u where
  origin := w
  left := ht.extends
  right := hu.extends
  named name := by
    rw [Bool.eq_iff_iff, ht.named, hu.named, ← isSome_first?_iff,
      ← isSome_first?_iff, halike.first]
  parameters hd he hname := by
    obtain ⟨l, v, v', hsource, hsource', -⟩ :=
      sources_of_alike ht hu halike hd he hname
    exact (forall₂_of_common hsource.parameters hsource'.parameters).imp
      fun _ _ ⟨name, hs, hs'⟩ => ⟨name, _, hs, hs', rfl⟩

end

/-- Definitions from one library type are the same, up to the links. -/
theorem matches_of_source (w : c.Parallel t u) {l : LibraryType}
    {d e : Definition} {v v' : Table} {earlier earlier' : List String}
    (hd : Source c t earlier l d v) (he : Source c u earlier' l e v')
    (hparameters : List.Forall₂ (Alongside c t u) d.parameters e.parameters)
    (hearlier : ∀ parent ∈ l.parents, parent ∈ earlier ↔ parent ∈ earlier') :
    d.Matches (Alongside c t u) e := by
  have hfound : ∀ parent ∈ l.parents,
      Option.Rel (Alongside c t u) (v.named? parent) (v'.named? parent) := by
    intro parent hparent
    have hsome : (v.named? parent).isSome = true ↔
        (v'.named? parent).isSome = true := by
      rw [hd.named, he.named, hearlier parent hparent]
    cases hh : v.named? parent with
    | none =>
        cases hh' : v'.named? parent with
        | none => exact .none
        | some b => simp [hh, hh'] at hsome
    | some a =>
        cases hh' : v'.named? parent with
        | none => simp [hh, hh'] at hsome
        | some b =>
            rw [← hd.found hh, ← he.found hh']
            exact w.rel_named parent
  have hbase : Option.Rel (Alongside c t u) (l.base.find? v) (l.base.find? v') := by
    cases hb : l.base with
    | none => exact .none
    | builtIn b =>
        have hrel := w.rel_builtIn b
        rw [w.left.builtIn, w.right.builtIn] at hrel
        rwa [LibraryBase.find?, LibraryBase.find?, hd.builtIn, he.builtIn]
    | named parent => exact hfound parent (mem_parents_of_base hb)
  have hinterfaces : ∀ names : List String, (∀ n ∈ names, n ∈ l.interfaces) →
      List.Forall₂ (Alongside c t u) (names.filterMap v.named?)
        (names.filterMap v'.named?) := by
    intro names hnames
    induction names with
    | nil => exact .nil
    | cons name names ih =>
        rw [List.forall_mem_cons] at hnames
        rw [List.filterMap_cons, List.filterMap_cons]
        obtain ⟨_, _, hn, hn', hab⟩ | ⟨hn, hn'⟩ :=
          World.rel_cases
            (hfound name (mem_parents_of_interface hnames.1))
        · rw [hn, hn']
          exact .cons hab (ih hnames.2)
        · rw [hn, hn']
          exact ih hnames.2
  have hdd := hd.definition
  have hee := he.definition
  refine
    { name := (congrArg (·.name) hdd).trans (congrArg (·.name) hee).symm
      kind := (congrArg (·.kind) hdd).trans (congrArg (·.kind) hee).symm
      builtIn :=
        (congrArg (·.builtIn) hdd).trans (congrArg (·.builtIn) hee).symm
      isClosed :=
        (congrArg (·.isClosed) hdd).trans (congrArg (·.isClosed) hee).symm
      base := ?_
      interfaces := ?_
      parameters := hparameters }
  · rw [show d.base = l.base.find? v from congrArg (·.base) hdd,
      show e.base = l.base.find? v' from congrArg (·.base) hee]
    exact hbase
  · rw [show d.interfaces = l.interfaces.filterMap v.named? from
        congrArg (·.interfaces) hdd,
      show e.interfaces = l.interfaces.filterMap v'.named? from
        congrArg (·.interfaces) hee]
    exact hinterfaces l.interfaces fun _ hn => hn

/-- Tables that hold alike libraries correspond. -/
theorem matches_of_alike (ht : Holds c ls t) (hu : Holds c ms u)
    (w : c.WellFormed noneForeign) (halike : Alike ls ms) :
    t.Matches noneForeign (Alongside c t u) u := by
  have hparallel := parallel_of_alike ht hu halike w
  refine hparallel.matches fun {a b d e} hd he hname => ?_
  obtain ⟨l, v, v', hsource, hsource', hl⟩ :=
    sources_of_alike ht hu halike hd he hname
  exact matches_of_source hparallel hsource hsource'
    (hparallel.parameters_linked hd he hname) (halike.before hl)

end Program.LibraryType

end Verdicts
