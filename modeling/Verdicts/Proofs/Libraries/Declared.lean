import Mathlib.Data.List.Induction
import Verdicts.Program.Surface
import Verdicts.Proofs.Types.Persistence

/-!
# What declaring libraries leaves in a table

Library types are declared one after the other.  Of several with one name the
first counts, and its definition has those bases and interfaces that were there
before it.  This is all that a table shows of the order in which libraries were
declared.
-/

namespace Verdicts

namespace Table

variable {c t : Table} {h : Handle} {s : Shape}

/-- A definition that the second table has and the first has not. -/
structure Adds (c t : Table) (h : Handle) (d : Definition) : Prop where
  unknown : c.knows h = false
  shape : t.shape? h = some (.named d)

theorem shape?_withParameters_eq_some {ps : List (String × Constraints)}
    (hs : (t.withParameters ps).shape? h = some s) :
    t.shape? h = some s ∨ ∃ p ∈ ps, s = .parameter p.1 p.2 := by
  induction ps generalizing t with
  | nil => exact .inl hs
  | cons p ps ih =>
      rcases ih hs with hs | ⟨q, hq, heq⟩
      · obtain ⟨-, rfl⟩ | hs := shape?_push_eq_some hs
        · exact .inr ⟨p, List.mem_cons_self .., rfl⟩
        · exact .inl hs
      · exact .inr ⟨q, List.mem_cons_of_mem p hq, heq⟩

/-- A definition after a declaration is the declared one or was there before. -/
theorem definition_of_declare {d : Declaration} {e : Definition}
    (hs : (declare d t).2.shape? h = some (.named e)) :
    (t.named? d.name = none ∧ e = t.declared d) ∨
      t.shape? h = some (.named e) := by
  cases hh : t.named? d.name with
  | some k =>
      rw [declare_apply_of_named hh] at hs
      exact .inr hs
  | none =>
      rw [declare_apply_of_unnamed hh] at hs
      obtain ⟨-, heq⟩ | hs := shape?_push_eq_some hs
      · cases heq
        exact .inl ⟨rfl, rfl⟩
      · obtain hs | ⟨p, -, heq⟩ := shape?_withParameters_eq_some hs
        · exact .inr hs
        · cases heq

theorem builtIn?_declare {d : Declaration} (hd : d.builtIn = none) (t : Table)
    (b : BuiltIn) : (declare d t).2.builtIn? b = t.builtIn? b := by
  cases hh : t.named? d.name with
  | some k => rw [declare_apply_of_named hh]
  | none =>
      rw [declare_apply_of_unnamed hh, builtIn?_push_named,
        builtIn?_withParameters, declared, Declaration.definition, hd]
      rfl

theorem conversions_declare (d : Declaration) (t : Table) :
    (declare d t).2.conversions = t.conversions := by
  cases hh : t.named? d.name with
  | some k => rw [declare_apply_of_named hh]
  | none =>
      rw [declare_apply_of_unnamed hh, conversions_push,
        conversions_withParameters]

theorem named?_declare_of_named (d : Declaration) {name : String}
    (hh : t.named? name = some h) : (declare d t).2.named? name = some h := by
  rw [named?_declare]
  split
  · next heq =>
      rw [← heq] at hh
      rw [declare_apply_of_named hh]
  · exact hh

end Table

namespace Program.LibraryType

open Table

/-! ## Lists of library types -/

/-- The library type that counts for a name. -/
def first? (ls : List LibraryType) (name : String) : Option LibraryType :=
  ls.find? fun l => l.name = name

/-- The names that come before a name. -/
def before (ls : List LibraryType) (name : String) : List String :=
  (ls.takeWhile fun l => l.name ≠ name).map (·.name)

/-- The names of the types upon which a library type builds. -/
def parents (l : LibraryType) : List String :=
  (match l.base with
    | .named name => [name]
    | _ => []) ++ l.interfaces

section

variable {ls : List LibraryType} {l l' : LibraryType} {name : String}

theorem mem_parents_of_base (hb : l.base = .named name) : name ∈ l.parents := by
  simp [parents, hb]

theorem mem_parents_of_interface (hn : name ∈ l.interfaces) :
    name ∈ l.parents :=
  List.mem_append_right _ hn

theorem name_of_first? (hl : first? ls name = some l) : l.name = name := by
  simpa using List.find?_some hl

theorem isSome_first?_iff :
    (first? ls name).isSome = true ↔ name ∈ ls.map (·.name) := by
  simp [first?]

theorem first?_concat_of_some (hl : first? ls name = some l) :
    first? (ls ++ [l']) name = some l := by
  rw [first?, List.find?_append, ← first?, hl]
  rfl

theorem first?_concat_self (hnew : l.name ∉ ls.map (·.name)) :
    first? (ls ++ [l]) l.name = some l := by
  have hnone : first? ls l.name = none := by
    rwa [← isSome_first?_iff, Option.not_isSome_iff_eq_none] at hnew
  rw [first?, List.find?_append, ← first?, hnone]
  simp

theorem before_append_of_some (hl : first? ls name = some l)
    (ms : List LibraryType) : before (ls ++ ms) name = before ls name := by
  induction ls with
  | nil => cases hl
  | cons x ls ih =>
      by_cases hx : x.name = name
      · simp [before, hx]
      · have hrest : first? ls name = some l := by
          simpa [first?, List.find?_cons, hx] using hl
        have hcons : ∀ m : List LibraryType,
            before (x :: m) name = x.name :: before m name := by
          intro m
          simp [before, hx]
        rw [List.cons_append, hcons, hcons, ih hrest]

theorem mem_of_mem_before {earlier : String} (h : earlier ∈ before ls name) :
    earlier ∈ ls.map (·.name) :=
  List.map_subset _ (List.takeWhile_subset _) h

theorem before_concat_self (hnew : l.name ∉ ls.map (·.name)) :
    before (ls ++ [l]) l.name = ls.map (·.name) := by
  rw [before, List.takeWhile_append_of_pos]
  · simp
  · intro x hx
    rw [decide_eq_true_iff]
    intro heq
    exact hnew (heq ▸ List.mem_map_of_mem hx)

end

/-! ## Definitions that stem from libraries -/

variable {c t : Table} {ls : List LibraryType} {l : LibraryType}

/-- Where the definition of a library type comes from: its links were looked up
in a table that had, beyond the types of the origin, those with the earlier
names. -/
structure Source (c t : Table) (earlier : List String) (l : LibraryType)
    (d : Definition) (v : Table) : Prop where
  definition : d = (l.declaration v).definition d.parameters
  found : ∀ {name h}, v.named? name = some h → t.named? name = some h
  named : ∀ name, (v.named? name).isSome = true ↔
    (c.named? name).isSome = true ∨ name ∈ earlier
  builtIn : ∀ b, v.builtIn? b = c.builtIn? b
  fresh : ∀ p ∈ d.parameters, c.knows p = false
  parameters : List.Forall₂
    (fun p name => t.shape? p = some (.parameter name Constraints.none))
    d.parameters l.parameters

/-- The table is the origin together with the library types of a list. -/
structure Holds (c : Table) (ls : List LibraryType) (t : Table) : Prop where
  wellFormed : t.WellFormed noneForeign
  kept : ∀ {h s}, c.shape? h = some s → t.shape? h = some s
  named : ∀ name, (t.named? name).isSome = true ↔
    (c.named? name).isSome = true ∨ name ∈ ls.map (·.name)
  builtIn : ∀ b, t.builtIn? b = c.builtIn? b
  conversions : t.conversions = c.conversions
  added : ∀ {h d}, c.Adds t h d → ∃ l v,
    first? ls d.name = some l ∧ Source c t (before ls d.name) l d v

theorem Source.declare {earlier : List String} {d : Definition} {v : Table}
    (hs : Source c t earlier l d v) (e : Declaration) :
    Source c (Table.declare e t).2 earlier l d v where
  definition := hs.definition
  found hh := named?_declare_of_named e (hs.found hh)
  named := hs.named
  builtIn := hs.builtIn
  fresh := hs.fresh
  parameters := hs.parameters.imp fun _ _ hp => shape?_declare_of_shape? e hp

theorem Holds.knows (hold : Holds c ls t) {h : Handle}
    (hk : c.knows h = true) : t.knows h = true := by
  obtain ⟨s, hs⟩ := exists_shape?_of_knows hk
  exact knows_of_shape? (hold.kept hs)

theorem holds_nil (w : c.WellFormed noneForeign) : Holds c [] c where
  wellFormed := w
  kept hs := hs
  named name := by simp
  builtIn _ := rfl
  conversions := rfl
  added hd := by
    have hk := knows_of_shape? hd.shape
    rw [hd.unknown] at hk
    cases hk

/-- The declaration of a library type hands in what the table has. -/
theorem admits_handed (l : LibraryType) (t : Table) {h : Handle}
    (hh : h ∈ (l.declaration t).handed) : t.Admits noneForeign h := by
  simp only [Declaration.handed, declaration, List.mem_append,
    Option.mem_toList, List.mem_filterMap, List.mem_flatMap,
    List.mem_map] at hh
  rcases hh with (hh | ⟨name, -, hh⟩) | ⟨_, ⟨name, -, rfl⟩, hh⟩
  · cases hb : l.base with
    | none =>
        rw [hb] at hh
        cases hh
    | builtIn b =>
        rw [hb] at hh
        exact .inl (knows_of_builtIn? hh)
    | named name =>
        rw [hb] at hh
        exact .inl (knows_of_named? hh)
  · exact .inl (knows_of_named? hh)
  · cases hh

theorem isSome_named?_declare (l : LibraryType) (t : Table) (name : String) :
    ((l.declare t).2.named? name).isSome = true ↔
      (t.named? name).isSome = true ∨ name = l.name := by
  have hname : (l.declaration t).name = l.name := rfl
  rw [declare, bind_apply, get_apply, named?_declare, hname]
  split
  · next heq => simp [heq]
  · next hne => simp [Ne.symm hne]

/-- The source of a definition that has just been declared. -/
theorem Holds.source (hold : Holds c ls t)
    (hnew : t.named? l.name = none) :
    Source c (l.declare t).2 (ls.map (·.name)) l
      (t.declared (l.declaration t)) t where
  definition := rfl
  found hh := named?_declare_of_named _ hh
  named := hold.named
  builtIn := hold.builtIn
  fresh p hp := by
    cases hk : c.knows p with
    | false => rfl
    | true => rw [← hold.knows hk, knows_of_mem_upcoming hp]
  parameters := by
    have hshape := t.shape?_upcoming (l.declaration t).parameters
    have hnew' : t.named? (l.declaration t).name = none := hnew
    change List.Forall₂ _ (t.upcoming _) _
    rw [declare, bind_apply, get_apply, declare_apply_of_unnamed hnew']
    rw [declaration, List.forall₂_map_right_iff] at hshape
    exact hshape.imp fun _ _ hp => shape?_push_of_shape? hp

theorem Holds.concat (hold : Holds c ls t) (l : LibraryType) :
    Holds c (ls ++ [l]) (l.declare t).2 where
  wellFormed := hold.wellFormed.declare fun h hh => l.admits_handed t hh
  kept hs := shape?_declare_of_shape? _ (hold.kept hs)
  named name := by
    rw [isSome_named?_declare, hold.named, List.map_append, List.mem_append,
      ← or_assoc, List.map_singleton, List.mem_singleton]
  builtIn b := (builtIn?_declare rfl t b).trans (hold.builtIn b)
  conversions := (conversions_declare _ t).trans hold.conversions
  added {h d} hd := by
    obtain ⟨hnew, rfl⟩ | hs := definition_of_declare hd.shape
    · have hmem : l.name ∉ ls.map (·.name) := by
        intro hmem
        have hsome := (hold.named l.name).mpr (.inr hmem)
        rw [show t.named? l.name = none from hnew] at hsome
        cases hsome
      refine ⟨l, t, first?_concat_self hmem, ?_⟩
      have hsource := hold.source hnew
      rwa [← before_concat_self hmem] at hsource
    · obtain ⟨l', v, hl', hsource⟩ := hold.added ⟨hd.unknown, hs⟩
      refine ⟨l', v, first?_concat_of_some hl', ?_⟩
      rw [before_append_of_some hl']
      exact hsource.declare _

/-- The table once library types are declared one after the other. -/
def declareAll (c : Table) (ls : List LibraryType) : Table :=
  ls.foldl (fun t l => (l.declare t).2) c

theorem isSome_named?_declareAll (t : Table) (ls : List LibraryType)
    (name : String) :
    ((declareAll t ls).named? name).isSome = true ↔
      (t.named? name).isSome = true ∨ name ∈ ls.map (·.name) := by
  induction ls generalizing t with
  | nil => simp [declareAll]
  | cons l ls ih =>
      refine (ih (l.declare t).2).trans ?_
      rw [isSome_named?_declare, List.map_cons, List.mem_cons, or_assoc]

theorem named?_declareAll_of_named {t : Table} {name : String} {h : Handle}
    (ls : List LibraryType) (hh : t.named? name = some h) :
    (declareAll t ls).named? name = some h := by
  induction ls generalizing t with
  | nil => exact hh
  | cons l ls ih => exact ih (named?_declare_of_named _ hh)

theorem holds_declareAll (w : c.WellFormed noneForeign)
    (ls : List LibraryType) : Holds c ls (declareAll c ls) := by
  induction ls using List.reverseRecOn with
  | nil => exact holds_nil w
  | append_singleton ls l ih =>
      rw [declareAll, List.foldl_concat]
      exact ih.concat l

end Program.LibraryType

end Verdicts
