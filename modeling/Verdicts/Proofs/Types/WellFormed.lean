import Mathlib.Data.List.Nodup
import Mathlib.Tactic.ByContra
import Verdicts.Proofs.Types.Intern
import Verdicts.Proofs.Types.Interning

/-!
# Well-formed tables

A table may be handed handles that it never gives out itself; they are called
foreign to it.  In a well-formed table every part of a type is older than the
type or foreign, no structure and no name is stored twice, no definition is
applied to its own parameters, and the parameters of a definition are stored
right before it.

Storing a shape keeps a table well-formed when the shape is made of handles that
the table admits and is not there yet.
-/

namespace Verdicts

namespace Shape

/-- The handles of which a shape is made, and will be made for good. -/
def parts : Shape → List Handle
  | .named d => d.parameters
  | .array element => [element]
  | .constructed definition arguments => definition :: arguments
  | .parameter _ c => c.types
  | .other _ _ => []

/-- The handles to which a shape is linked for the time being. -/
def links : Shape → List Handle
  | .named d => d.base.toList ++ d.interfaces
  | _ => []

end Shape

/-- No handle is foreign. -/
abbrev noneForeign : Handle → Prop := fun _ => False

namespace Table

variable {foreign : Handle → Prop} {t u : Table} {h k : Handle} {s : Shape}

/-- The handle is one of the table's own or foreign to it. -/
def Admits (foreign : Handle → Prop) (t : Table) (h : Handle) : Prop :=
  t.knows h = true ∨ foreign h

/-- No foreign handle has been given out. -/
def Avoids (foreign : Handle → Prop) (t : Table) : Prop :=
  ∀ h, foreign h → t.knows h = false

/-- The parameters of a definition stand right before it, in order. -/
structure OwnsParameters (t : Table) (h : Handle) (d : Definition) : Prop where
  placed : d.parameters =
    (List.range' (h.index - d.parameters.length) d.parameters.length).map
      Handle.mk
  below : d.parameters.length < h.index
  parameter : ∀ p ∈ d.parameters, ∃ name c,
    t.shape? p = some (.parameter name c)

/-- What holds of a table that is only handed its own and foreign handles. -/
structure WellFormed (foreign : Handle → Prop) (t : Table) : Prop where
  older : ∀ {h s c}, t.shape? h = some s → c ∈ s.parts →
    (t.knows c = true ∧ c.index < h.index) ∨ foreign c
  linked : ∀ {h s c}, t.shape? h = some s → c ∈ s.links →
    t.Admits foreign c
  interned : ∀ {a b s}, s.isStructural = true →
    t.shape? a = some s → t.shape? b = some s → a = b
  nominal : ∀ {a b d e}, t.shape? a = some (.named d) →
    t.shape? b = some (.named e) → d.name = e.name → a = b
  uncollapsed : ∀ {h definition arguments d},
    t.shape? h = some (.constructed definition arguments) →
    t.shape? definition = some (.named d) →
    d.parameters ≠ arguments ∨ foreign definition
  owned : ∀ {h d}, t.shape? h = some (.named d) → t.OwnsParameters h d
  converting : ∀ {a b implicit}, ((a, b), implicit) ∈ t.conversions →
    t.Admits foreign a ∧ t.Admits foreign b

/-! ## Admitted handles -/

theorem GrowsTo.admits (g : t.GrowsTo u) (ha : t.Admits foreign h) :
    u.Admits foreign h :=
  ha.imp_left g.knows

theorem GrowsTo.avoids (g : t.GrowsTo u) (ha : u.Avoids foreign) :
    t.Avoids foreign := by
  intro h hh
  cases hk : t.knows h with
  | false => rfl
  | true => rw [← g.knows hk, ha h hh]

theorem knows_push_iff :
    (t.push s).knows h = true ↔ h = t.fresh ∨ t.knows h = true := by
  rw [knows, shape?_push]
  split
  · next heq => simp [heq]
  · next hne => simp [hne, knows]

theorem knows_push (s : Shape) (hk : t.knows h = true) :
    (t.push s).knows h = true :=
  knows_push_iff.mpr (.inr hk)

theorem Admits.push (s : Shape) (ha : t.Admits foreign h) :
    (t.push s).Admits foreign h :=
  ha.imp_left (knows_push s)

theorem index_lt_fresh (hk : t.knows h = true) : h.index < t.fresh.index := by
  have := (knows_iff.mp hk).2
  simp only [fresh]
  omega

theorem Avoids.of_push (ha : (t.push s).Avoids foreign) : t.Avoids foreign := by
  intro h hh
  cases hk : t.knows h with
  | false => rfl
  | true => rw [← knows_push s hk, ha h hh]

/-- The handle zero is never given out. -/
theorem avoids_zero (t : Table) : t.Avoids fun h => h.index = 0 := by
  rintro ⟨_ | n⟩ hh
  · rfl
  · cases hh

theorem avoids_noneForeign (t : Table) : t.Avoids noneForeign :=
  fun _ hh => hh.elim

theorem knows_of_admits (ha : t.Admits noneForeign h) : t.knows h = true :=
  ha.resolve_right id

theorem knows_of_named? {name : String} (hh : t.named? name = some h) :
    t.knows h = true := by
  obtain ⟨d, hd, -⟩ := definition?_of_named? hh
  exact knows_of_shape? hd

theorem knows_of_builtIn? {b : BuiltIn} (hh : t.builtIn? b = some h) :
    t.knows h = true := by
  obtain ⟨d, hd, -⟩ := definition?_of_builtIn? hh
  exact knows_of_shape? hd

/-! ## Consequences -/

namespace WellFormed

variable (w : t.WellFormed foreign)
include w

/-- Every handle in a stored shape is admitted. -/
theorem admits_part {c : Handle} (hs : t.shape? h = some s) (hc : c ∈ s.parts) :
    t.Admits foreign c :=
  (w.older hs hc).imp_left And.left

/-- A definition is what its name finds. -/
theorem named?_of_definition {d : Definition} (hd : t.shape? h = some (.named d)) :
    t.named? d.name = some h := by
  apply newest?_eq_some_of_unique hd
  · simp
  · intro k s hs hname
    cases s with
    | named e => exact w.nominal hs hd (by simpa using hname)
    | array | constructed | parameter | other => simp at hname

theorem stored?_of_shape? (hstr : s.isStructural = true)
    (hs : t.shape? h = some s) : t.stored? s = some h := by
  apply newest?_eq_some_of_unique hs
  · simp
  · intro k s' hk hs'
    rw [beq_iff_eq.mp hs'] at hk
    exact w.interned hstr hk hs

/-- A parameter belongs to one definition only. -/
theorem owner_unique {d e : Definition} {p : Handle}
    (hd : t.shape? h = some (.named d)) (he : t.shape? k = some (.named e))
    (hpd : p ∈ d.parameters) (hpe : p ∈ e.parameters) : h = k := by
  -- A definition never stands between another one and its parameters.
  have houtside : ∀ {h k : Handle} {d e : Definition},
      t.shape? h = some (.named d) → t.shape? k = some (.named e) →
      k.index < h.index → k.index < h.index - d.parameters.length := by
    intro h k d e hd he hlt
    by_contra hge
    have hown := w.owned hd
    have hbelow := hown.below
    have hk : k ∈ d.parameters := by
      rw [hown.placed, List.mem_map]
      refine ⟨k.index, ?_, rfl⟩
      rw [List.mem_range'_1]
      omega
    obtain ⟨name, c, hpar⟩ := hown.parameter k hk
    rw [he] at hpar
    cases hpar
  have hrange : ∀ {h : Handle} {d : Definition},
      t.shape? h = some (.named d) → p ∈ d.parameters →
      h.index - d.parameters.length ≤ p.index ∧ p.index < h.index := by
    intro h d hd hp
    have hown := w.owned hd
    have hbelow := hown.below
    rw [hown.placed, List.mem_map] at hp
    obtain ⟨i, hi, rfl⟩ := hp
    rw [List.mem_range'_1] at hi
    simp only
    omega
  have hpd' := hrange hd hpd
  have hpe' := hrange he hpe
  rcases Nat.lt_trichotomy h.index k.index with hlt | heq | hgt
  · have := houtside he hd hlt
    omega
  · obtain ⟨i⟩ := h
    obtain ⟨j⟩ := k
    simp only at heq
    rw [heq]
  · have := houtside hd he hgt
    omega

theorem parameters_nodup {d : Definition} (hd : t.shape? h = some (.named d)) :
    d.parameters.Nodup := by
  rw [(w.owned hd).placed]
  apply List.Nodup.map
  · intro a b hab
    exact Handle.mk.inj hab
  · exact List.nodup_range'

end WellFormed

end Table

end Verdicts
