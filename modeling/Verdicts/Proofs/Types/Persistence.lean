import Verdicts.Proofs.Types.Declaring
import Verdicts.Proofs.Types.Interning

/-!
# What a table keeps

Whatever is done to a table, a handle keeps the shape it was given out for; only
the base and the interfaces of a definition may change.

Unless types are declared, names go on to name what they named, and what is not
a name's type stays so: the table is then called steady.
-/

namespace Verdicts

/-- A shape without the links that may still change. -/
def Shape.unlinked : Shape → Shape
  | .named d => .named { d with base := none, interfaces := [] }
  | s => s

namespace Shape

variable {s s' : Shape} {d e : Definition}

theorem unlinked_of_not_named (hs : ∀ d, s ≠ .named d) : s.unlinked = s := by
  cases s with
  | named d => exact absurd rfl (hs d)
  | array | constructed | parameter | other => rfl

/-- A shape that is no definition is kept as it is. -/
theorem eq_of_unlinked_eq (heq : s'.unlinked = s.unlinked)
    (hs : ∀ d, s ≠ .named d) : s' = s := by
  rw [unlinked_of_not_named hs] at heq
  cases s' with
  | named d => exact absurd heq.symm (hs _)
  | array | constructed | parameter | other => exact heq

theorem exists_definition_of_unlinked_eq
    (heq : s.unlinked = (Shape.named d).unlinked) :
    ∃ e, s = .named e ∧ e.name = d.name ∧ e.builtIn = d.builtIn ∧
      e.parameters = d.parameters := by
  cases s with
  | named e =>
      simp only [unlinked, named.injEq, Definition.mk.injEq] at heq
      exact ⟨e, rfl, heq.1, heq.2.2.1, heq.2.2.2.2.2.2⟩
  | array | constructed | parameter | other => cases heq

theorem unlinked_changed {change : Definition → Definition}
    (hchange : Table.Relinks change) (s : Shape) :
    (s.changed change).unlinked = s.unlinked := by
  cases s with
  | named d =>
      simp only [changed, unlinked, hchange.name, hchange.kind,
        hchange.builtIn, hchange.isClosed, hchange.parameters]
  | array | constructed | parameter | other => rfl

end Shape

namespace Table

variable {foreign : Handle → Prop} {t u v : Table} {h : Handle} {s : Shape}

/-- Every handle of the first table has its shape in the second one, up to
links. -/
def PersistsIn (t u : Table) : Prop :=
  ∀ ⦃h s⦄, t.shape? h = some s →
    ∃ s', u.shape? h = some s' ∧ s'.unlinked = s.unlinked

namespace PersistsIn

theorem refl (t : Table) : t.PersistsIn t :=
  fun _ _ hs => ⟨_, hs, rfl⟩

theorem trans (p : t.PersistsIn u) (q : u.PersistsIn v) : t.PersistsIn v := by
  intro h s hs
  obtain ⟨s', hs', heq⟩ := p hs
  obtain ⟨s'', hs'', heq'⟩ := q hs'
  exact ⟨s'', hs'', heq'.trans heq⟩

theorem of_shape? (h : ∀ {k s}, t.shape? k = some s → u.shape? k = some s) :
    t.PersistsIn u :=
  fun _ _ hs => ⟨_, h hs, rfl⟩

theorem knows (p : t.PersistsIn u) (hk : t.knows h = true) :
    u.knows h = true := by
  obtain ⟨s, hs⟩ := exists_shape?_of_knows hk
  obtain ⟨s', hs', -⟩ := p hs
  exact knows_of_shape? hs'

theorem admits (p : t.PersistsIn u) (ha : t.Admits foreign h) :
    u.Admits foreign h :=
  ha.imp_left p.knows

theorem avoids (p : t.PersistsIn u) (ha : u.Avoids foreign) :
    t.Avoids foreign := by
  intro h hh
  cases hk : t.knows h with
  | false => rfl
  | true => rw [← p.knows hk, ha h hh]

theorem shape?_of_some (p : t.PersistsIn u) (hs : t.shape? h = some s)
    (hnot : ∀ d, s ≠ .named d) : u.shape? h = some s := by
  obtain ⟨s', hs', heq⟩ := p hs
  rw [hs', Shape.eq_of_unlinked_eq heq hnot]

theorem definition (p : t.PersistsIn u) {d : Definition}
    (hd : t.shape? h = some (.named d)) :
    ∃ e, u.shape? h = some (.named e) ∧ e.name = d.name ∧
      e.builtIn = d.builtIn ∧ e.parameters = d.parameters := by
  obtain ⟨s', hs', heq⟩ := p hd
  obtain ⟨e, rfl, he⟩ := Shape.exists_definition_of_unlinked_eq heq
  exact ⟨e, hs', he⟩

theorem tag?_eq (p : t.PersistsIn u) (hk : t.knows h = true) :
    u.tag? h = t.tag? h := by
  obtain ⟨s, hs⟩ := exists_shape?_of_knows hk
  cases s with
  | named d =>
      obtain ⟨e, he, -, hbuiltIn, -⟩ := p.definition hs
      rw [tag?, tag?, definition?_eq_some_iff.mpr hs,
        definition?_eq_some_iff.mpr he]
      exact hbuiltIn
  | array | constructed | parameter | other =>
      have hs' := p.shape?_of_some hs (by simp)
      rw [tag?, tag?, definition?, definition?, hs, hs']

/-- A type keeps its type arguments or parameters. -/
theorem arguments_eq (p : t.PersistsIn u) (hk : t.knows h = true) :
    u.arguments h = t.arguments h := by
  obtain ⟨s, hs⟩ := exists_shape?_of_knows hk
  cases s with
  | named d =>
      obtain ⟨e, he, -, -, hparameters⟩ := p.definition hs
      rw [arguments, arguments, hs, he]
      exact hparameters
  | array | constructed | parameter | other =>
      rw [arguments, arguments, hs, p.shape?_of_some hs (by simp)]

/-- What stands for a built-in type stays so, if not as the newest. -/
theorem exists_builtIn? (p : t.PersistsIn u) {b : BuiltIn}
    (hh : t.builtIn? b = some h) : ∃ k, u.builtIn? b = some k := by
  obtain ⟨d, hd, hb⟩ := definition?_of_builtIn? hh
  obtain ⟨e, he, -, hbuiltIn, -⟩ := p.definition hd
  rw [← Option.isSome_iff_exists, ← Option.ne_none_iff_isSome]
  intro hnone
  have hnot := newest?_eq_none_iff.mp hnone _ _ he
  simp [hbuiltIn, hb] at hnot

/-- The underlying type of a nullable type stays, and no type becomes
nullable. -/
theorem nullableUnderlying?_eq (p : t.PersistsIn u)
    (w : t.WellFormed foreign) (hu : u.Avoids foreign)
    (ha : t.Admits foreign h) :
    u.nullableUnderlying? h = t.nullableUnderlying? h := by
  rcases ha with hk | hforeign
  · obtain ⟨s, hs⟩ := exists_shape?_of_knows hk
    cases s with
    | constructed definition arguments =>
        have htag : u.tag? definition = t.tag? definition := by
          rcases w.admits_part hs (List.mem_cons_self ..) with hk | hforeign
          · exact p.tag?_eq hk
          · have hnone := knows_eq_false_iff.mp (hu _ hforeign)
            have hnone' := knows_eq_false_iff.mp (p.avoids hu _ hforeign)
            rw [tag?, tag?, definition?, definition?, hnone, hnone']
        rw [nullableUnderlying?, nullableUnderlying?, hs,
          p.shape?_of_some hs (by simp)]
        simp only [htag]
    | named d =>
        obtain ⟨e, he, -⟩ := p.definition hs
        rw [nullableUnderlying?, nullableUnderlying?, hs, he]
    | array | parameter | other =>
        rw [nullableUnderlying?, nullableUnderlying?, hs,
          p.shape?_of_some hs (by simp)]
  · rw [nullableUnderlying?, nullableUnderlying?,
      knows_eq_false_iff.mp (hu h hforeign),
      knows_eq_false_iff.mp (p.avoids hu h hforeign)]

/-- A name that was found once names the same type for good. -/
theorem named? (p : t.PersistsIn u) (w : u.WellFormed foreign) {name : String}
    (hh : t.named? name = some h) : u.named? name = some h := by
  obtain ⟨d, hd, rfl⟩ := definition?_of_named? hh
  obtain ⟨e, he, hname, -⟩ := p.definition hd
  rw [← hname]
  exact w.named?_of_definition he

end PersistsIn

theorem GrowsTo.persistsIn (g : t.GrowsTo u) : t.PersistsIn u :=
  .of_shape? g.shape?_of_some

theorem persistsIn_push (t : Table) (s : Shape) : t.PersistsIn (t.push s) :=
  .of_shape? shape?_push_of_shape?

theorem persistsIn_declare (t : Table) (d : Declaration) :
    t.PersistsIn (declare d t).2 :=
  .of_shape? (shape?_declare_of_shape? d)

theorem persistsIn_redefined {change : Definition → Definition}
    (hchange : Relinks change) (t : Table) (h : Handle) :
    t.PersistsIn (t.redefined h change) := by
  intro k s hs
  rw [shape?_redefined, hs]
  split
  · exact ⟨s.changed change, rfl, Shape.unlinked_changed hchange s⟩
  · exact ⟨s, rfl, rfl⟩

theorem persistsIn_addConversion (source destination : Handle)
    (implicit : Bool) (t : Table) :
    t.PersistsIn (addConversion source destination implicit t).2 :=
  .of_shape? fun hs =>
    (shape?_addConversion source destination implicit t _).trans hs

/-! ## Steady tables -/

/-- The second table has the first one's shapes, up to links, and no types with
names of their own besides. -/
structure Steady (t u : Table) : Prop where
  persists : t.PersistsIn u
  named : ∀ name, u.named? name = t.named? name
  builtIn : ∀ b, u.builtIn? b = t.builtIn? b
  definition : ∀ {h e}, u.shape? h = some (.named e) →
    ∃ d, t.shape? h = some (.named d) ∧ d.kind = e.kind

namespace Steady

theorem refl (t : Table) : t.Steady t where
  persists := .refl t
  named _ := rfl
  builtIn _ := rfl
  definition he := ⟨_, he, rfl⟩

theorem trans (q : t.Steady u) (q' : u.Steady v) : t.Steady v where
  persists := q.persists.trans q'.persists
  named name := (q'.named name).trans (q.named name)
  builtIn b := (q'.builtIn b).trans (q.builtIn b)
  definition he := by
    obtain ⟨d, hd, hkind⟩ := q'.definition he
    obtain ⟨d', hd', hkind'⟩ := q.definition hd
    exact ⟨d', hd', hkind'.trans hkind⟩

theorem shape?_of_some (q : t.Steady u) (hs : t.shape? h = some s)
    (hnot : ∀ d, s ≠ .named d) : u.shape? h = some s :=
  q.persists.shape?_of_some hs hnot

/-- A definition has the same parameters before and after. -/
theorem ownsAll_eq (q : t.Steady u) (d : Handle) (as : List Handle) :
    u.ownsAll d as = t.ownsAll d as := by
  rw [Bool.eq_iff_iff, ownsAll_iff, ownsAll_iff]
  constructor
  · rintro ⟨e, he, heq⟩
    obtain ⟨e', he', -⟩ := q.definition he
    obtain ⟨e'', he'', -, -, hparameters⟩ := q.persists.definition he'
    cases he.symm.trans he''
    exact ⟨e', he', hparameters.symm.trans heq⟩
  · rintro ⟨e, he, heq⟩
    obtain ⟨e', he', -, -, hparameters⟩ := q.persists.definition he
    exact ⟨e', he', hparameters.trans heq⟩

end Steady

theorem GrowsTo.steady (g : t.GrowsTo u) : t.Steady u where
  persists := g.persistsIn
  named := g.named?_eq
  builtIn := g.builtIn?_eq
  definition {h e} he := by
    cases hk : t.knows h with
    | true => exact ⟨e, (g.shape hk).symm.trans he, rfl⟩
    | false => cases g.structural hk he

theorem steady_redefined {change : Definition → Definition}
    (hchange : Relinks change) (t : Table) (h : Handle) :
    t.Steady (t.redefined h change) where
  persists := persistsIn_redefined hchange t h
  named := hchange.named?_redefined t h
  builtIn := hchange.builtIn?_redefined t h
  definition {k e} he := by
    obtain ⟨-, s, hs, heq⟩ | hs := shape?_redefined_eq_some he
    · cases s with
      | named d =>
          cases heq
          exact ⟨d, hs, (hchange.kind d).symm⟩
      | array | constructed | parameter | other => cases heq
    · exact ⟨e, hs, rfl⟩

theorem steady_addConversion (source destination : Handle) (implicit : Bool)
    (t : Table) : t.Steady (addConversion source destination implicit t).2 where
  persists := persistsIn_addConversion source destination implicit t
  named := named?_addConversion source destination implicit t
  builtIn := builtIn?_addConversion source destination implicit t
  definition {h e} he := by
    rw [shape?_addConversion] at he
    exact ⟨e, he, rfl⟩

end Table

end Verdicts
