import Verdicts.Proofs.Libraries.Declared
import Verdicts.Proofs.Types.Reachable

/-!
# Enriching a table

Whatever a host does to a table adds to what the table says about types, unless
it replaces a base or declares another type for a built-in one.  An enriched
table says all that it said before: a definition may have more interfaces, and
every other shape is as it was.
-/

namespace Verdicts

open Program.LibraryType (declareAll)

/-- The second shape is the first one, with more interfaces if that is a
definition. -/
inductive Shape.EnrichedTo : Shape → Shape → Prop where
  | same (s : Shape) : EnrichedTo s s
  | interfaces {d : Definition} {interfaces : List Handle}
      (h : d.interfaces ⊆ interfaces) :
      EnrichedTo (.named d) (.named { d with interfaces := interfaces })

namespace Shape.EnrichedTo

variable {s s' s'' : Shape}

theorem unlinked_eq (h : s.EnrichedTo s') : s'.unlinked = s.unlinked := by
  cases h with
  | same | interfaces => rfl

theorem trans (h : s.EnrichedTo s') (h' : s'.EnrichedTo s'') :
    s.EnrichedTo s'' := by
  cases h with
  | same => exact h'
  | interfaces hsubset =>
      cases h' with
      | same => exact .interfaces hsubset
      | interfaces hsubset' => exact .interfaces (List.Subset.trans hsubset hsubset')

end Shape.EnrichedTo

namespace Table

variable {foreign : Handle → Prop} {t u v : Table} {a h : Handle} {s : Shape}

/-- The second table says all that the first one does, and has no other built-in
types. -/
structure EnrichedTo (t u : Table) : Prop where
  shape : ∀ {h s}, t.shape? h = some s →
    ∃ s', u.shape? h = some s' ∧ s.EnrichedTo s'
  builtIn : ∀ b, u.builtIn? b = t.builtIn? b

namespace EnrichedTo

theorem of_shape? (hs : ∀ {h s}, t.shape? h = some s → u.shape? h = some s)
    (hb : ∀ b, u.builtIn? b = t.builtIn? b) : t.EnrichedTo u :=
  ⟨fun h => ⟨_, hs h, .same _⟩, hb⟩

theorem refl (t : Table) : t.EnrichedTo t :=
  .of_shape? id fun _ => rfl

theorem trans (e : t.EnrichedTo u) (e' : u.EnrichedTo v) : t.EnrichedTo v where
  shape hs := by
    obtain ⟨s', hs', h⟩ := e.shape hs
    obtain ⟨s'', hs'', h'⟩ := e'.shape hs'
    exact ⟨s'', hs'', h.trans h'⟩
  builtIn b := (e'.builtIn b).trans (e.builtIn b)

theorem persistsIn (e : t.EnrichedTo u) : t.PersistsIn u := by
  intro h s hs
  obtain ⟨s', hs', henriched⟩ := e.shape hs
  exact ⟨s', hs', henriched.unlinked_eq⟩

/-- A definition keeps all but its interfaces, of which it has no fewer. -/
theorem definition (e : t.EnrichedTo u) {d : Definition}
    (hd : t.shape? h = some (.named d)) :
    ∃ interfaces, d.interfaces ⊆ interfaces ∧
      u.shape? h = some (.named { d with interfaces := interfaces }) := by
  obtain ⟨s', hs', henriched⟩ := e.shape hd
  cases henriched with
  | same => exact ⟨d.interfaces, List.Subset.refl _, hs'⟩
  | interfaces hsubset => exact ⟨_, hsubset, hs'⟩

end EnrichedTo

/-! ## Operations that enrich -/

theorem GrowsTo.enrichedTo (g : t.GrowsTo u) : t.EnrichedTo u :=
  .of_shape? g.shape?_of_some g.builtIn?_eq

theorem enrichedTo_push (t : Table) (hs : ∀ d, s ≠ .named d) :
    t.EnrichedTo (t.push s) :=
  .of_shape? shape?_push_of_shape? fun b => builtIn?_push_of_not_named b hs

theorem enrichedTo_declare {d : Declaration} (hd : d.builtIn = none)
    (t : Table) : t.EnrichedTo (declare d t).2 :=
  .of_shape? (shape?_declare_of_shape? d) (builtIn?_declare hd t)

theorem enrichedTo_addInterface (h interface : Handle) (t : Table) :
    t.EnrichedTo (addInterface h interface t).2 where
  shape {k s} hs := by
    change ∃ s', (t.redefined h _).shape? k = some s' ∧ _
    rw [shape?_redefined, hs]
    split
    · refine ⟨_, rfl, ?_⟩
      cases s with
      | named d =>
          rw [Shape.changed]
          split
          · exact .same _
          · exact .interfaces (List.subset_append_left _ _)
      | array | constructed | parameter | other => exact .same _
    · exact ⟨s, rfl, .same s⟩
  builtIn := (relinks_addInterface interface).builtIn?_redefined t h

namespace Operation

/-- Whether an operation only adds to what a table says. -/
def isAdditive : Operation → Bool
  | .setBase _ _ => false
  | .declare d | .declareUnder _ d => d.builtIn.isNone
  | _ => true

theorem enrichedTo_run {op : Operation} (hop : op.isAdditive = true)
    (t : Table) : t.EnrichedTo (op.run t).2 := by
  cases hq : op.isQuery with
  | true => exact (interns_run hq t).enrichedTo
  | false =>
      cases op with
      | declare d => exact enrichedTo_declare (Option.isNone_iff_eq_none.mp hop) t
      | declareUnder b d =>
          exact enrichedTo_declare (d := { d with base := t.builtIn? b })
            (Option.isNone_iff_eq_none.mp hop) t
      | parameter name c => exact enrichedTo_push t (by simp)
      | other name kind => exact enrichedTo_push t (by simp)
      | setBase => cases hop
      | addInterface h interface => exact enrichedTo_addInterface h interface t
      | addConversion source destination implicit =>
          exact .of_shape? id (builtIn?_addConversion source destination implicit t)
      | named | builtIn | arrayOf | construct | nullableOf | assignable
        | conversion | resolve => cases hq

end Operation

/-- Libraries declare no built-in types. -/
theorem enrichedTo_declareAll (ls : List Program.LibraryType) (t : Table) :
    t.EnrichedTo (declareAll t ls) := by
  induction ls generalizing t with
  | nil => exact .refl t
  | cons l ls ih =>
      exact (enrichedTo_declare (d := l.declaration t) rfl t).trans (ih _)

/-! ## What a handle keeps -/

namespace EnrichedTo

section

variable (e : t.EnrichedTo u) (hu : u.Avoids foreign) (ha : t.Admits foreign a)
include e hu ha

theorem shape?_cases : u.shape? a = t.shape? a ∨
    ∃ d interfaces, t.shape? a = some (.named d) ∧
      u.shape? a = some (.named { d with interfaces := interfaces }) := by
  rcases ha with hk | hforeign
  · obtain ⟨s, hs⟩ := exists_shape?_of_knows hk
    obtain ⟨s', hs', henriched⟩ := e.shape hs
    cases henriched with
    | same => exact .inl (hs'.trans hs.symm)
    | interfaces => exact .inr ⟨_, _, hs, hs'⟩
  · rw [knows_eq_false_iff.mp (hu a hforeign),
      knows_eq_false_iff.mp (e.persistsIn.avoids hu a hforeign)]
    exact .inl rfl

theorem element?_eq : u.element? a = t.element? a := by
  rcases e.shape?_cases hu ha with heq | ⟨d, interfaces, hs, hs'⟩
  · rw [element?, element?, heq]
  · rw [element?, element?, hs, hs']

theorem tag?_eq : u.tag? a = t.tag? a := by
  rcases e.shape?_cases hu ha with heq | ⟨d, interfaces, hs, hs'⟩
  · rw [tag?, tag?, definition?, definition?, heq]
  · rw [tag?, tag?, definition?, definition?, hs, hs']
    rfl

theorem constraints?_eq : u.constraints? a = t.constraints? a := by
  rcases e.shape?_cases hu ha with heq | ⟨d, interfaces, hs, hs'⟩
  · rw [constraints?, constraints?, heq]
  · rw [constraints?, constraints?, hs, hs']

theorem arguments_eq : u.arguments a = t.arguments a := by
  rcases e.shape?_cases hu ha with heq | ⟨d, interfaces, hs, hs'⟩
  · rw [arguments, arguments, heq]
  · rw [arguments, arguments, hs, hs']

theorem genericDefinition_eq :
    u.genericDefinition a = t.genericDefinition a := by
  rcases e.shape?_cases hu ha with heq | ⟨d, interfaces, hs, hs'⟩
  · rw [genericDefinition, genericDefinition, heq]
  · rw [genericDefinition, genericDefinition, hs, hs']

end

section

variable (e : t.EnrichedTo u) (w : t.WellFormed foreign)
  (wu : u.WellFormed foreign) (hu : u.Avoids foreign)
include e w wu hu

theorem head_eq (ha : t.Admits foreign a) :
    u.head a = t.head a ∧ t.Admits foreign (t.head a) := by
  induction hn : a.index using Nat.strongRecOn generalizing a with
  | ind n ih =>
      subst hn
      by_cases hc : ∃ d as, t.shape? a = some (.constructed d as)
      · obtain ⟨d, as, hs⟩ := hc
        have hs' := e.persistsIn.shape?_of_some hs (by simp)
        rw [head_of_constructed w (e.persistsIn.avoids hu) hs,
          head_of_constructed wu hu hs']
        rcases w.older hs (List.mem_cons_self ..) with ⟨hk, hlt⟩ | hforeign
        · exact ih d.index hlt (.inl hk) rfl
        · have hd := knows_eq_false_iff.mp (e.persistsIn.avoids hu d hforeign)
          have hd' := knows_eq_false_iff.mp (hu d hforeign)
          rw [head_of_not_constructed (t := t) (by simp [hd]),
            head_of_not_constructed (t := u) (by simp [hd'])]
          exact ⟨rfl, .inr hforeign⟩
      · have hs : ∀ d as, t.shape? a ≠ some (.constructed d as) :=
          fun d as hs => hc ⟨d, as, hs⟩
        have hs' : ∀ d as, u.shape? a ≠ some (.constructed d as) := by
          intro d as heq
          rcases e.shape?_cases hu ha with hsame | ⟨d', interfaces, -, hs'⟩
          · exact hs d as (hsame.symm.trans heq)
          · cases hs'.symm.trans heq
        rw [head_of_not_constructed hs, head_of_not_constructed hs']
        exact ⟨rfl, ha⟩

theorem kind_eq (ha : t.Admits foreign a) : u.kind a = t.kind a := by
  obtain ⟨hhead, ha⟩ := e.head_eq w wu hu ha
  rw [kind, kind, hhead]
  rcases e.shape?_cases hu ha with heq | ⟨d, interfaces, hs, hs'⟩
  · rw [heq]
  · rw [hs, hs']

theorem isClosed_eq (ha : t.Admits foreign a) :
    u.isClosed a = t.isClosed a := by
  obtain ⟨hhead, ha⟩ := e.head_eq w wu hu ha
  rw [isClosed, isClosed, hhead]
  rcases e.shape?_cases hu ha with heq | ⟨d, interfaces, hs, hs'⟩
  · rw [heq]
  · rw [hs, hs']

end

end EnrichedTo

end Table

end Verdicts
