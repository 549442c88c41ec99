import Verdicts.Proofs.Types.Reachable

/-!
# Structural equality is handle equality

In a reachable table each array, each constructed type and each name has one
handle, which every later question for it answers again.
-/

namespace Verdicts

variable {foreign : Handle → Prop} {t u v : Table} {h : Handle}

/-! ## Handles given out -/

namespace Table

theorem knows_declare (d : Declaration) (t : Table) :
    (declare d t).2.knows (declare d t).1 = true := by
  cases hh : t.named? d.name with
  | some h =>
      rw [declare_apply_of_named hh]
      exact knows_of_named? hh
  | none =>
      rw [declare_apply_of_unnamed hh]
      exact knows_push_iff.mpr (.inl rfl)

/-- What a construction answers: the definition itself, applied to its own
parameters, or a type of that structure. -/
theorem construct_cases (definition : Handle) (arguments : List Handle)
    (t : Table) :
    (t.ownsAll definition arguments = true ∧
        construct definition arguments t = (definition, t)) ∨
      (construct definition arguments t).2.shape?
        (construct definition arguments t).1 =
          some (.constructed definition arguments) := by
  by_cases hown : t.ownsAll definition arguments = true
  · exact .inl ⟨hown, construct_apply_of_own hown⟩
  · rw [construct_apply_of_not_own hown]
    exact .inr (shape?_intern _ t)

theorem knows_construct (definition : Handle) (arguments : List Handle)
    (t : Table) :
    (construct definition arguments t).2.knows
      (construct definition arguments t).1 = true := by
  obtain ⟨hown, heq⟩ | hs := construct_cases definition arguments t
  · obtain ⟨d, hd, -⟩ := ownsAll_iff.mp hown
    rw [heq]
    exact knows_of_shape? hd
  · exact knows_of_shape? hs

theorem shape?_arrayOf (element : Handle) (t : Table) :
    (arrayOf element t).2.shape? (arrayOf element t).1 =
      some (.array element) := by
  rw [arrayOf_eq_intern]
  exact shape?_intern _ t

theorem knows_arrayOf (element : Handle) (t : Table) :
    (arrayOf element t).2.knows (arrayOf element t).1 = true :=
  knows_of_shape? (shape?_arrayOf element t)

theorem knows_nullableOf {underlying : Handle}
    (hh : (nullableOf underlying t).1 = some h) :
    (nullableOf underlying t).2.knows h = true := by
  unfold nullableOf at hh ⊢
  rw [bind_apply, get_apply] at hh ⊢
  cases hb : t.builtIn? .nullableT with
  | none =>
      simp only [hb, pure_apply] at hh
      cases hh
  | some definition =>
      simp only [hb, map_apply] at hh ⊢
      obtain rfl := Option.some.inj hh
      exact knows_construct definition [underlying] t

theorem knows_lookup? {name : String} (hh : t.lookup? name = some h) :
    t.knows h = true := by
  rw [lookup?] at hh
  cases hn : t.named? name with
  | some k =>
      rw [hn] at hh
      obtain rfl := Option.some.inj hh
      exact knows_of_named? hn
  | none =>
      rw [hn] at hh
      obtain ⟨space, -, hspace⟩ := List.exists_of_findSome?_eq_some hh
      exact knows_of_named? hspace

theorem knows_nameType? {scope : Scope} {name : String}
    (hscope : ∀ p ∈ scope, t.knows p.2 = true)
    (hh : t.nameType? scope name = some h) : t.knows h = true := by
  rw [nameType?] at hh
  split at hh
  · next parameter hl =>
      obtain rfl := Option.some.inj hh
      obtain ⟨l₁, l₂, heq, -⟩ := List.lookup_eq_some_iff.mp hl
      exact hscope (name, parameter) (by simp [heq])
  · split at hh
    · exact knows_of_builtIn? hh
    · exact knows_lookup? hh

end Table

namespace TypeExpr

theorem knows_resolveIn {scope : Scope} (e : TypeExpr)
    (hscope : ∀ p ∈ scope, t.knows p.2 = true)
    (he : e.resolveIn scope t = (.ok h, u)) : u.knows h = true := by
  match e with
  | .array e =>
      rw [resolveIn] at he
      obtain ⟨a, s, -, hlast⟩ := bind_apply_eq_ok he
      have hk := Table.knows_arrayOf a s
      rwa [eq_of_liftM_apply_ok hlast] at hk
  | .nullable e =>
      rw [resolveIn] at he
      obtain ⟨a, s, -, hrest⟩ := bind_apply_eq_ok he
      obtain ⟨b, s', hnull, hlast⟩ := bind_apply_eq_ok hrest
      have hb := eq_of_liftM_apply_ok hnull
      cases b with
      | none => cases hlast
      | some k =>
          cases hlast
          have hk := Table.knows_nullableOf (congrArg Prod.fst hb)
          rwa [hb] at hk
  | .named name [] =>
      rw [resolveIn] at he
      obtain ⟨s, s', hget, hlast⟩ := bind_apply_eq_ok he
      cases hget
      cases hk : t.nameType? scope name with
      | none =>
          rw [hk] at hlast
          cases hlast
      | some k =>
          rw [hk] at hlast
          cases hlast
          exact Table.knows_nameType? hscope hk
  | .named name (first :: rest) =>
      rw [resolveIn] at he
      obtain ⟨s, s', hget, hrest⟩ := bind_apply_eq_ok he
      cases hget
      cases hd : genericDefinition t name (first :: rest) with
      | error e =>
          rw [hd] at hrest
          cases hrest
      | ok definition =>
          rw [hd] at hrest
          obtain ⟨a, s₁, -, hrest⟩ := bind_apply_eq_ok hrest
          obtain ⟨as, s₂, -, hlast⟩ := bind_apply_eq_ok hrest
          have hk := Table.knows_construct definition (a :: as) s₂
          rwa [eq_of_liftM_apply_ok hlast] at hk

end TypeExpr

namespace Table

theorem knows_resolveTextIn {scope : Scope} {text : String}
    (hscope : ∀ p ∈ scope, t.knows p.2 = true)
    (he : resolveTextIn scope text t = (.ok h, u)) : u.knows h = true := by
  rw [resolveTextIn] at he
  cases hread : TypeExpr.ofText text with
  | ok e =>
      rw [hread] at he
      exact TypeExpr.knows_resolveIn e hscope he
  | error e =>
      rw [hread] at he
      cases he

namespace Operation

/-- What an operation gives out is known from then on. -/
theorem knows_of_mem_run {op : Operation} (hop : op.Permitted foreign t)
    (hh : h ∈ (op.run t).1) : (op.run t).2.knows h = true := by
  cases op with
  | declare d =>
      obtain rfl := List.mem_singleton.mp hh
      exact knows_declare d t
  | declareUnder b d =>
      obtain rfl := List.mem_singleton.mp hh
      exact knows_declare _ t
  | parameter | other =>
      obtain rfl := List.mem_singleton.mp hh
      exact knows_push_iff.mpr (.inl rfl)
  | named name => exact knows_of_named? (Option.mem_toList.mp hh)
  | builtIn b => exact knows_of_builtIn? (Option.mem_toList.mp hh)
  | arrayOf e =>
      obtain rfl := List.mem_singleton.mp hh
      exact knows_arrayOf e t
  | construct d as =>
      obtain rfl := List.mem_singleton.mp hh
      exact knows_construct d as t
  | nullableOf e => exact knows_nullableOf (Option.mem_toList.mp hh)
  | resolve scope text =>
      have hscope : ∀ p ∈ scope, t.knows p.2 = true := fun p hp =>
        hop.visible p.2 (List.mem_map_of_mem hp)
      rw [run, bind_apply] at hh ⊢
      rcases hr : (resolveTextIn scope text).run t with ⟨e | k, u⟩
      · simp only [hr] at hh
        cases hh
      · simp only [hr] at hh ⊢
        obtain rfl := List.mem_singleton.mp hh
        exact knows_resolveTextIn hscope hr
  | setBase | addInterface | addConversion | assignable | conversion =>
      cases hh

/-! ## Asking again -/

/-- Whether an operation asks for the type of a structure or of a name. -/
def isInterning : Operation → Bool
  | .declare _ | .arrayOf _ | .construct _ _ => true
  | _ => false

/-- An operation that asks for a structure or a name that was asked for before
answers the same handle and stores nothing. -/
theorem run_again {op : Operation} (hop : op.isInterning = true)
    (p : (op.run t).2.PersistsIn u) (w : u.WellFormed foreign)
    (ha : u.Avoids foreign) : op.run u = ((op.run t).1, u) := by
  cases op with
  | declare d =>
      have hname : (Table.declare d t).2.named? d.name =
          some (Table.declare d t).1 := by
        rw [named?_declare, if_pos rfl]
      have hagain := declare_apply_of_named (p.named? w hname)
      rw [run, bind_apply, hagain]
      rfl
  | arrayOf e =>
      have hs : u.shape? (Table.arrayOf e t).1 = some (.array e) :=
        p.shape?_of_some (shape?_arrayOf e t) (by simp)
      have hagain : Table.arrayOf e u = ((Table.arrayOf e t).1, u) := by
        rw [arrayOf_eq_intern e]
        exact intern_apply_of_some
          (arrayOf_eq_intern e ▸ w.stored?_of_shape? rfl hs)
      rw [run, bind_apply, hagain]
      rfl
  | construct d as =>
      have hagain : Table.construct d as u = ((Table.construct d as t).1, u) := by
        obtain ⟨hown, heq⟩ | hs := construct_cases d as t
        · rw [heq]
          apply construct_apply_of_own
          obtain ⟨e, he, hpars⟩ := ownsAll_iff.mp hown
          have hp : t.PersistsIn u := by
            have hp := p
            rwa [show (run (.construct d as) t).2 = t from
              congrArg Prod.snd heq] at hp
          obtain ⟨e', he', -, -, hpars'⟩ := hp.definition he
          exact ownsAll_iff.mpr ⟨e', he', hpars'.trans hpars⟩
        · have hs' : u.shape? (Table.construct d as t).1 =
              some (.constructed d as) := p.shape?_of_some hs (by simp)
          have hown : ¬u.ownsAll d as = true := by
            rw [ownsAll_iff]
            rintro ⟨e, he, hpars⟩
            rcases w.uncollapsed hs' he with hne | hforeign
            · exact hne hpars
            · rw [knows_eq_false_iff.mp (ha d hforeign)] at he
              cases he
          rw [construct_apply_of_not_own hown]
          exact intern_apply_of_some (w.stored?_of_shape? rfl hs')
      rw [run, bind_apply, hagain]
      rfl
  | declareUnder | parameter | other | setBase | addInterface | addConversion
    | named | builtIn | nullableOf | assignable | conversion | resolve =>
      cases hop

end Operation

/-! ## Canonical tables -/

/-- In the table structural equality is handle equality. -/
structure Canonical (t : Table) : Prop where
  /-- An element type has one array. -/
  array {a b element} : t.shape? a = some (.array element) →
    t.shape? b = some (.array element) → a = b
  /-- A definition and arguments have one constructed type. -/
  constructed {a b definition arguments} :
    t.shape? a = some (.constructed definition arguments) →
    t.shape? b = some (.constructed definition arguments) → a = b
  /-- A name has one type. -/
  named {a b d e} : t.shape? a = some (.named d) →
    t.shape? b = some (.named e) → d.name = e.name → a = b
  /-- No definition is applied to its own parameters. -/
  uncollapsed {h definition arguments d} :
    t.shape? h = some (.constructed definition arguments) →
    t.shape? definition = some (.named d) → arguments ≠ d.parameters
  /-- Looking up a name finds exactly the type that bears it. -/
  name_index {name h} : t.named? name = some h ↔
    ∃ d, t.shape? h = some (.named d) ∧ d.name = name
  /-- Looking up a built-in type finds a type that stands for it. -/
  builtIn_index {b h} : t.builtIn? b = some h →
    ∃ d, t.shape? h = some (.named d) ∧ d.builtIn = some b
  /-- What a structural type is made of is older than the type. -/
  older {h s part} : s.isStructural = true → t.shape? h = some s →
    part ∈ s.parts → t.knows part = true → part.index < h.index
  /-- Stripping argument lists ends at a type without one. -/
  stripped {h definition arguments} :
    t.shape? (t.head h) ≠ some (.constructed definition arguments)

theorem Canonical.of_wellFormed (w : t.WellFormed foreign)
    (ha : t.Avoids foreign) : t.Canonical where
  array h h' := w.interned rfl h h'
  constructed h h' := w.interned rfl h h'
  named := w.nominal
  uncollapsed {h definition arguments d} hs hd heq := by
    rcases w.uncollapsed hs hd with hne | hforeign
    · exact hne heq.symm
    · rw [knows_eq_false_iff.mp (ha definition hforeign)] at hd
      cases hd
  name_index {name h} := by
    constructor
    · exact definition?_of_named?
    · rintro ⟨d, hd, rfl⟩
      exact w.named?_of_definition hd
  builtIn_index := definition?_of_builtIn?
  older {h s part} _ hs hpart hk := by
    rcases w.older hs hpart with ⟨-, hlt⟩ | hforeign
    · exact hlt
    · rw [ha part hforeign] at hk
      cases hk
  stripped {h definition arguments} :=
    shape?_head_ne_constructed w ha h definition arguments

/-- In every reachable table structural equality is handle equality; the handles
that the table gives out are its own, none of them zero; and whoever asks again
for an array, a construction or a name, however much has happened since, is
answered the same handle without anything being stored. -/
theorem Reachable.canonical (hr : t.Reachable foreign) :
    t.Canonical ∧
      (∀ op : Operation, op.Permitted foreign t → ∀ h ∈ (op.run t).1,
        h.index ≠ 0 ∧ (op.run t).2.knows h = true) ∧
      (∀ op : Operation, op.isInterning = true → op.Permitted foreign t →
        ∀ u, Run foreign (op.run t).2 u → u.Avoids foreign →
          op.run u = ((op.run t).1, u)) ∧
      ∀ name h, t.named? name = some h →
        ∀ u, Run foreign t u → u.Avoids foreign → u.named? name = some h := by
  have w := hr.wellFormed
  refine ⟨.of_wellFormed w hr.avoids, ?_, ?_, ?_⟩
  · intro op hop h hh
    have hk := op.knows_of_mem_run hop hh
    have hpos := (knows_iff.mp hk).1
    exact ⟨by omega, hk⟩
  · intro op hint hop u r ha
    have r' : Run foreign t u := .step op hop r
    exact op.run_again hint r.persistsIn (r'.wellFormed w ha) ha
  · intro name h hh u r ha
    exact r.persistsIn.named? (r.wellFormed w ha) hh

/-- A generic class declared over the core library, which is declared again. -/
theorem Reachable.canonical_box :
    let box : Operation := .declare
      { name := "Box`1", kind := .classType, parameters := [("T", Constraints.none)] }
    (box.run coreLibrary).2.Canonical ∧
      box.run (box.run coreLibrary).2 =
        ((box.run coreLibrary).1, (box.run coreLibrary).2) := by
  intro box
  have hcore : coreLibrary.Reachable fun h => h.index = 0 :=
    ⟨.inr (.refl _), avoids_zero _⟩
  have hbox : box.Permitted (fun h => h.index = 0) coreLibrary :=
    ⟨by simp [box, Operation.handed, Declaration.handed, Constraints.none],
      by simp [box, Operation.visible]⟩
  have hdeclared := hcore.of_run (.step box hbox (.refl _)) (avoids_zero _)
  refine ⟨(Reachable.canonical hdeclared).1, ?_⟩
  exact (Reachable.canonical hcore).2.2.1 box rfl hbox _ (.refl _)
    (avoids_zero _)

end Table

end Verdicts
