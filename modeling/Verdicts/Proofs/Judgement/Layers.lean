import Verdicts.Proofs.Correspondence.Unwinding
import Verdicts.Proofs.Judgement.Stability
import Verdicts.Proofs.Types.Canonical
import Verdicts.Proofs.Types.Enriching

/-!
# Layers of arrays and nullable types

A type may be put under layers, each an array or a nullable type.  The walks of
the verdicts on serialization unwind what the layers hold: each array layer
shows as an array and each nullable layer shows as the type under it, and since
element types are older than their arrays the walk meets no type twice.  So
layers change no tier, and array layers do not change whether a type is ignored,
whatever their number.
-/

namespace Verdicts

/-- A layer around a type. -/
inductive Layer where
  | array
  | nullable
  deriving DecidableEq, Repr

namespace Table

/-- Put layers around a type, the first one innermost. -/
def wrap : List Layer → Handle → StateM Table (Option Handle)
  | [], h => return some h
  | .array :: layers, h => do wrap layers (← arrayOf h)
  | .nullable :: layers, h => do
    match ← nullableOf h with
    | some nullable => wrap layers nullable
    | none => return none

/-- The outer type is the inner one under the layers.  What stands under a
nullable layer is not nullable itself. -/
inductive Wrapped (t : Table) : List Layer → Handle → Handle → Prop where
  | nil {a : Handle} : Wrapped t [] a a
  | array {layers : List Layer} {a b c : Handle}
      (hs : t.shape? b = some (.array a)) (rest : Wrapped t layers b c) :
      Wrapped t (.array :: layers) a c
  | nullable {layers : List Layer} {a b c definition : Handle}
      (hs : t.shape? b = some (.constructed definition [a]))
      (htag : t.tag? definition = some .nullableT)
      (hplain : t.nullableUnderlying? a = none) (rest : Wrapped t layers b c) :
      Wrapped t (.nullable :: layers) a c

/-- A nullable layer can be put around the type: it is not nullable, and not
that over which the table defines nullable types. -/
structure TakesNullable (t : Table) (h : Handle) : Prop where
  plain : t.nullableUnderlying? h = none
  other : ∀ definition, t.builtIn? .nullableT = some definition →
    t.arguments definition ≠ [h]

end Table

/-! ## Unwinding one layer -/

theorem Landing.Matches.eq_of_eq {ρ : World} {x y : Landing}
    (h : x.Matches ρ y) (hρ : ∀ {a b}, ρ a b → a = b) : x = y := by
  cases h with
  | core h => rw [hρ h]
  | hollow | cyclic => rfl

namespace Program

variable {foreign : Handle → Prop} {p : Program} {a b : Handle}
  {look : Handle → Handle} {stops : Handle → Bool}

/-- A program shows the arrays that it shows once its table is enriched. -/
theorem parallel_of_enrichedTo {q : Program}
    (e : p.table.EnrichedTo q.table) (w : p.table.WellFormed foreign)
    (w' : q.table.WellFormed foreign) (ha : q.table.Avoids foreign)
    (unwired : p.wiring = []) (unwired' : q.wiring = []) :
    p.Parallel foreign (p.table.itself foreign) q where
  left := w
  right := w'
  avoidsLeft := e.persistsIn.avoids ha
  avoidsRight := ha
  unwiredLeft := unwired
  unwiredRight := unwired'
  knows_eq := by
    rintro c _ ⟨hk | hforeign, rfl⟩
    · rw [hk, e.persistsIn.knows hk]
    · rw [ha c hforeign, e.persistsIn.avoids ha c hforeign]
  elements := by
    rintro c _ ⟨hc, rfl⟩
    rw [e.element?_eq ha hc, Table.element?]
    split
    · next x hs =>
        exact .some ⟨w.admits_part hs (List.mem_singleton_self x), rfl⟩
    · exact .none

/-- The walk does not depend on the list of fresh types, as long as that holds
all types that the walk may meet. -/
theorem unwindFresh_eq_of_covers
    (m : p.Parallel foreign (p.table.itself foreign) p)
    (hp : p.Descends look stops)
    (hlook : ∀ {a}, p.table.Admits foreign a → p.table.Admits foreign (look a))
    {fresh fresh' : List Handle} (ha : p.table.Admits foreign a)
    (hf : p.Covers fresh a) (hf' : p.Covers fresh' a) :
    p.unwindFresh look stops fresh a = p.unwindFresh look stops fresh' a := by
  have hmatches := unwindFresh_matches m hp hp
    (fun {a b} h => ⟨hlook h.1, congrArg look h.2⟩)
    (fun {a b} h => congrArg stops h.2) ⟨ha, rfl⟩ hf hf'
  exact hmatches.eq_of_eq fun h => h.2

theorem unwind_congr (h : look a = look b) :
    p.unwind look stops a = p.unwind look stops b := by
  rw [unwind, unwind, unwindFresh, unwindFresh]
  simp only [h]

/-- At an array the walk goes on with the element type. -/
theorem unwind_array (w : p.table.WellFormed foreign)
    (ha : p.table.Avoids foreign) (unwired : p.wiring = [])
    (hp : p.Descends look stops)
    (hlook : ∀ {a}, p.table.Admits foreign a → p.table.Admits foreign (look a))
    (hs : p.table.shape? b = some (.array a)) (hb : look b = b)
    (hstops : stops b = false) :
    p.unwind look stops b = p.unwind look stops a := by
  have hmem : look b ∈ p.table.handles := by
    rw [hb]
    exact Table.mem_handles_of_knows (Table.knows_of_shape? hs)
  have helement : p.element? (look b) = some a := by
    rw [hb, element?_of_unwired unwired, Table.element?, hs]
  rw [unwind, unwindFresh_of_continues (by rwa [hb]) hmem, helement, hb, unwind]
  simp only
  rcases w.older hs (List.mem_singleton_self a) with ⟨hk, hlt⟩ | hforeign
  · have m := parallel_of_enrichedTo (.refl p.table) w w ha unwired unwired
    have hcovers : p.Covers (p.table.handles.erase b) a :=
      (p.covers_handles b).erase (Nat.le_refl _) hlt
    exact unwindFresh_eq_of_covers m hp hlook (.inl hk) hcovers
      (p.covers_handles a)
  · have hk : p.table.knows a = false := ha a hforeign
    have hstopped : stops (look a) = true := by
      rw [hp.unknown hk]
      exact hp.stops hk
    rw [unwindFresh_of_stops hstopped, unwindFresh_of_stops hstopped]

/-! ## Unwinding a layer of a verdict -/

section

variable (w : p.table.WellFormed foreign) (ha : p.table.Avoids foreign)
  (unwired : p.wiring = [])
include w ha unwired

theorem innermost_array (hs : p.table.shape? b = some (.array a)) :
    p.innermost b = p.innermost a := by
  have hkind : p.table.kind b = .array := by
    rw [Table.kind, Table.head_of_not_constructed (by simp [hs]), hs]
  have hlook : p.throughNullable b = b := by
    rw [throughNullable, Table.nullableUnderlying?, hs]
    rfl
  have m := (Table.GrowsTo.refl p.table).matches w w ha
  refine unwind_array w ha unwired (descends_innermost w ha) ?_ hs hlook ?_
  · intro c hc
    exact (m.plain ⟨hc, rfl⟩).1
  · rw [hkind]
    rfl

omit ha unwired w in
theorem innermost_nullable {definition : Handle}
    (hs : p.table.shape? b = some (.constructed definition [a]))
    (htag : p.table.tag? definition = some .nullableT)
    (hplain : p.table.nullableUnderlying? a = none) :
    p.innermost b = p.innermost a := by
  apply unwind_congr
  rw [throughNullable, throughNullable, hplain, Table.nullableUnderlying?, hs]
  simp only [htag, if_true]
  rfl

theorem stripped_array (hs : p.table.shape? b = some (.array a)) :
    p.stripped b = p.stripped a := by
  have hkind : p.table.kind b = .array := by
    rw [Table.kind, Table.head_of_not_constructed (by simp [hs]), hs]
  have htag : p.table.tag? b = none := by
    rw [Table.tag?, Table.definition?, hs]
    rfl
  refine unwind_array w ha unwired p.descends_stripped id hs rfl ?_
  rw [Table.isUnreliable, hkind, htag]
  rfl

theorem ignores_array (hs : p.table.shape? b = some (.array a)) :
    p.ignores b = p.ignores a := by
  rw [ignores, ignores, doubt?, doubt?, doubtWithin?, doubtWithin?,
    stripped_array w ha unwired hs]

/-- Layers do not change where the walk of the tiers ends. -/
theorem innermost_wrapped {layers : List Layer}
    (h : p.table.Wrapped layers a b) : p.innermost b = p.innermost a := by
  induction h with
  | nil => rfl
  | array hs _ ih => exact ih.trans (innermost_array w ha unwired hs)
  | nullable hs htag hplain _ ih =>
      exact ih.trans (innermost_nullable hs htag hplain)

theorem ignores_wrapped {layers : List Layer}
    (h : p.table.Wrapped layers a b) (hall : ∀ layer ∈ layers, layer = .array) :
    p.ignores b = p.ignores a := by
  induction h with
  | nil => rfl
  | array hs _ ih =>
      rw [ih fun layer hl => hall layer (List.mem_cons_of_mem _ hl)]
      exact ignores_array w ha unwired hs
  | nullable => cases hall _ (List.mem_cons_self ..)

end

end Program

/-! ## Putting layers around a type -/

namespace Table

variable {foreign : Handle → Prop} {t u : Table} {a b : Handle}
  {layers : List Layer}

theorem TakesNullable.array (w : t.WellFormed foreign)
    (hs : t.shape? b = some (.array a)) : t.TakesNullable b where
  plain := by
    rw [nullableUnderlying?, hs]
  other definition hd hargs := by
    obtain ⟨d, hdef, -⟩ := definition?_of_builtIn? hd
    have heq : d.parameters = [b] := by
      rw [arguments, hdef] at hargs
      exact hargs
    have hmem : b ∈ d.parameters := heq ▸ List.mem_singleton_self b
    obtain ⟨name, c, hparameter⟩ := (w.owned hdef).parameter b hmem
    rw [hs] at hparameter
    cases hparameter

theorem TakesNullable.not_ownsAll (ha : t.TakesNullable a)
    {definition : Handle} (hd : t.builtIn? .nullableT = some definition) :
    ¬t.ownsAll definition [a] = true := by
  intro hown
  obtain ⟨d, hdef, heq⟩ := ownsAll_iff.mp hown
  apply ha.other definition hd
  rw [arguments, hdef]
  exact heq

/-- A nullable layer is stored as such, and not as the bare definition. -/
theorem nullableOf_apply {definition : Handle}
    (hd : t.builtIn? .nullableT = some definition) (ha : t.TakesNullable a) :
    nullableOf a t =
      (some (intern (.constructed definition [a]) t).1,
        (intern (.constructed definition [a]) t).2) := by
  rw [nullableOf, bind_apply, get_apply]
  simp only [hd, map_apply, construct_apply_of_not_own (ha.not_ownsAll hd)]

theorem Wrapped.persists (h : t.Wrapped layers a b) (p : t.PersistsIn u)
    (w : t.WellFormed foreign) (hu : u.Avoids foreign)
    (ha : t.Admits foreign a) : u.Wrapped layers a b := by
  induction h with
  | nil => exact .nil
  | array hs _ ih =>
      exact .array (p.shape?_of_some hs (by simp))
        (ih (.inl (knows_of_shape? hs)))
  | nullable hs htag hplain _ ih =>
      refine .nullable (p.shape?_of_some hs (by simp)) ?_ ?_
        (ih (.inl (knows_of_shape? hs)))
      · rw [p.tag?_eq (knows_of_tag? htag), htag]
      · rw [p.nullableUnderlying?_eq w hu ha, hplain]

theorem interns_nullableOf_bind {f : Handle → StateM Table (Option Handle)}
    (hf : ∀ h, Interns (f h)) (a : Handle) : Interns (do
      match ← nullableOf a with
      | some h => f h
      | none => return none) := by
  apply (interns_nullableOf a).bind
  rintro (_ | h)
  · exact .of_pure none
  · exact hf h

theorem interns_wrap (layers : List Layer) (a : Handle) :
    Interns (wrap layers a) := by
  induction layers generalizing a with
  | nil => exact .of_pure _
  | cons layer layers ih =>
      cases layer with
      | array => exact (interns_arrayOf a).bind ih
      | nullable => exact interns_nullableOf_bind ih a

theorem growsTo_wrap (layers : List Layer) (a : Handle) (t : Table) :
    t.GrowsTo (wrap layers a t).2 :=
  interns_wrap layers a t

/-- Where the table has nullable types, layers can be put around a type, of
which no two adjacent ones are nullable. -/
theorem wrapped_wrap (w : t.WellFormed foreign) (layers : List Layer)
    (hb : ∃ definition, t.builtIn? .nullableT = some definition)
    (ha : t.Admits foreign a)
    (hchain : layers.IsChain fun x y => x = .array ∨ y = .array)
    (hfirst : layers.head? = some .nullable → t.TakesNullable a)
    (havoids : (wrap layers a t).2.Avoids foreign) :
    (wrap layers a t).2.WellFormed foreign ∧
      ∃ b, (wrap layers a t).1 = some b ∧
        (wrap layers a t).2.Wrapped layers a b := by
  induction layers generalizing a t with
  | nil => exact ⟨w, a, rfl, .nil⟩
  | cons layer layers ih =>
  cases layer with
  | array =>
      have hs := shape?_arrayOf a t
      have g : t.GrowsTo (arrayOf a t).2 := interns_arrayOf a t
      have w' : (arrayOf a t).2.WellFormed foreign := by
        rw [arrayOf_eq_intern]
        exact w.intern (interned_array ha)
      obtain ⟨wu, b, hrun, hwrapped⟩ := ih w'
        (by simpa only [g.builtIn?_eq] using hb) (.inl (knows_of_shape? hs))
        hchain.of_cons (fun _ => .array w' hs) havoids
      have gu := growsTo_wrap layers (arrayOf a t).1 (arrayOf a t).2
      exact ⟨wu, b, hrun, .array (gu.shape?_of_some hs) hwrapped⟩
  | nullable =>
      obtain ⟨definition, hd⟩ := hb
      have htakes := hfirst rfl
      obtain ⟨d, hdef, hbuiltIn⟩ := definition?_of_builtIn? hd
      have htag : t.tag? definition = some .nullableT := by
        rw [tag?, definition?_eq_some_iff.mpr hdef]
        exact hbuiltIn
      have hs := shape?_intern (.constructed definition [a]) t
      have g := growsTo_intern t (s := .constructed definition [a]) rfl
      have w' := w.intern (interned_constructed
        (.inl (knows_of_shape? hdef)) (by simpa using ha)
        (htakes.not_ownsAll hd))
      have hrun : wrap (.nullable :: layers) a t =
          wrap layers (intern (.constructed definition [a]) t).1
            (intern (.constructed definition [a]) t).2 := by
        rw [wrap, bind_apply, nullableOf_apply hd htakes]
      rw [hrun] at havoids ⊢
      obtain ⟨wu, b, hb, hwrapped⟩ := ih w'
        ⟨definition, by rw [g.builtIn?_eq, hd]⟩ (.inl (knows_of_shape? hs))
        hchain.of_cons (fun hhead => by
          obtain ⟨rest, rfl⟩ := List.head?_eq_some_iff.mp hhead
          simpa using (List.isChain_cons_cons.mp hchain).1) havoids
      have gu := growsTo_wrap layers
        (intern (.constructed definition [a]) t).1
        (intern (.constructed definition [a]) t).2
      have gt := g.trans gu
      refine ⟨wu, b, hb, .nullable (gu.shape?_of_some hs) ?_ ?_ hwrapped⟩
      · rw [gt.tag?_eq, htag]
      · rw [gt.persistsIn.nullableUnderlying?_eq w havoids ha, htakes.plain]

end Table

/-! ## Verdicts on types under layers -/

/-- Layers of arrays and nullable types, no two of the latter adjacent, change
no tier, and arrays alone do not change whether a type is ignored, at any time
after they have been put around the type. -/
theorem classify_wrap {foreign : Handle → Prop} {t : Table} {a : Handle}
    (hr : Table.Run foreign Table.coreLibrary t) (ha : t.Admits foreign a)
    (layers : List Layer)
    (hchain : layers.IsChain fun x y => x = .array ∨ y = .array)
    (hfirst : layers.head? = some .nullable → t.TakesNullable a)
    (havoids : (Table.wrap layers a t).2.Avoids foreign) :
    ∃ b, (Table.wrap layers a t).1 = some b ∧
      ∀ q : Inquiry, q.program.wiring = [] →
        Table.Run foreign (Table.wrap layers a t).2 q.program.table →
        q.program.table.Avoids foreign →
        (∀ c, Inquiry.classify c b q = Inquiry.classify c a q) ∧
          ((∀ layer ∈ layers, layer = .array) →
            q.program.ignores b = q.program.ignores a) := by
  have gu := Table.growsTo_wrap layers a t
  have w : t.WellFormed foreign :=
    hr.wellFormed (Table.wellFormed_coreLibrary foreign) (gu.avoids havoids)
  obtain ⟨nullable, hnullable⟩ :=
    Option.isSome_iff_exists.mp Table.checks_coreLibrary.2
  obtain ⟨wu, b, hb, hwrapped⟩ := Table.wrapped_wrap w layers
    (hr.persistsIn.exists_builtIn? hnullable) ha hchain hfirst havoids
  refine ⟨b, hb, fun q unwired r hq => ?_⟩
  have wq := r.wellFormed wu hq
  have hlater := hwrapped.persists r.persistsIn wu hq (gu.admits ha)
  refine ⟨fun c => ?_, Program.ignores_wrapped wq hq unwired hlater⟩
  rw [Inquiry.classify, Inquiry.classify, bind_apply, bind_apply, get_apply]
  simp only [Program.innermost_wrapped wq hq unwired hlater]

/-- An array of nullable arrays of nullable numbers is as sure to survive as the
numbers are. -/
theorem classify_wrap_int :
    let layers : List Layer := [.nullable, .array, .nullable, .array]
    let wrapped := Table.wrap layers ⟨14⟩ Table.coreLibrary
    Table.coreLibrary.builtIn? .int32 = some ⟨14⟩ ∧
      ∃ b, wrapped.1 = some b ∧
        (Inquiry.classify ⟨[], []⟩ b (Inquiry.ofTable wrapped.2)).1 = .always := by
  intro layers wrapped
  have hfacts : Table.coreLibrary.builtIn? .int32 = some ⟨14⟩ ∧
      Table.coreLibrary.knows ⟨14⟩ = true ∧
      Table.coreLibrary.nullableUnderlying? ⟨14⟩ = none ∧
      ((Table.coreLibrary.builtIn? .nullableT).all fun definition =>
        Table.coreLibrary.arguments definition ≠ [⟨14⟩]) = true ∧
      (Inquiry.classify ⟨[], []⟩ ⟨14⟩ (Inquiry.ofTable wrapped.2)).1 =
        .always := by
    decide +kernel
  obtain ⟨hint, hknown, hplain, hother, halways⟩ := hfacts
  have htakes : Table.coreLibrary.TakesNullable ⟨14⟩ := by
    refine ⟨hplain, fun definition hd => ?_⟩
    simpa [hd] using hother
  have hrun : Table.Run noneForeign Table.coreLibrary Table.coreLibrary := .refl _
  obtain ⟨b, hb, hverdicts⟩ := classify_wrap hrun (.inl hknown) layers
    (by decide) (fun _ => htakes) (Table.avoids_noneForeign _)
  have hsame := hverdicts (Inquiry.ofTable wrapped.2) rfl
    (by rw [Inquiry.table_ofTable]; exact .refl _) (Table.avoids_noneForeign _)
  refine ⟨hint, b, hb, ?_⟩
  rw [hsame.1]
  exact halways

end Verdicts
