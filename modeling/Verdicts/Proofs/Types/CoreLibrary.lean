import Verdicts.Proofs.Types.WellFormed
import Verdicts.Types.CoreLibrary

/-!
# The core library is well-formed

Whether a given table is well-formed can be computed, since every part of it is
to be its own: then no handle has to be foreign.
-/

namespace Verdicts.Table

variable {foreign : Handle → Prop} {t : Table} {h : Handle} {s : Shape}

/-- Whether the parameters of a definition stand right before it. -/
def placesParameters (t : Table) (h : Handle) (d : Definition) : Bool :=
  d.parameters =
      (List.range' (h.index - d.parameters.length) d.parameters.length).map
        Handle.mk
    && d.parameters.length < h.index
    && d.parameters.all fun p => (t.constraints? p).isSome

/-- Whether a stored shape is as well-formed tables have them. -/
def checksShape (t : Table) (h : Handle) (s : Shape) : Bool :=
  s.parts.all (fun c => t.knows c && c.index < h.index)
    && s.links.all t.knows
    && match s with
      | .named d => t.named? d.name = some h && t.placesParameters h d
      | .array _ => t.stored? s = some h
      | .constructed definition arguments =>
        t.stored? s = some h && !t.ownsAll definition arguments
      | .parameter _ _ | .other _ _ => true

/-- Whether a table without conversions is well-formed. -/
def checks (t : Table) : Bool :=
  t.conversions.isEmpty
    && t.handles.all fun h => (t.shape? h).all (t.checksShape h)

theorem checksShape_of_checks (hc : t.checks = true)
    (hs : t.shape? h = some s) : t.checksShape h s = true := by
  rw [checks, Bool.and_eq_true, List.all_eq_true] at hc
  have hh := hc.2 h (mem_handles_of_knows (knows_of_shape? hs))
  rwa [hs, Option.all_some] at hh

/-- What is checked of all definitions of a table holds of each. -/
theorem of_all_definitions {P : Handle → Definition → Bool} {d : Definition}
    (hall : (t.handles.all fun h => (t.definition? h).all (P h)) = true)
    (hd : t.shape? h = some (.named d)) : P h d = true := by
  rw [List.all_eq_true] at hall
  have hh := hall h (mem_handles_of_knows (knows_of_shape? hd))
  rwa [definition?_eq_some_iff.mpr hd, Option.all_some] at hh

theorem wellFormed_of_checks (hc : t.checks = true) :
    t.WellFormed foreign := by
  have hshape : ∀ {h s}, t.shape? h = some s →
      (∀ c ∈ s.parts, t.knows c = true ∧ c.index < h.index) ∧
        (∀ c ∈ s.links, t.knows c = true) := by
    intro h s hs
    have hh := checksShape_of_checks hc hs
    simp only [checksShape, Bool.and_eq_true, List.all_eq_true,
      decide_eq_true_eq] at hh
    exact hh.1
  have hstored : ∀ {h s}, s.isStructural = true → t.shape? h = some s →
      t.stored? s = some h := by
    intro h s hstr hs
    have hh := checksShape_of_checks hc hs
    cases s with
    | array e =>
        simp only [checksShape, Bool.and_eq_true, decide_eq_true_eq] at hh
        exact hh.2
    | constructed d as =>
        simp only [checksShape, Bool.and_eq_true, decide_eq_true_eq] at hh
        exact hh.2.1
    | named | parameter | other => cases hstr
  have hnamed : ∀ {h d}, t.shape? h = some (.named d) →
      t.named? d.name = some h ∧ t.placesParameters h d = true := by
    intro h d hs
    have hh := checksShape_of_checks hc hs
    simp only [checksShape, Bool.and_eq_true, decide_eq_true_eq] at hh
    exact hh.2
  refine
    { older := fun hs hc => .inl ((hshape hs).1 _ hc)
      linked := fun hs hc => .inl ((hshape hs).2 _ hc)
      interned := ?_
      nominal := ?_
      uncollapsed := ?_
      owned := ?_
      converting := ?_ }
  · intro a b s hstr ha hb
    exact Option.some.inj ((hstored hstr ha).symm.trans (hstored hstr hb))
  · intro a b d e ha hb hname
    have ha' := (hnamed ha).1
    rw [hname] at ha'
    exact Option.some.inj (ha'.symm.trans (hnamed hb).1)
  · intro h definition arguments d hs hd
    have hh := checksShape_of_checks hc hs
    simp only [checksShape, Bool.and_eq_true, Bool.not_eq_true'] at hh
    refine .inl fun hpars => ?_
    rw [ownsAll_iff.mpr ⟨d, hd, hpars⟩] at hh
    cases hh.2.2
  · intro h d hs
    have hh := (hnamed hs).2
    simp only [placesParameters, Bool.and_eq_true, decide_eq_true_eq,
      List.all_eq_true] at hh
    refine ⟨hh.1.1, hh.1.2, ?_⟩
    intro p hp
    have hpar := hh.2 p hp
    rw [constraints?] at hpar
    split at hpar
    · next name c hs => exact ⟨name, c, hs⟩
    · cases hpar
  · intro a b implicit hmem
    rw [checks, Bool.and_eq_true, List.isEmpty_iff] at hc
    rw [hc.1] at hmem
    cases hmem

theorem checks_coreLibrary : coreLibrary.checks = true ∧
    (coreLibrary.builtIn? .nullableT).isSome = true := by
  decide +kernel

theorem wellFormed_coreLibrary (foreign : Handle → Prop) :
    coreLibrary.WellFormed foreign :=
  wellFormed_of_checks checks_coreLibrary.1

end Verdicts.Table
