import Verdicts.Proofs.Types.WellFormed

/-!
# Storing keeps a table well-formed

Every operation on a table stores some shapes, one after the other, or changes
the links of a definition.  A shape fits a well-formed table when storing it
breaks nothing; the operations store fitting shapes only.
-/

namespace Verdicts.Table

variable {foreign : Handle → Prop} {t u : Table} {h k : Handle} {s : Shape}

/-! ## Shapes that fit -/

/-- The conditions under which a table stays well-formed when it stores a
shape. -/
structure Fits (foreign : Handle → Prop) (t : Table) (s : Shape) : Prop where
  parts : ∀ c ∈ s.parts, t.Admits foreign c
  links : ∀ c ∈ s.links, t.Admits foreign c
  new : s.isStructural = true → ∀ k, t.shape? k ≠ some s
  uncollapsed : ∀ {definition arguments},
    s = .constructed definition arguments →
    ¬t.ownsAll definition arguments = true
  unnamed : ∀ {d}, s = .named d → t.named? d.name = none
  owned : ∀ {d}, s = .named d → t.OwnsParameters t.fresh d

theorem shape?_push_eq_some {s' : Shape} (hs : (t.push s).shape? h = some s') :
    (h = t.fresh ∧ s' = s) ∨ t.shape? h = some s' := by
  rw [shape?_push] at hs
  split at hs
  · next heq => exact .inl ⟨heq, (Option.some.inj hs).symm⟩
  · exact .inr hs

theorem shape?_push_of_shape? {s' : Shape} (hs : t.shape? h = some s') :
    (t.push s).shape? h = some s' :=
  (shape?_push_of_knows s (knows_of_shape? hs)).trans hs

theorem OwnsParameters.push {d : Definition} (hown : t.OwnsParameters h d) :
    (t.push s).OwnsParameters h d where
  placed := hown.placed
  below := hown.below
  parameter p hp := by
    obtain ⟨name, c, hs⟩ := hown.parameter p hp
    exact ⟨name, c, shape?_push_of_shape? hs⟩

theorem WellFormed.push (w : t.WellFormed foreign) (hfit : t.Fits foreign s) :
    (t.push s).WellFormed foreign where
  older {h s' c} hs hc := by
    obtain ⟨rfl, rfl⟩ | hs := shape?_push_eq_some hs
    · refine (hfit.parts c hc).imp_left fun hk => ?_
      exact ⟨knows_push s' hk, index_lt_fresh hk⟩
    · exact (w.older hs hc).imp_left fun hk => ⟨knows_push s hk.1, hk.2⟩
  linked {h s' c} hs hc := by
    obtain ⟨rfl, rfl⟩ | hs := shape?_push_eq_some hs
    · exact (hfit.links c hc).push s'
    · exact (w.linked hs hc).push s
  interned {a b s'} hstr ha hb := by
    obtain ⟨rfl, rfl⟩ | ha' := shape?_push_eq_some ha
    · obtain ⟨rfl, -⟩ | hb' := shape?_push_eq_some hb
      · rfl
      · exact absurd hb' (hfit.new hstr b)
    · obtain ⟨rfl, rfl⟩ | hb' := shape?_push_eq_some hb
      · exact absurd ha' (hfit.new hstr a)
      · exact w.interned hstr ha' hb'
  nominal {a b d e} ha hb hname := by
    obtain ⟨rfl, rfl⟩ | ha' := shape?_push_eq_some ha
    · obtain ⟨rfl, -⟩ | hb' := shape?_push_eq_some hb
      · rfl
      · exact absurd hname.symm
          (named?_eq_none_iff.mp (hfit.unnamed rfl) b e hb')
    · obtain ⟨rfl, rfl⟩ | hb' := shape?_push_eq_some hb
      · exact absurd hname (named?_eq_none_iff.mp (hfit.unnamed rfl) a d ha')
      · exact w.nominal ha' hb' hname
  uncollapsed {h definition arguments d} hs hd := by
    obtain ⟨rfl, rfl⟩ | hs := shape?_push_eq_some hs
    · obtain ⟨rfl, hd⟩ | hd := shape?_push_eq_some hd
      · cases hd
      · refine .inl fun hpars => ?_
        exact hfit.uncollapsed rfl (ownsAll_iff.mpr ⟨d, hd, hpars⟩)
    · obtain ⟨rfl, -⟩ | hd := shape?_push_eq_some hd
      · -- The fresh handle can only have been a foreign one.
        rcases w.older hs (List.mem_cons_self ..) with ⟨hk, -⟩ | hforeign
        · rw [t.knows_fresh] at hk
          cases hk
        · exact .inr hforeign
      · exact w.uncollapsed hs hd
  owned {h d} hs := by
    obtain ⟨rfl, rfl⟩ | hs := shape?_push_eq_some hs
    · exact (hfit.owned rfl).push
    · exact (w.owned hs).push
  converting hc :=
    ⟨(w.converting hc).1.push s, (w.converting hc).2.push s⟩

theorem WellFormed.empty (foreign : Handle → Prop) :
    Table.empty.WellFormed foreign := by
  have hnone : ∀ {h s}, Table.empty.shape? h ≠ some s := by
    rintro ⟨_ | n⟩ s hs
    · cases hs
    · simp [Table.empty, shape?] at hs
  exact
    { older := fun hs => absurd hs hnone
      linked := fun hs => absurd hs hnone
      interned := fun _ hs => absurd hs hnone
      nominal := fun hs => absurd hs hnone
      uncollapsed := fun hs => absurd hs hnone
      owned := fun hs => absurd hs hnone
      converting := fun hc => by cases hc }

/-! ## Interning -/

/-- The conditions under which a structural shape may be interned. -/
structure Interned (foreign : Handle → Prop) (t : Table) (s : Shape) : Prop where
  structural : s.isStructural = true
  parts : ∀ c ∈ s.parts, t.Admits foreign c
  uncollapsed : ∀ {definition arguments},
    s = .constructed definition arguments →
    ¬t.ownsAll definition arguments = true

theorem Interned.fits (hs : t.Interned foreign s)
    (hnew : ∀ k, t.shape? k ≠ some s) : t.Fits foreign s where
  parts := hs.parts
  links c hc := by
    cases s with
    | named d => cases hs.structural
    | array | constructed | parameter | other => cases hc
  new _ := hnew
  uncollapsed := hs.uncollapsed
  unnamed hd := by
    rw [hd] at hs
    cases hs.structural
  owned hd := by
    rw [hd] at hs
    cases hs.structural

theorem interned_array (he : t.Admits foreign h) :
    t.Interned foreign (.array h) where
  structural := rfl
  parts c hc := by
    rwa [List.mem_singleton.mp hc]
  uncollapsed heq := by cases heq

theorem interned_constructed {definition : Handle} {arguments : List Handle}
    (hd : t.Admits foreign definition)
    (has : ∀ a ∈ arguments, t.Admits foreign a)
    (hown : ¬t.ownsAll definition arguments = true) :
    t.Interned foreign (.constructed definition arguments) where
  structural := rfl
  parts c hc := by
    rcases List.mem_cons.mp hc with rfl | hc
    · exact hd
    · exact has c hc
  uncollapsed heq := by
    cases heq
    exact hown

theorem WellFormed.intern (w : t.WellFormed foreign)
    (hs : t.Interned foreign s) : (intern s t).2.WellFormed foreign := by
  obtain heq | ⟨hnew, heq⟩ := intern_eq_or s t
  · rwa [heq]
  · rw [heq]
    exact w.push (hs.fits hnew)

theorem growsTo_intern (t : Table) (hs : s.isStructural = true) :
    t.GrowsTo (Table.intern s t).2 := by
  obtain heq | ⟨-, heq⟩ := intern_eq_or s t
  · rw [heq]
    exact .refl t
  · rw [heq]
    exact .push t hs

/-! ## Type parameters -/

theorem fits_parameter (name : String) {c : Constraints}
    (hc : ∀ b ∈ c.types, t.Admits foreign b) :
    t.Fits foreign (.parameter name c) where
  parts := hc
  links c hc := by cases hc
  new hstr := by cases hstr
  uncollapsed heq := by cases heq
  unnamed heq := by cases heq
  owned heq := by cases heq

theorem fits_other (name : String) (kind : Kind) :
    t.Fits foreign (.other name kind) where
  parts c hc := by cases hc
  links c hc := by cases hc
  new hstr := by cases hstr
  uncollapsed heq := by cases heq
  unnamed heq := by cases heq
  owned heq := by cases heq

/-- The table with type parameters more. -/
def withParameters (t : Table) : List (String × Constraints) → Table
  | [] => t
  | p :: ps => (t.push (.parameter p.1 p.2)).withParameters ps

/-- The handles that the next stored shapes get. -/
def upcoming (t : Table) (n : Nat) : List Handle :=
  (List.range' (t.size + 1) n).map Handle.mk

theorem upcoming_succ (t : Table) (s : Shape) (n : Nat) :
    t.upcoming (n + 1) = t.fresh :: (t.push s).upcoming n := by
  rw [upcoming, List.range'_succ, List.map_cons, upcoming, size_push, fresh]

theorem mapM_parameter (ps : List (String × Constraints)) (t : Table) :
    (ps.mapM fun p => parameter p.1 p.2 : StateM Table _) t =
      (t.upcoming ps.length, t.withParameters ps) := by
  induction ps generalizing t with
  | nil => rfl
  | cons p ps ih =>
      rw [List.mapM_cons]
      rw [bind_apply, bind_apply, pure_apply, ih, parameter, store_apply,
        List.length_cons, t.upcoming_succ (.parameter p.1 p.2),
        withParameters]

theorem size_withParameters (t : Table) (ps : List (String × Constraints)) :
    (t.withParameters ps).size = t.size + ps.length := by
  induction ps generalizing t with
  | nil => rfl
  | cons p ps ih =>
      rw [withParameters, ih, size_push, List.length_cons]
      omega

theorem shape?_withParameters_of_shape? (ps : List (String × Constraints))
    (hs : t.shape? h = some s) : (t.withParameters ps).shape? h = some s := by
  induction ps generalizing t with
  | nil => exact hs
  | cons p ps ih => exact ih (shape?_push_of_shape? hs)

theorem knows_withParameters (ps : List (String × Constraints))
    (hk : t.knows h = true) : (t.withParameters ps).knows h = true := by
  obtain ⟨s, hs⟩ := exists_shape?_of_knows hk
  exact knows_of_shape? (shape?_withParameters_of_shape? ps hs)

theorem Admits.withParameters (ps : List (String × Constraints))
    (ha : t.Admits foreign h) : (t.withParameters ps).Admits foreign h :=
  ha.imp_left (knows_withParameters ps)

theorem named?_withParameters (t : Table) (ps : List (String × Constraints))
    (name : String) : (t.withParameters ps).named? name = t.named? name := by
  induction ps generalizing t with
  | nil => rfl
  | cons p ps ih =>
      rw [withParameters, ih, named?_push_of_not_named]
      intro d hd
      cases hd

theorem builtIn?_withParameters (t : Table) (ps : List (String × Constraints))
    (b : BuiltIn) : (t.withParameters ps).builtIn? b = t.builtIn? b := by
  induction ps generalizing t with
  | nil => rfl
  | cons p ps ih =>
      rw [withParameters, ih, builtIn?_push_of_not_named]
      intro d hd
      cases hd

theorem conversions_withParameters (t : Table)
    (ps : List (String × Constraints)) :
    (t.withParameters ps).conversions = t.conversions := by
  induction ps generalizing t with
  | nil => rfl
  | cons p ps ih => rw [withParameters, ih, conversions_push]

theorem WellFormed.withParameters (w : t.WellFormed foreign)
    {ps : List (String × Constraints)}
    (hps : ∀ p ∈ ps, ∀ b ∈ p.2.types, t.Admits foreign b) :
    (t.withParameters ps).WellFormed foreign := by
  induction ps generalizing t with
  | nil => exact w
  | cons p ps ih =>
      rw [List.forall_mem_cons] at hps
      apply ih (w.push (fits_parameter p.1 hps.1))
      intro q hq b hb
      exact (hps.2 q hq b hb).push _

/-- The upcoming handles are those of the type parameters. -/
theorem shape?_upcoming (t : Table) (ps : List (String × Constraints)) :
    List.Forall₂
      (fun h p => (t.withParameters ps).shape? h = some (.parameter p.1 p.2))
      (t.upcoming ps.length) ps := by
  induction ps generalizing t with
  | nil => exact .nil
  | cons p ps ih =>
      rw [List.length_cons, t.upcoming_succ (.parameter p.1 p.2)]
      apply List.Forall₂.cons
      · exact shape?_withParameters_of_shape? ps (t.shape?_push_fresh _)
      · exact ih (t.push (.parameter p.1 p.2))

theorem parameter_of_mem_upcoming {ps : List (String × Constraints)}
    (hh : h ∈ t.upcoming ps.length) :
    ∃ name c, (t.withParameters ps).shape? h = some (.parameter name c) := by
  obtain ⟨i, hi, rfl⟩ := List.mem_iff_getElem.mp hh
  have hshape := (List.forall₂_iff_get.mp (t.shape?_upcoming ps)).2 i hi
    (by simpa [upcoming] using hi)
  exact ⟨_, _, hshape⟩

theorem knows_of_mem_upcoming {n : Nat} (hh : h ∈ t.upcoming n) :
    t.knows h = false := by
  rw [upcoming, List.mem_map] at hh
  obtain ⟨i, hi, rfl⟩ := hh
  rw [List.mem_range'_1] at hi
  rw [Bool.eq_false_iff, ne_eq, knows_iff]
  simp only
  omega

theorem length_upcoming (t : Table) (n : Nat) : (t.upcoming n).length = n := by
  rw [upcoming, List.length_map, List.length_range']

theorem ownsParameters_withParameters (ps : List (String × Constraints))
    {d : Definition} (hd : d.parameters = t.upcoming ps.length) :
    (t.withParameters ps).OwnsParameters (t.withParameters ps).fresh d where
  placed := by
    rw [hd, length_upcoming, fresh, size_withParameters, upcoming]
    congr 2
    simp only
    omega
  below := by
    rw [hd, length_upcoming, fresh, size_withParameters]
    simp only
    omega
  parameter p hp := by
    rw [hd] at hp
    exact parameter_of_mem_upcoming hp

end Verdicts.Table
