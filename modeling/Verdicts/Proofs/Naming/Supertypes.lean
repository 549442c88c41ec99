import Verdicts.Proofs.Naming.Divergence
import Verdicts.Proofs.Types.Walk

/-!
# Supertypes of instances

The supertypes of a generic type with type arguments are, one by one, the
supertypes of its definition with the type parameters replaced.  What a written
expression named for the definition, the instantiated expression names for the
type with arguments; and the type is assignable to it.
-/

namespace Verdicts.Table

variable {c t u : Table} {h k s b : Handle} {d : Definition}
  {names : List String} {es : List TypeExpr} {as : List Handle}

/-! ## Tables under substitution -/

theorem WellFormed.substitute (w : t.WellFormed noneForeign)
    {ps as : List Handle} (hps : ∀ p ∈ ps, t.knows p = true)
    (has : ∀ a ∈ as, t.knows a = true) (hs : t.knows s = true) :
    (substitute (ps.zip as) s t).2.WellFormed noneForeign :=
  w.of_agree (interns_substitute _ s) (avoids_noneForeign _)
    (agree_substitute
      (substitutionsMatch_zip (forall₂_itself fun p hp => .inl (hps p hp))
        (forall₂_itself fun a ha => .inl (has a ha)))
      (itself_self (.inl hs)))

theorem growsTo_substitute (σ : Substitution) (s : Handle) (t : Table) :
    t.GrowsTo (substitute σ s t).2 :=
  interns_substitute σ s t

theorem supertypes_constructed
    (hs : t.shape? s = some (.constructed h as))
    (hd : t.shape? h = some (.named d)) :
    supertypes s t =
      (t.statedSupertypes s d).mapM (substitute (d.parameters.zip as)) t := by
  rw [supertypes, bind_apply, get_apply]
  simp only [hs, definition?_eq_some_iff.mpr hd]

theorem WellFormed.knows_statedSupertypes (w : t.WellFormed noneForeign)
    (hd : t.shape? h = some (.named d)) (s : Handle) :
    ∀ k ∈ t.statedSupertypes s d, t.knows k = true := by
  intro k hk
  rcases mem_statedSupertypes.mp hk with ⟨hbase, -⟩ | hk
  · exact knows_of_admits (w.admits_base hd hbase)
  · exact knows_of_admits (w.admits_interface hd hk)

/-! ## Images -/

/-- What the table puts in place of a type: instances of expressions that name
the type name the image, and a definition is its own image. -/
structure IsImage (c : Table) (d : Definition) (names : List String)
    (es : List TypeExpr) (u : Table) (s b : Handle) : Prop where
  names : ∀ {x}, c.Names (names.zip d.parameters) x s → x.depth ≤ depthLimit →
    u.Names [] (c.instantiate d.name names es x) b
  definition : ∀ {e}, c.shape? s = some (.named e) → b = s

theorem IsImage.mono (hi : IsImage c d names es t s b) (q : t.Steady u) :
    IsImage c d names es u s b where
  names hx hdepth := q.names (hi.names hx hdepth)
  definition := hi.definition

namespace Instance

variable (i : c.Instance h d names es as) (hne : d.parameters ≠ [])
include i hne

theorem substitute_eq (s : Handle) : substitute (d.parameters.zip as) s =
    substituteWithin (d.parameters.zip as) (depthLimit + 1) s := by
  have hlength : as.length = d.parameters.length :=
    i.arguments.length_eq.symm.trans i.length
  rw [substitute, if_neg]
  obtain ⟨p, ps, hp⟩ := List.exists_cons_of_ne_nil hne
  rw [hp] at hlength ⊢
  obtain ⟨a, as', rfl⟩ := List.exists_cons_of_length_eq_add_one hlength
  simp

variable (w : c.WellFormed noneForeign)
include w

theorem isImage_substitute (g : c.GrowsTo t) (wt : t.WellFormed noneForeign)
    (hs : c.knows s = true) :
    (substitute (d.parameters.zip as) s t).2.WellFormed noneForeign ∧
      IsImage c d names es (substitute (d.parameters.zip as) s t).2 s
        (substitute (d.parameters.zip as) s t).1 := by
  constructor
  · apply wt.substitute _ _ (g.knows hs)
    · intro p hp
      obtain ⟨name, cs, hps⟩ := (w.owned i.shape).parameter p hp
      exact g.knows (knows_of_shape? hps)
    · exact wt.knows_of_closed (g.steady.namesAll i.arguments)
  · rw [i.substitute_eq hne]
    constructor
    · intro x hx hdepth
      exact (i.commutes w x hx (Nat.lt_succ_of_le hdepth) g wt).2
    · intro e he
      rw [substituteWithin_named (i.lookup_eq_none w he (by simp))
        (g.shape?_of_some he)]

theorem isImage_mapM {l : List Handle} (hl : ∀ s ∈ l, c.knows s = true)
    (g : c.GrowsTo t) (wt : t.WellFormed noneForeign) :
    (l.mapM (substitute (d.parameters.zip as)) t).2.WellFormed noneForeign ∧
      List.Forall₂
        (IsImage c d names es
          (l.mapM (substitute (d.parameters.zip as)) t).2) l
        (l.mapM (substitute (d.parameters.zip as)) t).1 := by
  induction l generalizing t with
  | nil => exact ⟨wt, .nil⟩
  | cons s l ih =>
      rw [List.forall_mem_cons] at hl
      obtain ⟨w', hs⟩ := i.isImage_substitute hne w g wt hl.1
      have g' := growsTo_substitute (d.parameters.zip as) s t
      obtain ⟨w'', hrest⟩ := ih hl.2 (g.trans g') w'
      have g'' := Interns.mapM (interns_substitute (d.parameters.zip as)) l
        (substitute (d.parameters.zip as) s t).2
      rw [List.mapM_cons]
      exact ⟨w'', .cons (hs.mono g''.steady) hrest⟩

/-- The supertypes of an instance are the images of the supertypes that its
definition states. -/
theorem isImage_supertypes (g : c.GrowsTo t) (wt : t.WellFormed noneForeign)
    (hs : t.shape? s = some (.constructed h as)) :
    (supertypes s t).2.WellFormed noneForeign ∧
      List.Forall₂ (IsImage c d names es (supertypes s t).2)
        (c.statedSupertypes s d) (supertypes s t).1 := by
  rw [supertypes_constructed hs (g.shape?_of_some i.shape),
    statedSupertypes_congr g.builtIn?_eq]
  exact i.isImage_mapM hne w (w.knows_statedSupertypes i.shape s) g wt

end Instance

end Verdicts.Table
