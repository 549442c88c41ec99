import Verdicts.Proofs.Lists
import Verdicts.Proofs.Naming.Names
import Verdicts.Proofs.Naming.Substitution

/-!
# Instances of generic types

A generic type with type arguments has the supertypes that its declaration
writes, with the arguments in place of the type parameters.  The table replaces
handles inside the supertypes that it stored for the declaration; a reader would
replace the names of the parameters in the written expression.  This module
relates the two.

They differ in one place.  The generic type applied to its own type parameters
is the bare definition, and the table does not look inside a definition.  So
where an expression mentions the declared type over its own parameters, the
table leaves the bare definition standing.
-/

namespace Verdicts

namespace Table

variable {c t u : Table} {h s : Handle} {d : Definition} {names : List String}
  {es : List TypeExpr} {as : List Handle}

/-! ## Steps of the substitution -/

section

variable {σ : Substitution} {levels : Nat}

theorem substituteWithin_image {image : Handle}
    (hl : σ.lookup s = some image) (t : Table) :
    substituteWithin σ (levels + 1) s t = (image, t) := by
  rw [substituteWithin, hl]
  rfl

theorem substituteWithin_array {e : Handle} (hl : σ.lookup s = none)
    (hs : t.shape? s = some (.array e)) :
    substituteWithin σ (levels + 1) s t =
      (substituteWithin σ levels e >>= arrayOf) t := by
  rw [substituteWithin, hl]
  simp only [bind_apply, get_apply, hs]

theorem substituteWithin_constructed {k : Handle} {bs : List Handle}
    (hl : σ.lookup s = none) (hs : t.shape? s = some (.constructed k bs)) :
    substituteWithin σ (levels + 1) s t =
      (bs.mapM (substituteWithin σ levels) >>= construct k) t := by
  rw [substituteWithin, hl]
  simp only [bind_apply, get_apply, hs]

theorem substituteWithin_named {e : Definition} (hl : σ.lookup s = none)
    (hs : t.shape? s = some (.named e)) :
    substituteWithin σ (levels + 1) s t = (s, t) := by
  rw [substituteWithin, hl]
  simp only [bind_apply, get_apply, hs, pure_apply]

end

/-! ## Instances -/

/-- Arguments for the type parameters of a definition that is no built-in type,
and expressions that name the arguments.  The type parameters are visible by the
given names. -/
structure Instance (t : Table) (h : Handle) (d : Definition)
    (names : List String) (es : List TypeExpr) (as : List Handle) :
    Prop where
  shape : t.shape? h = some (.named d)
  builtIn : d.builtIn = none
  keyword : BuiltIn.ofKeyword? d.name = none
  names : names.length = d.parameters.length
  arguments : List.Forall₂ (t.Names []) es as
  length : es.length = d.parameters.length

/-- Whether a name with type arguments is the definition of the given stored
name applied to its own type parameters, of which the names are given. -/
def appliesOwn (t : Table) (bare : String) (names : List String) :
    TypeExpr.Application := fun name es =>
  t.generic? name es.length = t.named? bare && names.Nodup
    && es.map TypeExpr.plainName? = names.map some

/-- No argument named outside all scopes is a type parameter. -/
theorem not_owns_of_closed (w : t.WellFormed noneForeign) {k : Handle}
    {es : List TypeExpr} {bs : List Handle} (hne : es ≠ [])
    (hall : List.Forall₂ (t.Names []) es bs) : ¬t.ownsAll k bs = true := by
  intro hown
  obtain ⟨e, he, rfl⟩ := ownsAll_iff.mp hown
  cases hp : e.parameters with
  | nil =>
      rw [hp, List.forall₂_nil_right_iff] at hall
      exact hne hall
  | cons p ps =>
      rw [hp, List.forall₂_cons_right_iff] at hall
      obtain ⟨e', -, hp', -⟩ := hall
      obtain ⟨name, cs, hs⟩ := (w.owned he).parameter p (by simp [hp])
      obtain ⟨n, -, hl⟩ := plain_of_names_parameter hp' hs
      cases hl

theorem shape?_of_applies_closed (w : t.WellFormed noneForeign) {k b : Handle}
    {es : List TypeExpr} {bs : List Handle} (hne : es ≠ [])
    (hall : List.Forall₂ (t.Names []) es bs) (hb : t.Applies k bs b) :
    t.shape? b = some (.constructed k bs) := by
  rwa [Applies, if_neg (not_owns_of_closed w hne hall)] at hb

/-- Expressions that name type parameters are plain names. -/
theorem plain_of_namesAll_parameters {scope : Scope} {xs : List TypeExpr}
    {ps : List Handle} (hall : List.Forall₂ (t.Names scope) xs ps)
    (hps : ∀ p ∈ ps, ∃ name cs, t.shape? p = some (.parameter name cs)) :
    ∃ ms : List String, xs = ms.map (fun n => .named n []) ∧
      List.Forall₂ (fun n p => scope.lookup n = some p) ms ps := by
  induction hall with
  | nil => exact ⟨[], rfl, .nil⟩
  | cons hx _ ih =>
      rw [List.forall_mem_cons] at hps
      obtain ⟨⟨name, cs, hs⟩, hps⟩ := hps
      obtain ⟨n, rfl, hl⟩ := plain_of_names_parameter hx hs
      obtain ⟨ms, rfl, hms⟩ := ih hps
      exact ⟨n :: ms, rfl, .cons hl hms⟩

namespace Instance

variable (i : c.Instance h d names es as)
include i

theorem ownsAll_eq_appliesOwn (w : c.WellFormed noneForeign)
    {name : String} {xs : List TypeExpr} {k : Handle} {bs : List Handle}
    (hne : xs ≠ []) (hk : c.generic? name xs.length = some k)
    (hall : List.Forall₂ (c.Names (names.zip d.parameters)) xs bs) :
    c.ownsAll k bs = c.appliesOwn d.name names name xs := by
  have hnamed : c.named? d.name = some h := w.named?_of_definition i.shape
  rw [Bool.eq_iff_iff, ownsAll_iff]
  simp only [appliesOwn, hk, hnamed, Bool.and_eq_true, decide_eq_true_eq,
    Option.some.injEq, and_assoc]
  constructor
  · rintro ⟨e, he, rfl⟩
    obtain ⟨ms, rfl, hms⟩ :=
      plain_of_namesAll_parameters hall (w.owned he).parameter
    have hk : k = h := by
      obtain _ | ⟨m, ms⟩ := ms
      · exact absurd rfl hne
      · obtain ⟨p, ps, hl, -, heq⟩ := List.forall₂_cons_left_iff.mp hms
        apply w.owner_unique he i.shape (p := p) (by simp [heq])
        exact (mem_of_lookup_zip hl).2
    subst hk
    cases he.symm.trans i.shape
    obtain ⟨rfl, hnodup⟩ :=
      eq_of_lookup_zip i.names (w.parameters_nodup i.shape) hms
    exact ⟨rfl, hnodup, TypeExpr.map_plainName?_iff.mpr rfl⟩
  · rintro ⟨rfl, hnodup, hplain⟩
    obtain rfl := TypeExpr.map_plainName?_iff.mp hplain
    refine ⟨d, i.shape, ?_⟩
    have hown : List.Forall₂
        (fun n p => c.Names (names.zip d.parameters) (.named n []) p) names
        d.parameters := by
      apply (lookup_zip_of_nodup i.names hnodup).imp
      intro n p hl
      rw [Names, nameType?, hl]
    apply List.right_unique_forall₂' _ hown
      (List.forall₂_map_left_iff.mp hall)
    intro n p q hp hq
    exact w.names_unique hp hq

end Instance

/-! ## Well-formed tables under construction -/

theorem WellFormed.arrayOf (w : t.WellFormed noneForeign) {e : Handle}
    (he : t.knows e = true) : (arrayOf e t).2.WellFormed noneForeign :=
  w.of_agree (interns_arrayOf e) (avoids_noneForeign _)
    (agree_arrayOf (itself_self (.inl he)))

theorem WellFormed.construct (w : t.WellFormed noneForeign) {k : Handle}
    {bs : List Handle} (hk : t.knows k = true)
    (hbs : ∀ b ∈ bs, t.knows b = true) :
    (construct k bs t).2.WellFormed noneForeign :=
  w.of_agree (interns_construct k bs) (avoids_noneForeign _)
    (agree_construct (itself_self (.inl hk))
      (forall₂_itself fun b hb => .inl (hbs b hb)))

theorem WellFormed.knows_of_closed (w : t.WellFormed noneForeign)
    {es : List TypeExpr} {bs : List Handle}
    (hall : List.Forall₂ (t.Names []) es bs) :
    ∀ b ∈ bs, t.knows b = true := by
  induction hall with
  | nil =>
      intro b hb
      cases hb
  | cons he _ ih =>
      exact List.forall_mem_cons.mpr
        ⟨w.knows_of_names (fun p hp => by cases hp) he, ih⟩

/-! ## Types without parameters -/

/-- A type that is named outside all scopes is not changed, and nothing is
stored. -/
theorem substituteWithin_closed (w : t.WellFormed noneForeign)
    {σ : Substitution} (hσ : ∀ {h}, (σ.lookup h).isSome = true →
      ∃ name cs, t.shape? h = some (.parameter name cs))
    (levels : Nat) {e : TypeExpr} (he : t.Names [] e s) :
    substituteWithin σ levels s t = (s, t) := by
  induction levels generalizing s e with
  | zero => rfl
  | succ levels ih =>
      have hl : σ.lookup s = none := by
        rw [← Option.not_isSome_iff_eq_none]
        intro hsome
        obtain ⟨name, cs, hs⟩ := hσ hsome
        obtain ⟨n, -, hl⟩ := plain_of_names_parameter he hs
        cases hl
      rcases shape?_of_closed he with
        ⟨d, hs⟩ | ⟨a, e', hs, ha⟩ | ⟨k, bs, xs, hs, -, hne, hbs⟩
      · exact substituteWithin_named hl hs
      · rw [substituteWithin_array hl hs, bind_apply, ih ha,
          arrayOf_eq_intern,
          intern_apply_of_some (w.stored?_of_shape? rfl hs)]
      · have hmap : (bs.mapM (substituteWithin σ levels)) t = (bs, t) := by
          clear hs hne
          induction hbs with
          | nil => rfl
          | cons hb _ ihbs =>
              rw [List.mapM_cons, bind_apply, ih hb, bind_apply, ihbs]
              rfl
        rw [substituteWithin_constructed hl hs, bind_apply, hmap]
        apply construct_of_applies w
        rwa [Applies, if_neg (not_owns_of_closed w hne hbs)]

/-! ## Substitution commutes with naming -/

/-- The expression with type arguments in place of the names of the type
parameters, as far as the table replaces them: the definition over its own type
parameters becomes the bare definition. -/
def instantiate (c : Table) (bare : String) (names : List String)
    (es : List TypeExpr) : TypeExpr → TypeExpr :=
  TypeExpr.instantiate (c.appliesOwn bare names) bare (names.zip es)

/-- Replacing type parameters in what an expression names, in any later table,
gives what the instantiated expression names. -/
def Commutes (c : Table) (d : Definition) (names : List String)
    (es : List TypeExpr) (as : List Handle) (e : TypeExpr) : Prop :=
  ∀ ⦃s levels t⦄, c.Names (names.zip d.parameters) e s → e.depth < levels →
    c.GrowsTo t → t.WellFormed noneForeign →
      (substituteWithin (d.parameters.zip as) levels s t).2.WellFormed
          noneForeign ∧
        (substituteWithin (d.parameters.zip as) levels s t).2.Names []
          (c.instantiate d.name names es e)
          (substituteWithin (d.parameters.zip as) levels s t).1

/-- The expressions commute one after the other. -/
theorem mapM_substituteWithin {levels : Nat} {xs : List TypeExpr}
    {bs : List Handle} (hxs : ∀ x ∈ xs, Commutes c d names es as x)
    (hdepth : ∀ x ∈ xs, x.depth < levels)
    (hall : List.Forall₂ (c.Names (names.zip d.parameters)) xs bs)
    (g : c.GrowsTo t) (w : t.WellFormed noneForeign) :
    ((bs.mapM (substituteWithin (d.parameters.zip as) levels)) t).2.WellFormed
        noneForeign ∧
      List.Forall₂
        (((bs.mapM (substituteWithin (d.parameters.zip as) levels)) t).2.Names
          [])
        (xs.map (c.instantiate d.name names es))
        ((bs.mapM (substituteWithin (d.parameters.zip as) levels)) t).1 := by
  induction hall generalizing t with
  | nil => exact ⟨w, .nil⟩
  | @cons x b xs bs hx _ ih =>
      rw [List.forall_mem_cons] at hxs hdepth
      obtain ⟨w', hx'⟩ := hxs.1 hx hdepth.1 g w
      have g' : t.GrowsTo (substituteWithin (d.parameters.zip as) levels b t).2 :=
        interns_substituteWithin _ levels b t
      obtain ⟨w'', hrest⟩ := ih hxs.2 hdepth.2 (g.trans g') w'
      have g'' := Interns.mapM
        (interns_substituteWithin (d.parameters.zip as) levels) bs
        (substituteWithin (d.parameters.zip as) levels b t).2
      rw [List.mapM_cons]
      exact ⟨w'', .cons (g''.steady.names hx') hrest⟩

namespace Instance

variable (i : c.Instance h d names es as) (w : c.WellFormed noneForeign)
include i w

/-- The substitution leaves a type alone that is no type parameter. -/
theorem lookup_eq_none {sh : Shape} (hs : c.shape? s = some sh)
    (hsh : ∀ name cs, sh ≠ .parameter name cs) :
    (d.parameters.zip as).lookup s = none := by
  apply lookup_zip_eq_none
  intro hmem
  obtain ⟨name, cs, hs'⟩ := (w.owned i.shape).parameter s hmem
  rw [hs] at hs'
  exact hsh name cs (Option.some.inj hs')

/-- The stored name of the definition names it outside all scopes. -/
theorem names_bare (g : c.GrowsTo t) : t.Names [] (.named d.name []) h := by
  have hnamed : c.named? d.name = some h := w.named?_of_definition i.shape
  rw [Names, nameType?, List.lookup_nil]
  simp only [i.keyword, lookup?, g.named?_eq, hnamed]
  rfl

theorem commutes_plain (name : String) :
    Commutes c d names es as (.named name []) := by
  intro s levels t hs hdepth g wt
  obtain ⟨levels, rfl⟩ := Nat.exists_eq_add_one_of_ne_zero
    (Nat.ne_of_gt (Nat.zero_lt_of_lt hdepth))
  rw [Names] at hs
  obtain hl | ⟨hl, e, he⟩ := nameType?_cases hs
  · obtain ⟨x, a, hx, ha, hxa⟩ := lookup_zip_zip i.names i.length i.arguments
      (w.parameters_nodup i.shape) hl
    rw [substituteWithin_image ha, instantiate, TypeExpr.instantiate, hx]
    exact ⟨wt, g.steady.names hxa⟩
  · have hnone := i.lookup_eq_none w he (by simp)
    rw [substituteWithin_named hnone (g.shape?_of_some he), instantiate,
      TypeExpr.instantiate, lookup_zip_eq_none_of i.names hl]
    refine ⟨wt, ?_⟩
    rw [nameType?, hl] at hs
    rw [Option.getD_none, Names, g.steady.nameType?_eq, nameType?,
      List.lookup_nil]
    exact hs

theorem commutes_array {e : TypeExpr} (ih : Commutes c d names es as e) :
    Commutes c d names es as (.array e) := by
  intro s levels t hs hdepth g wt
  rw [TypeExpr.depth] at hdepth
  obtain ⟨levels, rfl⟩ := Nat.exists_eq_add_one_of_ne_zero
    (Nat.ne_of_gt (Nat.zero_lt_of_lt hdepth))
  rw [Names] at hs
  obtain ⟨a, ha, hs⟩ := hs
  obtain ⟨w', ha'⟩ := ih ha (Nat.lt_of_succ_lt_succ hdepth) g wt
  have hk := w'.knows_of_names (fun p hp => by cases hp) ha'
  rw [substituteWithin_array (i.lookup_eq_none w hs (by simp))
    (g.shape?_of_some hs), bind_apply, instantiate, TypeExpr.instantiate]
  refine ⟨w'.arrayOf hk, ?_⟩
  rw [Names]
  exact ⟨_, (growsTo_arrayOf _ _).steady.names ha', shape?_arrayOf _ _⟩

/-- Replacing type parameters in a constructed type replaces them in its
arguments. -/
theorem substituteWithin_arguments {levels : Nat} {k : Handle}
    {xs : List TypeExpr} {bs : List Handle}
    (hxs : ∀ x ∈ xs, Commutes c d names es as x)
    (hdepth : ∀ x ∈ xs, x.depth < levels)
    (hall : List.Forall₂ (c.Names (names.zip d.parameters)) xs bs)
    (hs : c.shape? s = some (.constructed k bs)) (g : c.GrowsTo t)
    (wt : t.WellFormed noneForeign) :
    (substituteWithin (d.parameters.zip as) (levels + 1) s t).2.WellFormed
        noneForeign ∧
      ∃ bs', List.Forall₂
          ((substituteWithin (d.parameters.zip as) (levels + 1) s t).2.Names [])
          (xs.map (c.instantiate d.name names es)) bs' ∧
        (substituteWithin (d.parameters.zip as) (levels + 1) s t).2.Applies k
          bs' (substituteWithin (d.parameters.zip as) (levels + 1) s t).1 := by
  obtain ⟨w', hall'⟩ := mapM_substituteWithin hxs hdepth hall g wt
  rw [substituteWithin_constructed (i.lookup_eq_none w hs (by simp))
    (g.shape?_of_some hs), bind_apply]
  have hk := knows_of_admits (w.admits_part hs (List.mem_cons_self ..))
  have g' := Interns.mapM
    (interns_substituteWithin (d.parameters.zip as) levels) bs t
  refine ⟨w'.construct (g'.knows (g.knows hk)) (w'.knows_of_closed hall'),
    _, ?_, applies_construct _ _ _⟩
  exact (growsTo_construct _ _ _).steady.namesAll hall'

theorem commutes_nullable {e : TypeExpr}
    (ih : Commutes c d names es as e) :
    Commutes c d names es as (.nullable e) := by
  intro s levels t hs hdepth g wt
  rw [TypeExpr.depth] at hdepth
  obtain ⟨levels, rfl⟩ := Nat.exists_eq_add_one_of_ne_zero
    (Nat.ne_of_gt (Nat.zero_lt_of_lt hdepth))
  rw [Names] at hs
  obtain ⟨a, k, ha, hk, hs⟩ := hs
  have hall : List.Forall₂ (c.Names (names.zip d.parameters)) [e] [a] :=
    .cons ha .nil
  -- The nullable definition is built in, and so not the declared one.
  have hown : ¬c.ownsAll k [a] = true := by
    intro hown
    obtain ⟨d', hd', hparameters⟩ := ownsAll_iff.mp hown
    obtain ⟨ms, -, hms⟩ := plain_of_namesAll_parameters hall
      (hparameters ▸ (w.owned hd').parameter)
    obtain ⟨m, -, hl, -, -⟩ := List.forall₂_cons_right_iff.mp hms
    obtain rfl : k = h :=
      w.owner_unique hd' i.shape (by simp [hparameters])
        (mem_of_lookup_zip hl).2
    obtain ⟨d'', hd'', hbuiltIn⟩ := definition?_of_builtIn? hk
    cases hd''.symm.trans i.shape
    rw [i.builtIn] at hbuiltIn
    cases hbuiltIn
  rw [Applies, if_neg hown] at hs
  obtain ⟨w', bs', hbs', happlies⟩ := i.substituteWithin_arguments w
    (List.forall_mem_singleton.mpr ih)
    (List.forall_mem_singleton.mpr (Nat.lt_of_succ_lt_succ hdepth)) hall hs g
    wt
  refine ⟨w', ?_⟩
  rw [List.map_singleton, List.forall₂_cons_left_iff] at hbs'
  obtain ⟨a', _, ha', hnil, rfl⟩ := hbs'
  obtain rfl := List.forall₂_nil_left_iff.mp hnil
  have g' : c.GrowsTo
      (substituteWithin (d.parameters.zip as) (levels + 1) s t).2 :=
    g.trans (interns_substituteWithin _ _ s t)
  rw [instantiate, TypeExpr.instantiate, Names]
  exact ⟨a', k, ha', (g'.builtIn?_eq _).trans hk, happlies⟩

theorem commutes_applied {name : String} {first : TypeExpr}
    {rest : List TypeExpr}
    (ih : ∀ x ∈ first :: rest, Commutes c d names es as x) :
    Commutes c d names es as (.named name (first :: rest)) := by
  intro s levels t hs hdepth g wt
  obtain ⟨levels, rfl⟩ := Nat.exists_eq_add_one_of_ne_zero
    (Nat.ne_of_gt (Nat.zero_lt_of_lt hdepth))
  rw [names_applied_iff] at hs
  obtain ⟨k, bs, hk, hall, hs⟩ := hs
  have hown := i.ownsAll_eq_appliesOwn w (List.cons_ne_nil first rest) hk hall
  rw [Applies, hown] at hs
  split at hs
  · next happlies =>
      -- The definition over its own parameters is not looked into.
      subst hs
      obtain ⟨e, he, -⟩ := ownsAll_iff.mp (hown.trans happlies)
      rw [substituteWithin_named (i.lookup_eq_none w he (by simp))
        (g.shape?_of_some he), instantiate,
        TypeExpr.instantiate_own happlies]
      have hs : s = h := by
        rw [appliesOwn, List.length_cons, hk,
          w.named?_of_definition i.shape] at happlies
        simp only [Bool.and_eq_true, decide_eq_true_eq,
          Option.some.injEq] at happlies
        exact happlies.1.1
      subst hs
      exact ⟨wt, i.names_bare w g⟩
  · next happlies =>
      have hlevels : ∀ x ∈ first :: rest, x.depth < levels := by
        intro x hx
        have hlt : x.depth < (TypeExpr.named name (first :: rest)).depth :=
          TypeExpr.depth_lt_of_mem hx
        omega
      obtain ⟨w', bs', hbs', happlies'⟩ :=
        i.substituteWithin_arguments w ih hlevels hall hs g wt
      refine ⟨w', ?_⟩
      have g' : c.GrowsTo
          (substituteWithin (d.parameters.zip as) (levels + 1) s t).2 :=
        g.trans (interns_substituteWithin _ _ s t)
      rw [instantiate, TypeExpr.instantiate_applied (by simpa using happlies),
        List.map_cons, names_applied_iff, List.length_map]
      exact ⟨k, bs', (g'.steady.generic?_eq _ _).trans hk, hbs', happlies'⟩

/-- Replacing type parameters by type arguments commutes with naming. -/
theorem commutes (e : TypeExpr) : Commutes c d names es as e := by
  induction e using TypeExpr.induction with
  | array e ih => exact i.commutes_array w ih
  | nullable e ih => exact i.commutes_nullable w ih
  | plain name => exact i.commutes_plain w name
  | applied name first rest ih => exact i.commutes_applied w ih

end Instance

end Table

end Verdicts
