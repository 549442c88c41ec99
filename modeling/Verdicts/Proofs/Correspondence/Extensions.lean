import Verdicts.Proofs.Correspondence.Naming
import Verdicts.Proofs.Libraries.Declared
import Verdicts.Proofs.Lists
import Verdicts.Proofs.Naming.Names

/-!
# Two extensions of one table

Two tables that extend the same origin by definitions with the same names have a
world in common: a type of the origin stands for itself, an added definition for
the one with its name, a type parameter for the one at its place, and an array
or a constructed type for that of what stands for its parts.  In this world the
same expression names linked types, whatever bases and interfaces the added
definitions have.  The tables correspond as soon as these are linked too.
-/

namespace Verdicts.Table

variable {c t u : Table} {a b h : Handle}

/-- The second table holds the types of the first one as they were there, and
whatever it defines besides comes with its own type parameters. -/
structure Extends (c t : Table) : Prop where
  wellFormed : t.WellFormed noneForeign
  kept : ∀ {h s}, c.shape? h = some s → t.shape? h = some s
  builtIn : ∀ b, t.builtIn? b = c.builtIn? b
  conversions : t.conversions = c.conversions
  fresh : ∀ {h d}, c.Adds t h d → ∀ p ∈ d.parameters, c.knows p = false

/-- What stands for what in tables that both extend the same origin, structures
apart. -/
inductive Counterparts (c t u : Table) : World where
  | kept {a : Handle} (hk : c.knows a = true) : Counterparts c t u a a
  | definition {a b : Handle} {d e : Definition} (hd : c.Adds t a d) (he : c.Adds u b e)
      (hname : d.name = e.name) : Counterparts c t u a b
  | parameter {j k a b : Handle} {d e : Definition} (hd : c.Adds t j d)
      (he : c.Adds u k e) (hname : d.name = e.name)
      (hab : (a, b) ∈ d.parameters.zip e.parameters) : Counterparts c t u a b

/-- What stands for what in tables that both extend the same origin. -/
inductive Alongside (c t u : Table) : World where
  | counterpart {a b : Handle} (h : Counterparts c t u a b) : Alongside c t u a b
  | array {x y a b : Handle} (hx : t.shape? x = some (.array a))
      (hy : u.shape? y = some (.array b)) (hab : Alongside c t u a b) :
      Alongside c t u x y
  | constructed {x y d e : Handle} {as bs : List Handle}
      (hx : t.shape? x = some (.constructed d as))
      (hy : u.shape? y = some (.constructed e bs)) (hde : Alongside c t u d e)
      (hlength : as.length = bs.length)
      (hall : ∀ {a b}, (a, b) ∈ as.zip bs → Alongside c t u a b) :
      Alongside c t u x y

namespace Extends

theorem shape?_eq (ht : c.Extends t) (hk : c.knows h = true) :
    t.shape? h = c.shape? h := by
  obtain ⟨s, hs⟩ := exists_shape?_of_knows hk
  rw [ht.kept hs, hs]

/-- A parameter of an added definition is none of the origin, and no
definition. -/
theorem parameter (ht : c.Extends t) {d : Definition} (hd : c.Adds t h d)
    (ha : a ∈ d.parameters) : c.knows a = false ∧ ∃ name constraints,
      t.shape? a = some (.parameter name constraints) :=
  ⟨ht.fresh hd a ha, (ht.wellFormed.owned hd.shape).parameter a ha⟩

/-- What a name finds is of the origin, or was added under this name. -/
theorem adds_of_named? (ht : c.Extends t) (w : c.WellFormed noneForeign)
    {name : String} (hname : c.named? name = none) (hh : t.named? name = some h) :
    ∃ d, c.Adds t h d ∧ d.name = name := by
  obtain ⟨d, hd, rfl⟩ := definition?_of_named? hh
  refine ⟨d, ⟨?_, hd⟩, rfl⟩
  cases hk : c.knows h with
  | false => rfl
  | true =>
      rw [ht.shape?_eq hk] at hd
      rw [w.named?_of_definition hd] at hname
      cases hname

end Extends

namespace Counterparts

theorem symm (h : Counterparts c t u a b) : Counterparts c u t b a := by
  cases h with
  | kept hk => exact .kept hk
  | definition hd he hname => exact .definition he hd hname.symm
  | parameter hd he hname hab =>
      exact .parameter he hd hname.symm (mem_zip_swap hab)

variable (ht : c.Extends t) (hu : c.Extends u)
include ht

/-- Only the origin has structures that are counterparts. -/
theorem knows_of_structural (h : Counterparts c t u a b) {s : Shape}
    (hs : t.shape? a = some s) (hstr : s.isStructural = true) :
    c.knows a = true := by
  cases h with
  | kept hk => exact hk
  | definition hd =>
      rw [hd.shape] at hs
      cases hs
      cases hstr
  | parameter hd _ _ hab =>
      obtain ⟨-, name, constraints, hp⟩ := ht.parameter hd (List.of_mem_zip hab).1
      rw [hp] at hs
      cases hs
      cases hstr

include hu

theorem rightUnique : Relator.RightUnique (Counterparts c t u) := by
  have hknown : ∀ {a} {P : Prop}, c.knows a = true → c.knows a = false → P :=
    fun h h' => absurd (h.symm.trans h') (by decide)
  have hnamed : ∀ {a d k e} {P : Prop}, c.Adds t a d → c.Adds t k e →
      a ∈ e.parameters → P := by
    intro a d k e P hd he ha
    obtain ⟨-, name, constraints, hs⟩ := ht.parameter he ha
    rw [hd.shape] at hs
    cases hs
  intro a b b' h h'
  cases h with
  | kept hk =>
      cases h' with
      | kept => rfl
      | definition hd => exact hknown hk hd.unknown
      | parameter hd _ _ hab =>
          exact hknown hk (ht.parameter hd (List.of_mem_zip hab).1).1
  | definition hd he hname =>
      cases h' with
      | kept hk => exact hknown hk hd.unknown
      | definition hd' he' hname' =>
          cases hd.shape.symm.trans hd'.shape
          exact hu.wellFormed.nominal he.shape he'.shape
            (hname.symm.trans hname')
      | parameter hd' _ _ hab => exact hnamed hd hd' (List.of_mem_zip hab).1
  | parameter hd he hname hab =>
      have ha := (List.of_mem_zip hab).1
      cases h' with
      | kept hk => exact hknown hk (ht.parameter hd ha).1
      | definition hd' => exact hnamed hd' hd ha
      | parameter hd' he' hname' hab' =>
          have ha' := (List.of_mem_zip hab').1
          obtain rfl := ht.wellFormed.owner_unique hd.shape hd'.shape ha ha'
          cases hd.shape.symm.trans hd'.shape
          obtain rfl := hu.wellFormed.nominal he.shape he'.shape
            (hname.symm.trans hname')
          cases he.shape.symm.trans he'.shape
          exact right_eq_of_mem_zip
            (ht.wellFormed.parameters_nodup hd.shape) hab hab'

end Counterparts

namespace Alongside

theorem symm (h : Alongside c t u a b) : Alongside c u t b a := by
  induction h with
  | counterpart h => exact .counterpart h.symm
  | array hx hy _ ih => exact .array hy hx ih
  | constructed hx hy _ hlength _ ih ihall =>
      exact .constructed hy hx ih hlength.symm fun hab => ihall (mem_zip_swap hab)

theorem kept (hk : c.knows a = true) : Alongside c t u a a :=
  .counterpart (.kept hk)

end Alongside

/-- Two extensions of one table by definitions with the same names, whose type
parameters demand the same. -/
structure Parallel (c t u : Table) : Prop where
  origin : c.WellFormed noneForeign
  left : c.Extends t
  right : c.Extends u
  named : ∀ name, (t.named? name).isSome = (u.named? name).isSome
  parameters : ∀ {a b d e}, c.Adds t a d → c.Adds u b e → d.name = e.name →
    List.Forall₂ (fun p q => ∃ name k, t.shape? p = some (.parameter name k) ∧
      u.shape? q = some (.parameter name k) ∧ k.types = [])
      d.parameters e.parameters

namespace Parallel

theorem symm (w : c.Parallel t u) : c.Parallel u t where
  origin := w.origin
  left := w.right
  right := w.left
  named name := (w.named name).symm
  parameters hd he hname := (w.parameters he hd hname.symm).flip.imp
    fun _ _ ⟨name, k, hp, hq, hk⟩ => ⟨name, k, hq, hp, hk⟩

variable (w : c.Parallel t u)
include w

/-! ## One counterpart at most -/

/-- A type of the origin stands for itself alone. -/
theorem eq_of_knows (h : Alongside c t u a b) (hk : c.knows a = true) : b = a := by
  have hpart : ∀ {x s}, c.knows x = true → t.shape? x = some s →
      u.shape? x = some s ∧ ∀ p ∈ s.parts, c.knows p = true := by
    intro x s hx hs
    rw [w.left.shape?_eq hx] at hs
    exact ⟨w.right.kept hs, fun p hp => knows_of_admits (w.origin.admits_part hs hp)⟩
  induction h with
  | counterpart h => exact h.rightUnique w.left w.right (.kept hk)
  | array hx hy _ ih =>
      obtain ⟨hx', hparts⟩ := hpart hk hx
      rw [ih (hparts _ (List.mem_singleton_self _))] at hy
      exact w.right.wellFormed.interned rfl hy hx'
  | @constructed x y d e as bs hx hy _ hlength _ ih ihall =>
      obtain ⟨hx', hparts⟩ := hpart hk hx
      rw [Shape.parts, List.forall_mem_cons] at hparts
      have has : List.Forall₂ (fun a b => b = a) as bs :=
        List.forall₂_iff_zip.mpr
          ⟨hlength, fun hab => ihall hab (hparts.2 _ (List.of_mem_zip hab).1)⟩
      obtain rfl : as = bs := by
        rw [← List.forall₂_eq_eq_eq]
        exact has.imp fun _ _ => Eq.symm
      rw [ih hparts.1] at hy
      exact w.right.wellFormed.interned rfl hy hx'

theorem rightUnique : Relator.RightUnique (Alongside c t u) := by
  -- A structure that is a counterpart is one of the origin.
  have hknown : ∀ {x y y' s}, Counterparts c t u x y → Alongside c t u x y' →
      t.shape? x = some s → s.isStructural = true → y = y' := by
    intro x y y' s h h' hs hstr
    have hk := h.knows_of_structural w.left hs hstr
    rw [w.eq_of_knows (.counterpart h) hk, w.eq_of_knows h' hk]
  intro a b b' h h'
  induction h generalizing b' with
  | counterpart h =>
      cases h' with
      | counterpart h' => exact h.rightUnique w.left w.right h'
      | array hx hy hab => exact hknown h (.array hx hy hab) hx rfl
      | constructed hx hy hde hlength hall =>
          exact hknown h (.constructed hx hy hde hlength hall) hx rfl
  | array hx hy hab ih =>
      cases h' with
      | counterpart h' => exact (hknown h' (.array hx hy hab) hx rfl).symm
      | array hx' hy' hab' =>
          cases hx.symm.trans hx'
          rw [ih hab'] at hy
          exact w.right.wellFormed.interned rfl hy hy'
      | constructed hx' => cases hx.symm.trans hx'
  | @constructed x y d e as bs hx hy hde hlength hall ih ihall =>
      cases h' with
      | counterpart h' =>
          exact (hknown h' (.constructed hx hy hde hlength hall) hx rfl).symm
      | array hx' => cases hx.symm.trans hx'
      | @constructed _ _ _ e' _ bs' hx' hy' hde' hlength' hall' =>
          cases hx.symm.trans hx'
          have hbs : bs = bs' := by
            have hall'' : List.Forall₂ (Alongside c t u) as bs' :=
              List.forall₂_iff_zip.mpr ⟨hlength', hall'⟩
            refine eq_of_forall₂ ?_ hall''
            exact List.forall₂_iff_zip.mpr ⟨hlength, fun hab _ h => ihall hab h⟩
          rw [hbs, ih hde'] at hy
          exact w.right.wellFormed.interned rfl hy hy'

theorem leftUnique : Relator.LeftUnique (Alongside c t u) :=
  fun _ _ _ h h' => w.symm.rightUnique h.symm h'.symm

/-! ## Names -/

theorem rel_named (name : String) :
    Option.Rel (Alongside c t u) (t.named? name) (u.named? name) := by
  cases hc : c.named? name with
  | some h =>
      obtain ⟨d, hd, rfl⟩ := definition?_of_named? hc
      rw [w.left.wellFormed.named?_of_definition (w.left.kept hd),
        w.right.wellFormed.named?_of_definition (w.right.kept hd)]
      exact .some (.kept (knows_of_shape? hd))
  | none =>
      have hname := w.named name
      cases hh : t.named? name with
      | none =>
          rw [hh, Option.isSome_none, eq_comm, Option.isSome_eq_false_iff,
            Option.isNone_iff_eq_none] at hname
          rw [hname]
          exact .none
      | some a =>
          rw [hh, Option.isSome_some, eq_comm, Option.isSome_iff_exists] at hname
          obtain ⟨b, hb⟩ := hname
          obtain ⟨d, hd, hdname⟩ := w.left.adds_of_named? w.origin hc hh
          obtain ⟨e, he, hename⟩ := w.right.adds_of_named? w.origin hc hb
          rw [hb]
          exact .some (.counterpart (.definition hd he (hdname.trans hename.symm)))

theorem rel_builtIn (b : BuiltIn) :
    Option.Rel (Alongside c t u) (t.builtIn? b) (u.builtIn? b) := by
  rw [w.left.builtIn, w.right.builtIn]
  cases hh : c.builtIn? b with
  | none => exact .none
  | some h => exact .some (.kept (knows_of_builtIn? hh))

theorem findsAlike : t.FindsAlike (Alongside c t u) u :=
  ⟨w.rel_named, w.rel_builtIn⟩

/-- The type parameters of added definitions with one name are linked. -/
theorem parameters_linked {d e : Definition} (hd : c.Adds t a d)
    (he : c.Adds u b e) (hname : d.name = e.name) :
    List.Forall₂ (Alongside c t u) d.parameters e.parameters :=
  List.forall₂_iff_zip.mpr ⟨(w.parameters hd he hname).length_eq,
    fun hab => .counterpart (.parameter hd he hname hab)⟩

/-- The type parameters of linked definitions are linked. -/
theorem definition (h : Alongside c t u a b) {d : Definition}
    (hd : t.shape? a = some (.named d)) :
    ∃ e, u.shape? b = some (.named e) ∧
      List.Forall₂ (Alongside c t u) d.parameters e.parameters := by
  cases h with
  | counterpart h =>
      cases h with
      | kept hk =>
          rw [w.left.shape?_eq hk] at hd
          refine ⟨d, w.right.kept hd, List.forall₂_same.mpr fun p hp => ?_⟩
          exact .kept (knows_of_admits (w.origin.admits_part hd hp))
      | definition hd' he hname =>
          cases hd.symm.trans hd'.shape
          exact ⟨_, he.shape, w.parameters_linked hd' he hname⟩
      | parameter hd' _ _ hab =>
          obtain ⟨-, name, constraints, hp⟩ :=
            w.left.parameter hd' (List.of_mem_zip hab).1
          cases hd.symm.trans hp
  | array hx => cases hd.symm.trans hx
  | constructed hx => cases hd.symm.trans hx

/-- Linked arguments are the own parameters of linked definitions, or not. -/
theorem ownsAll_of {d e : Handle} {as bs : List Handle} (hde : Alongside c t u d e)
    (hall : List.Forall₂ (Alongside c t u) as bs) (h : t.ownsAll d as = true) :
    u.ownsAll e bs = true := by
  rw [ownsAll_iff] at h ⊢
  obtain ⟨x, hx, rfl⟩ := h
  obtain ⟨y, hy, hparameters⟩ := w.definition hde hx
  exact ⟨y, hy, w.rightUnique.forall₂ hparameters hall⟩

theorem ownsAll_eq {d e : Handle} {as bs : List Handle} (hde : Alongside c t u d e)
    (hall : List.Forall₂ (Alongside c t u) as bs) :
    t.ownsAll d as = u.ownsAll e bs := by
  rw [Bool.eq_iff_iff]
  exact ⟨w.ownsAll_of hde hall,
    w.symm.ownsAll_of hde.symm (hall.flip.imp fun _ _ => Alongside.symm)⟩

/-- What linked definitions make of linked arguments is linked. -/
theorem applies {d e x y : Handle} {as bs : List Handle}
    (hde : Alongside c t u d e) (hall : List.Forall₂ (Alongside c t u) as bs)
    (hx : t.Applies d as x) (hy : u.Applies e bs y) : Alongside c t u x y := by
  rw [Applies, w.ownsAll_eq hde hall] at hx
  rw [Applies] at hy
  split at hx
  · next hown =>
      rw [if_pos hown] at hy
      rwa [hx, hy]
  · next hown =>
      rw [if_neg hown] at hy
      rw [List.forall₂_iff_zip] at hall
      exact .constructed hx hy hde hall.1 hall.2

/-- An expression names linked types. -/
theorem names {scope scope' : Scope} (hs : ScopesMatch (Alongside c t u) scope scope')
    {e : TypeExpr} {x y : Handle} (hx : t.Names scope e x)
    (hy : u.Names scope' e y) : Alongside c t u x y := by
  induction e using TypeExpr.induction generalizing x y with
  | array e ih =>
      rw [Names] at hx hy
      obtain ⟨a, ha, hx⟩ := hx
      obtain ⟨b, hb, hy⟩ := hy
      exact .array hx hy (ih ha hb)
  | nullable e ih =>
      rw [Names] at hx hy
      obtain ⟨a, d, ha, hd, hx⟩ := hx
      obtain ⟨b, d', hb, hd', hy⟩ := hy
      have hdd := w.rel_builtIn .nullableT
      rw [hd, hd'] at hdd
      cases hdd with
      | some hdd => exact w.applies hdd (.cons (ih ha hb) .nil) hx hy
  | plain name =>
      rw [Names] at hx hy
      have hxy := w.findsAlike.nameType? hs name
      rw [hx, hy] at hxy
      cases hxy with
      | some hxy => exact hxy
  | applied name first rest ih =>
      rw [names_applied_iff] at hx hy
      obtain ⟨d, as, hd, has, hx⟩ := hx
      obtain ⟨d', bs, hd', hbs, hy⟩ := hy
      have hdd := w.findsAlike.lookup? (name ++ "`" ++ Text.numeral (rest.length + 1))
      rw [← generic?, ← generic?, hd, hd'] at hdd
      cases hdd with
      | some hdd =>
          have has' : List.Forall₂
              (fun e a => (∀ x y, t.Names scope e x → u.Names scope' e y →
                Alongside c t u x y) ∧ t.Names scope e a) (first :: rest) as :=
            List.forall₂_and_left _ _ |>.mpr ⟨fun e he _ _ => ih e he, has⟩
          refine w.applies hdd ?_ hx hy
          refine (forall₂_of_common has'.flip hbs.flip).imp ?_
          rintro a b ⟨e, ha, hb⟩
          exact ha.1 a b ha.2 hb

end Parallel

/-! ## Corresponding extensions -/

/-- The tables correspond if the added definitions with the same name do. -/
theorem Parallel.matches (w : c.Parallel t u)
    (hd : ∀ {a b d e}, c.Adds t a d → c.Adds u b e → d.name = e.name →
      d.Matches (Alongside c t u) e) :
    t.Matches noneForeign (Alongside c t u) u := by
  have hshape : ∀ {a b}, Alongside c t u a b → ∃ s s', t.shape? a = some s ∧
      u.shape? b = some s' ∧ s.Matches (Alongside c t u) s' := by
    intro a b h
    cases h with
    | counterpart h =>
        cases h with
        | kept hk =>
            obtain ⟨s, hs⟩ := exists_shape?_of_knows hk
            refine ⟨s, s, w.left.kept hs, w.right.kept hs, .of_self ?_ ?_⟩
            · exact fun x hx => .kept (knows_of_admits (w.origin.admits_part hs hx))
            · exact fun x hx => .kept (knows_of_admits (w.origin.linked hs hx))
        | definition hd' he hname =>
            exact ⟨_, _, hd'.shape, he.shape, .named (hd hd' he hname)⟩
        | parameter hd' he hname hab =>
            obtain ⟨name, k, hs, hs', hk⟩ :=
              List.forall₂_zip (w.parameters hd' he hname) hab
            refine ⟨_, _, hs, hs', .parameter ⟨rfl, rfl, rfl, ?_⟩⟩
            rw [hk]
            exact .nil
    | array hx hy hab => exact ⟨_, _, hx, hy, .array hab⟩
    | constructed hx hy hde hlength hall =>
        exact ⟨_, _, hx, hy,
          .constructed hde (List.forall₂_iff_zip.mpr ⟨hlength, hall⟩)⟩
  exact
    { left := w.left.wellFormed
      right := w.right.wellFormed
      avoidsLeft := t.avoids_noneForeign
      avoidsRight := u.avoids_noneForeign
      shape := fun h => by
        obtain ⟨s, s', hs, hs', hm⟩ := hshape h
        rw [hs, hs']
        exact .some hm
      unknown := fun h hnone => by
        obtain ⟨s, -, hs, -⟩ := hshape h
        cases hnone.symm.trans hs
      rightUnique := w.rightUnique
      leftUnique := w.leftUnique
      named := w.rel_named
      builtIn := w.rel_builtIn
      conversions := by
        rw [w.left.conversions, w.right.conversions]
        refine List.forall₂_same.mpr ?_
        rintro ⟨⟨x, y⟩, implicit⟩ hmem
        have hadm := w.origin.converting hmem
        exact ⟨.kept (knows_of_admits hadm.1), .kept (knows_of_admits hadm.2), rfl⟩ }

end Verdicts.Table
