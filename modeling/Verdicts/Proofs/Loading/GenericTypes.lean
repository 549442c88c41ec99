import Mathlib
import Verdicts.Proofs.Loading.Programs
import Verdicts.Proofs.Naming.Supertypes
import Verdicts.Proofs.Types.Walk

/-!
# Supertypes of generic types

A declared generic type with type arguments has the supertypes that its
declaration writes, with the arguments in place of the type parameters, and is
assignable to them.  The exception are expressions that mention the declared
type over its own type parameters: there the table leaves the bare definition
standing, which is another type than the one that the text with the arguments
names.
-/

namespace Verdicts

namespace Table

variable {c t u v : Table} {h k s b : Handle} {d : Definition}
  {names : List String} {es : List TypeExpr} {as : List Handle}

/-! ## Assignability to direct supertypes -/

theorem anyM_eq_true_of_mem {l : List Handle} (hb : b ∈ l)
    (f : Handle → StateM Table Bool) (t : Table) :
    (l.anyM (fun s => if s = b then return true else f s) t).1 = true := by
  induction l generalizing t with
  | nil => cases hb
  | cons a l ih =>
      rw [List.anyM_cons, bind_apply]
      by_cases ha : a = b
      · rw [if_pos ha]
        rfl
      · rw [if_neg ha]
        have hl := (List.mem_cons.mp hb).resolve_left (Ne.symm ha)
        cases (f a t).1 with
        | true => rfl
        | false => exact ih hl _

/-- A constructed type is assignable to its direct supertypes. -/
theorem assignable_of_mem_supertypes
    (hs : t.shape? s = some (.constructed k as))
    (hsource : isInertSource (t.kind s) = false)
    (htarget : isInertTarget (t.kind b) = false)
    (hb : b ∈ (supertypes s t).1) : (assignable s b t).1 = true := by
  rw [assignable, assignableWithin, bind_apply, get_apply]
  dsimp only
  split
  · exact knows_of_shape? hs
  rw [hsource, htarget, Bool.or_self, if_neg (by decide)]
  split
  · rfl
  rw [hs]
  dsimp only
  rw [bind_apply]
  exact anyM_eq_true_of_mem hb _ _

/-- What is named outside all scopes is of a known kind. -/
theorem isInertTarget_of_closed (w : t.WellFormed noneForeign)
    (hk : t.KnownKinds) {e : TypeExpr} (he : t.Names [] e b) :
    isInertTarget (t.kind b) = false := by
  rcases shape?_of_closed he with
    ⟨d, hd⟩ | ⟨a, e', ha, -⟩ | ⟨k, bs, es, hb, ⟨d, hd⟩, -, -⟩
  · rw [kind_of_named hd]
    exact hk hd
  · rw [kind, head_of_not_constructed (by simp [ha]), ha]
    rfl
  · rw [kind_of_constructed w (avoids_noneForeign t) hb, kind_of_named hd]
    exact hk hd

namespace Instance

variable (i : c.Instance h d names es as) (w : c.WellFormed noneForeign)
include i w

/-- An expression in the declaration that names a type without type parameters
has that type as its instance. -/
theorem names_closed {e x : TypeExpr} (he : c.Names [] e s)
    (hx : c.Names (names.zip d.parameters) x s) (hdepth : x.depth ≤ depthLimit)
    (g : c.GrowsTo v) (wv : v.WellFormed noneForeign) :
    v.Names [] (c.instantiate d.name names es x) s := by
  have hσ : ∀ {k}, ((d.parameters.zip as).lookup k).isSome = true →
      ∃ name cs, v.shape? k = some (.parameter name cs) := by
    intro k hk
    obtain ⟨a, ha⟩ := Option.isSome_iff_exists.mp hk
    obtain ⟨name, cs, hs⟩ :=
      (w.owned i.shape).parameter k (mem_of_lookup_zip ha).1
    exact ⟨name, cs, g.shape?_of_some hs⟩
  have hnames := (i.commutes w x hx (Nat.lt_succ_of_le hdepth) g wv).2
  rwa [substituteWithin_closed wv hσ _ (g.steady.names he)] at hnames

/-- An instance is assignable to what the instances of its written supertypes
name. -/
theorem assignable_instantiate (hne : d.parameters ≠ [])
    (hkinds : c.KnownKinds) (hsource : isInertSource d.kind = false)
    {e x : TypeExpr} (he : c.Names [] e s)
    (hs : c.shape? s = some (.constructed h as))
    (hx : c.Names (names.zip d.parameters) x k) (hdepth : x.depth ≤ depthLimit)
    (hk : k ∈ c.statedSupertypes s d ∨ k = s) (g : c.GrowsTo v)
    (wv : v.WellFormed noneForeign)
    (hb : v.Names [] (c.instantiate d.name names es x) b) :
    (Table.assignable s b v).1 = true := by
  have hsv := g.shape?_of_some hs
  rcases hk with hk | rfl
  · obtain ⟨w', hall⟩ := i.isImage_supertypes hne w g wv hsv
    obtain ⟨b', hb', himage⟩ := exists_of_forall₂ hall hk
    have g' : v.GrowsTo (supertypes s v).2 := interns_supertypes s v
    obtain rfl : b' = b :=
      w'.names_unique (himage.names hx hdepth) (g'.steady.names hb)
    apply assignable_of_mem_supertypes hsv _ _ hb'
    · rw [kind_of_constructed wv (avoids_noneForeign v) hsv,
        kind_of_named (g.shape?_of_some i.shape)]
      exact hsource
    · exact isInertTarget_of_closed wv (hkinds.steady g.steady) hb
  · obtain rfl : k = b :=
      wv.names_unique (i.names_closed w he hx hdepth g wv) hb
    exact assignable_self (knows_of_shape? hsv)

end Instance

end Table

open Table

namespace TypeDeclaration

variable {c t u v : Table} {h k s b : Handle} {d : TypeDeclaration}
  {e : Definition} {es : List TypeExpr} {as : List Handle} {x : TypeExpr}

/-! ## What a declaration writes -/

/-- The names of the type parameters. -/
def parameterNames (d : TypeDeclaration) : List String :=
  d.parameters.map (·.name)

/-- The type parameters of the declared type, by name. -/
def ownScope (d : TypeDeclaration) (t : Table) : Scope :=
  match t.named? d.storedName with
  | some h => d.scope t h
  | none => []

/-- The declaration writes the expression as its base. -/
def WritesBase (d : TypeDeclaration) (x : TypeExpr) : Prop :=
  ∃ text, d.base = some text ∧ TypeExpr.ofText text = .ok x

/-- The declaration writes the expression as one of its interfaces. -/
def WritesInterface (d : TypeDeclaration) (x : TypeExpr) : Prop :=
  ∃ text ∈ d.interfaces, TypeExpr.ofText text = .ok x

/-- The declaration writes the expression as its base or as an interface. -/
def Writes (d : TypeDeclaration) (x : TypeExpr) : Prop :=
  d.WritesBase x ∨ d.WritesInterface x

/-- The expression with type arguments in place of the type parameters, as the
text says. -/
def substituted (d : TypeDeclaration) (es : List TypeExpr) (x : TypeExpr) :
    TypeExpr :=
  x.substitute (d.parameterNames.zip es)

/-- The expression with type arguments in place of the type parameters, as the
table replaces them. -/
def instantiated (d : TypeDeclaration) (t : Table) (es : List TypeExpr)
    (x : TypeExpr) : TypeExpr :=
  t.instantiate d.storedName d.parameterNames es x

/-- Whether the expression mentions the declared type over its own type
parameters. -/
def mentionsItself (d : TypeDeclaration) (t : Table) (x : TypeExpr) : Bool :=
  x.mentions (t.appliesOwn d.storedName d.parameterNames)

/-- The direct supertypes that a declaration gives to its type over type
arguments, under the handle `h`: the written base, unless that is the very type,
or the implied base if none is written, and the written interfaces. -/
inductive Supertype (d : TypeDeclaration) (t : Table) (es : List TypeExpr)
    (h : Handle) : Handle → Prop where
  | base {x : TypeExpr} {b : Handle} (hx : d.WritesBase x)
      (hother : x.resolveIn (d.ownScope t) t ≠ (.ok h, t))
      (hb : (d.instantiated t es x).resolveIn [] t = (.ok b, t)) :
      Supertype d t es h b
  | implied {b : Handle} (hnone : d.base = none)
      (hb : t.impliedBase? d.kind.kind = some b) : Supertype d t es h b
  | interface {x : TypeExpr} {b : Handle} (hx : d.WritesInterface x)
      (hb : (d.instantiated t es x).resolveIn [] t = (.ok b, t)) :
      Supertype d t es h b

theorem appliesOwn_growsTo (g : t.GrowsTo u) (bare : String)
    (names : List String) : u.appliesOwn bare names = t.appliesOwn bare names := by
  funext name es
  rw [appliesOwn, appliesOwn, g.steady.generic?_eq, g.named?_eq]

theorem instantiated_growsTo (g : t.GrowsTo u) (es : List TypeExpr)
    (x : TypeExpr) : d.instantiated u es x = d.instantiated t es x := by
  rw [instantiated, instantiated, Table.instantiate, Table.instantiate,
    appliesOwn_growsTo g]

/-! ## One declared type over type arguments -/

/-- The declared type over type arguments in a loaded program. -/
structure Applied (d : TypeDeclaration) (t : Table) (es : List TypeExpr)
    (h : Handle) (e : Definition) (as : List Handle) (s : Handle) : Prop where
  wellFormed : t.WellFormed noneForeign
  knownKinds : t.KnownKinds
  connected : d.Connected t h e
  inst : t.Instance h e d.parameterNames es as
  shape : t.shape? s = some (.constructed h as)
  names : t.Names [] (.named d.name es) s

namespace Applied

variable (ha : d.Applied t es h e as s)
include ha

theorem ownScope_eq (g : t.GrowsTo u) :
    d.ownScope u = d.parameterNames.zip e.parameters := by
  have hnamed : u.named? d.storedName = some h := by
    rw [g.named?_eq, ← ha.connected.name]
    exact ha.wellFormed.named?_of_definition ha.connected.shape
  rw [ownScope, hnamed]
  dsimp only
  rw [scope, arguments, g.shape?_of_some ha.connected.shape, parameterNames]

theorem parameters_ne_nil : e.parameters ≠ [] := by
  intro hnil
  have hlength := ha.inst.length
  have hnames := ha.names
  rw [hnil] at hlength
  obtain rfl := List.length_eq_zero_iff.mp hlength
  rw [Names] at hnames
  obtain hl | ⟨-, e', he'⟩ := nameType?_cases hnames
  · cases hl
  · cases he'.symm.trans ha.shape

theorem base_of_writesBase (hx : d.WritesBase x) :
    ∃ k, e.base = some k ∧
      t.Names (d.parameterNames.zip e.parameters) x k := by
  obtain ⟨text, htext, hread⟩ := hx
  obtain ⟨k, hk, x', hread', hnames⟩ := ha.connected.based text htext
  cases hread.symm.trans hread'
  exact ⟨k, hk, hnames⟩

theorem mem_interfaces_of_writesInterface (hx : d.WritesInterface x) :
    ∃ k ∈ e.interfaces, t.Names (d.parameterNames.zip e.parameters) x k := by
  obtain ⟨text, htext, hread⟩ := hx
  obtain ⟨bs, hall, hiff⟩ := ha.connected.exists_interfaces
  obtain ⟨k, hk, x', hread', hnames⟩ := exists_of_forall₂ hall htext
  cases hread.symm.trans hread'
  exact ⟨k, (hiff k).mpr hk, hnames⟩

theorem writesInterface_of_mem_interfaces (hk : k ∈ e.interfaces) :
    ∃ x, d.WritesInterface x ∧
      t.Names (d.parameterNames.zip e.parameters) x k := by
  obtain ⟨bs, hall, hiff⟩ := ha.connected.exists_interfaces
  obtain ⟨text, htext, x, hread, hnames⟩ :=
    exists_of_forall₂ (List.Forall₂.flip hall) ((hiff k).mp hk)
  exact ⟨x, ⟨text, htext, hread⟩, hnames⟩

/-- Every written expression names a stated supertype, or the very type. -/
theorem stated_of_writes (hx : d.Writes x) :
    ∃ k, t.Names (d.parameterNames.zip e.parameters) x k ∧
      (k ∈ t.statedSupertypes s e ∨ k = s) := by
  rcases hx with hx | hx
  · obtain ⟨k, hk, hnames⟩ := ha.base_of_writesBase hx
    refine ⟨k, hnames, ?_⟩
    by_cases hself : k = s
    · exact .inr hself
    · exact .inl (mem_statedSupertypes.mpr (.inl ⟨by rw [hk]; rfl, hself⟩))
  · obtain ⟨k, hk, hnames⟩ := ha.mem_interfaces_of_writesInterface hx
    exact ⟨k, hnames, .inl (mem_statedSupertypes.mpr (.inr hk))⟩

/-- A direct supertype is what the declaration gives. -/
theorem supertype_of_isImage (g : t.GrowsTo u) (wu : u.WellFormed noneForeign)
    (hdepth : ∀ x, d.Writes x → x.depth ≤ depthLimit)
    (hk : k ∈ t.statedSupertypes s e)
    (hb : IsImage t e d.parameterNames es u k b) : d.Supertype u es s b := by
  have himage : ∀ {x}, d.Writes x →
      t.Names (d.parameterNames.zip e.parameters) x k →
        (d.instantiated u es x).resolveIn [] u = (.ok b, u) := by
    intro x hx hnames
    rw [instantiated_growsTo g, instantiated, ← ha.connected.name]
    exact TypeExpr.resolveIn_of_names wu (hb.names hnames (hdepth x hx))
  rcases mem_statedSupertypes.mp hk with ⟨hbase, hself⟩ | hk
  · cases hwritten : d.base with
    | none =>
        rw [ha.connected.unbased hwritten] at hbase
        have himplied : t.impliedBase? e.kind = some k := by
          cases hi : t.impliedBase? e.kind <;> rw [hi] at hbase <;> exact hbase
        obtain ⟨e', he'⟩ := definition_of_impliedBase? himplied
        obtain rfl := hb.definition he'
        refine .implied hwritten ?_
        rw [impliedBase?_congr g.builtIn?_eq, ← ha.connected.kind]
        exact himplied
    | some text =>
        obtain ⟨k', hk', x, hread, hnames⟩ := ha.connected.based text hwritten
        rw [hk'] at hbase
        obtain rfl : k' = k := Option.some.inj hbase
        refine .base ⟨text, hwritten, hread⟩ ?_
          (himage (.inl ⟨text, hwritten, hread⟩) hnames)
        rw [ha.ownScope_eq g]
        intro hresolve
        have hs := TypeExpr.names_of_resolveIn hresolve
        exact hself (wu.names_unique (g.steady.names hnames) hs)
  · obtain ⟨x, hx, hnames⟩ := ha.writesInterface_of_mem_interfaces hk
    exact .interface hx (himage (.inr hx) hnames)

/-- What the declaration gives is the image of a stated supertype. -/
theorem isImage_of_supertype (g : t.GrowsTo u) (wu : u.WellFormed noneForeign)
    (hdepth : ∀ x, d.Writes x → x.depth ≤ depthLimit)
    (hb : d.Supertype u es s b) :
    ∃ k ∈ t.statedSupertypes s e, ∀ b',
      IsImage t e d.parameterNames es u k b' → b' = b := by
  have himage : ∀ {x k}, d.Writes x →
      t.Names (d.parameterNames.zip e.parameters) x k →
        (d.instantiated u es x).resolveIn [] u = (.ok b, u) →
          ∀ b', IsImage t e d.parameterNames es u k b' → b' = b := by
    intro x k hx hnames hresolve b' hb'
    rw [instantiated_growsTo g, instantiated, ← ha.connected.name] at hresolve
    exact wu.names_unique (hb'.names hnames (hdepth x hx))
      (TypeExpr.names_of_resolveIn hresolve)
  cases hb with
  | base hx hother hb =>
      obtain ⟨k, hk, hnames⟩ := ha.base_of_writesBase hx
      refine ⟨k, mem_statedSupertypes.mpr (.inl ⟨by rw [hk]; rfl, ?_⟩),
        himage (.inl hx) hnames hb⟩
      rintro rfl
      apply hother
      rw [ha.ownScope_eq g]
      exact TypeExpr.resolveIn_of_names wu (g.steady.names hnames)
  | implied hnone hb =>
      rw [impliedBase?_congr g.builtIn?_eq, ← ha.connected.kind] at hb
      obtain ⟨e', he'⟩ := definition_of_impliedBase? hb
      refine ⟨b, mem_statedSupertypes.mpr (.inl ⟨?_, ?_⟩), fun b' hb' =>
        hb'.definition he'⟩
      · rw [ha.connected.unbased hnone, hb]
        rfl
      · rintro rfl
        cases he'.symm.trans ha.shape
  | interface hx hb =>
      obtain ⟨k, hk, hnames⟩ := ha.mem_interfaces_of_writesInterface hx
      exact ⟨k, mem_statedSupertypes.mpr (.inr hk),
        himage (.inr hx) hnames hb⟩

/-- The direct supertypes are those that the declaration gives. -/
theorem mem_supertypes_iff
    (hdepth : ∀ x, d.Writes x → x.depth ≤ depthLimit) :
    b ∈ (supertypes s t).1 ↔ d.Supertype (supertypes s t).2 es s b := by
  have g : t.GrowsTo (supertypes s t).2 := interns_supertypes s t
  obtain ⟨wu, hall⟩ := ha.inst.isImage_supertypes ha.parameters_ne_nil
    ha.wellFormed (.refl t) ha.wellFormed ha.shape
  constructor
  · intro hb
    obtain ⟨k, hk, himage⟩ := exists_of_forall₂ (List.Forall₂.flip hall) hb
    exact ha.supertype_of_isImage g wu hdepth hk himage
  · intro hb
    obtain ⟨k, hk, honly⟩ := ha.isImage_of_supertype g wu hdepth hb
    obtain ⟨b', hb', himage⟩ := exists_of_forall₂ hall hk
    rwa [← honly b' himage]

/-- The type is assignable to what the table puts in place of a written
expression, and that is what the text names unless the expression mentions the
declared type over its own type parameters. -/
theorem assignable_instantiated (hx : d.Writes x)
    (hdepth : x.depth ≤ depthLimit) :
    ∃ b u b' v, (d.instantiated t es x).resolveIn [] t = (.ok b, u) ∧
      (d.substituted es x).resolveIn [] u = (.ok b', v) ∧
      (assignable s b v).1 = true ∧
      (b = b' ↔ d.mentionsItself t x = false) := by
  obtain ⟨k, hnames, hk⟩ := ha.stated_of_writes hx
  have w := ha.wellFormed
  have hinstantiated : d.instantiated t es x =
      t.instantiate e.name d.parameterNames es x := by
    rw [ha.connected.name, instantiated]
  obtain ⟨b, u, hb⟩ := ha.inst.resolves_instantiate w hnames (.refl t) w
  have g := TypeExpr.growsTo_resolveIn hb
  have wu := TypeExpr.wellFormed_resolveIn w hb
  obtain ⟨b', v, hb'⟩ := ha.inst.resolves_substitute w hnames g wu
  have g' := TypeExpr.growsTo_resolveIn hb'
  have wv := TypeExpr.wellFormed_resolveIn wu hb'
  have hbv := g'.steady.names (TypeExpr.names_of_resolveIn hb)
  have hsource : isInertSource e.kind = false := by
    rw [ha.connected.kind]
    cases d.kind <;> rfl
  refine ⟨b, u, b', v, hinstantiated ▸ hb, hb', ?_, ?_⟩
  · exact ha.inst.assignable_instantiate w ha.parameters_ne_nil
      ha.knownKinds hsource ha.names ha.shape hnames hdepth hk (g.trans g') wv
      hbv
  · rw [mentionsItself, ← ha.connected.name]
    exact ha.inst.eq_iff_not_mentions w (g.trans g') wv hbv
      (TypeExpr.names_of_resolveIn hb')

end Applied

theorem ofKeyword?_storedName (hd : d.parameters ≠ []) :
    BuiltIn.ofKeyword? d.storedName = none := by
  have hplain : ∀ b ∈ BuiltIn.all, ∀ keyword ∈ b.keyword?,
      '\x60' ∉ keyword.toList := by
    decide
  rw [BuiltIn.ofKeyword?, List.find?_eq_none]
  intro b hb heq
  apply hplain b hb d.storedName (by simpa using heq)
  rw [storedName, if_neg (by simpa using hd), String.toList_append,
    String.toList_append]
  simp

end TypeDeclaration

namespace Manifest

variable {m : Manifest} {p : Program} {d : TypeDeclaration}
  {es : List TypeExpr} {h : Handle} {t : Table}

/-- A generic type of a loaded manifest, over type arguments. -/
theorem applied_of_load (hm : m.load = .ok p) (hd : d ∈ m.types)
    (hgeneric : d.parameters ≠ []) (hlength : es.length = d.parameters.length)
    (hh : (TypeExpr.named d.name es).resolveIn [] p.table = (.ok h, t)) :
    ∃ k e as, d.Applied t es k e as h := by
  obtain ⟨k, e, hc⟩ := connected_of_load hm hd
  have wp := wellFormed_of_load hm
  have g := TypeExpr.growsTo_resolveIn hh
  have w := TypeExpr.wellFormed_resolveIn wp hh
  have hc := hc.kept (g.keepsBut []) (by simp)
  have hnames := TypeExpr.names_of_resolveIn hh
  obtain _ | ⟨first, rest⟩ := es
  · exact absurd (List.length_eq_zero_iff.mp hlength.symm) hgeneric
  have happlied := names_applied_iff.mp hnames
  obtain ⟨k', as, hk', has, hshape⟩ := happlied
  have hnamed : t.named? d.storedName = some k := by
    rw [← hc.name]
    exact w.named?_of_definition hc.shape
  have hgenericName : t.generic? d.name (rest.length + 1) = some k := by
    rw [List.length_cons] at hlength
    rw [generic?, hlength, lookup?]
    rw [TypeDeclaration.storedName, if_neg (by simpa using hgeneric)] at hnamed
    rw [hnamed]
    rfl
  obtain rfl : k' = k := Option.some.inj (hk'.symm.trans hgenericName)
  refine ⟨k', e, as,
    { wellFormed := w
      knownKinds := (knownKinds_of_load hm).steady g.steady
      connected := hc
      inst :=
        { shape := hc.shape
          builtIn := hc.builtIn
          keyword := hc.name ▸ TypeDeclaration.ofKeyword?_storedName hgeneric
          names := ?_
          arguments := has
          length := hlength.trans hc.length_parameters.symm }
      shape := shape?_of_applies_closed w (List.cons_ne_nil _ _) has hshape
      names := hnames }⟩
  rw [TypeDeclaration.parameterNames, List.length_map, hc.length_parameters]

/-- A declared generic type over type arguments has exactly the direct
supertypes that its declaration gives, and is assignable to what the table puts
in place of each written expression of at most `depthLimit` levels.  That is the
type which the text with the arguments names if and only if the expression does
not mention the declared type over its own type parameters. -/
theorem supertypes_of_load (hm : m.load = .ok p) (hd : d ∈ m.types)
    (hgeneric : d.parameters ≠ []) (hlength : es.length = d.parameters.length)
    (hh : (TypeExpr.named d.name es).resolveIn [] p.table = (.ok h, t)) :
    ((∀ x, d.Writes x → x.depth ≤ depthLimit) → ∀ b,
      b ∈ (supertypes h t).1 ↔ d.Supertype (supertypes h t).2 es h b) ∧
    ∀ x, d.Writes x → x.depth ≤ depthLimit →
      ∃ b u b' v, (d.instantiated t es x).resolveIn [] t = (.ok b, u) ∧
        (d.substituted es x).resolveIn [] u = (.ok b', v) ∧
        (assignable h b v).1 = true ∧
        (b = b' ↔ d.mentionsItself t x = false) := by
  obtain ⟨k, e, as, ha⟩ := applied_of_load hm hd hgeneric hlength hh
  constructor
  · intro hdepth b
    exact ha.mem_supertypes_iff hdepth
  · intro x hx hdepth
    exact ha.assignable_instantiated hx hdepth

/-- A box of things that lists boxes of the same things. -/
def boxType : TypeDeclaration :=
  { name := "Box", kind := .classType, isClosed := none, base := none,
    interfaces := ["IEnumerable<Box<T>>"], parameters := [⟨"T", none, []⟩] }

/-- The manifest that declares the box alone. -/
def boxManifest : Manifest :=
  { Manifest.empty with types := [boxType] }

/-- A box of numbers lists open boxes and no boxes of numbers. -/
theorem supertypes_of_load_box :
    ∃ p h t b u b' v, boxManifest.load = .ok p ∧
      (TypeExpr.named "Box" [.named "int" []]).resolveIn [] p.table =
        (.ok h, t) ∧
      (boxType.instantiated t [.named "int" []]
        (.named "IEnumerable" [.named "Box" [.named "T" []]])).resolveIn [] t =
          (.ok b, u) ∧
      (TypeExpr.named "IEnumerable"
        [.named "Box" [.named "int" []]]).resolveIn [] u = (.ok b', v) ∧
      (assignable h b v).1 = true ∧ (assignable h b' v).1 = false := by
  have hcheck : (match boxManifest.load with
      | .ok p =>
        match (TypeExpr.named "Box" [.named "int" []]).resolveIn [] p.table with
        | (.ok h, t) =>
          let u := ((boxType.instantiated t [.named "int" []]
            (.named "IEnumerable" [.named "Box" [.named "T" []]])).resolveIn []
              t).2
          match (TypeExpr.named "IEnumerable"
              [.named "Box" [.named "int" []]]).resolveIn [] u with
          | (.ok b', v) => !(assignable h b' v).1
          | (.error _, _) => false
        | (.error _, _) => false
      | .error _ => false) = true := by
    decide +kernel
  have hwrites : boxType.Writes
      (.named "IEnumerable" [.named "Box" [.named "T" []]]) :=
    .inr ⟨"IEnumerable<Box<T>>", List.mem_singleton.mpr rfl, by cbv⟩
  have hsubstituted : boxType.substituted [.named "int" []]
      (.named "IEnumerable" [.named "Box" [.named "T" []]]) =
        .named "IEnumerable" [.named "Box" [.named "int" []]] := by
    cbv
  cases hm : boxManifest.load with
  | error e =>
      rw [hm] at hcheck
      cases hcheck
  | ok p =>
      rw [hm] at hcheck
      dsimp only at hcheck
      rcases hh : (TypeExpr.named "Box" [.named "int" []]).resolveIn []
        p.table with ⟨e | h, t⟩
      · rw [hh] at hcheck
        cases hcheck
      · rw [hh] at hcheck
        dsimp only at hcheck
        obtain ⟨b, u, b', v, hb, hb', hassignable, -⟩ :=
          (supertypes_of_load hm (List.mem_singleton.mpr rfl) (by simp [boxType])
            rfl hh).2 _ hwrites (by decide)
        rw [hsubstituted] at hb'
        rw [hb] at hcheck
        dsimp only at hcheck
        rw [hb'] at hcheck
        exact ⟨p, h, t, b, u, b', v, rfl, hh, hb, hb', hassignable,
          by simpa using hcheck⟩

end Manifest

end Verdicts
