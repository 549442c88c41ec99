import Verdicts.Proofs.Loading.Declaring
import Verdicts.Proofs.Loading.References
import Verdicts.Proofs.Naming.Names

/-!
# Connecting the types of a manifest

Once all types are declared, each gets the base and the interfaces that its
declaration writes.  The type expressions are resolved while the links of other
types are still being set; but nothing is declared any more, so what they name
then, they name in the loaded program.
-/

namespace Verdicts

variable {p p' : Program} {t u v : Table} {h k s : Handle} {scope : Scope}
  {hs : List Handle}

namespace Table

/-! ## Changing some definitions only -/

/-- The second table has no types with names of their own besides those of the
first one, and the shapes are the same but for the links of some definitions. -/
structure KeepsBut (hs : List Handle) (t u : Table) : Prop where
  steady : t.Steady u
  shape : ∀ {k s}, k ∉ hs → t.shape? k = some s → u.shape? k = some s

namespace KeepsBut

theorem refl (hs : List Handle) (t : Table) : t.KeepsBut hs t where
  steady := .refl t
  shape _ hk := hk

theorem trans (q : KeepsBut hs t u) (q' : KeepsBut hs u v) :
    KeepsBut hs t v where
  steady := q.steady.trans q'.steady
  shape hk hs := q'.shape hk (q.shape hk hs)

theorem mono (q : KeepsBut hs t u) {hs' : List Handle} (hsub : hs ⊆ hs') :
    KeepsBut hs' t u where
  steady := q.steady
  shape hk := q.shape fun hmem => hk (hsub hmem)

end KeepsBut

theorem GrowsTo.keepsBut (g : t.GrowsTo u) (hs : List Handle) :
    KeepsBut hs t u where
  steady := g.steady
  shape _ := g.shape?_of_some

/-- Moreover the conversions are the same. -/
structure Relinked (hs : List Handle) (t u : Table) : Prop
    extends KeepsBut hs t u where
  conversions : u.conversions = t.conversions

namespace Relinked

theorem refl (hs : List Handle) (t : Table) : t.Relinked hs t where
  toKeepsBut := .refl hs t
  conversions := rfl

theorem trans (q : Relinked hs t u) (q' : Relinked hs u v) :
    Relinked hs t v where
  toKeepsBut := q.toKeepsBut.trans q'.toKeepsBut
  conversions := q'.conversions.trans q.conversions

theorem mono (q : Relinked hs t u) {hs' : List Handle} (hsub : hs ⊆ hs') :
    Relinked hs' t u where
  toKeepsBut := q.toKeepsBut.mono hsub
  conversions := q.conversions

end Relinked

theorem GrowsTo.relinked (g : t.GrowsTo u) (hs : List Handle) :
    Relinked hs t u where
  toKeepsBut := g.keepsBut hs
  conversions := g.conversions

theorem relinked_redefined {change : Definition → Definition}
    (hchange : Relinks change) (t : Table) (h : Handle) :
    Relinked [h] t (t.redefined h change) where
  steady := steady_redefined hchange t h
  shape {k s} hk hs := by
    rw [shape?_redefined, if_neg (by simpa using hk)]
    exact hs
  conversions := conversions_redefined t h

theorem keepsBut_addConversion (source destination : Handle)
    (implicit : Bool) (t : Table) :
    KeepsBut [] t (addConversion source destination implicit t).2 where
  steady := steady_addConversion source destination implicit t
  shape _ hs := (shape?_addConversion ..).trans hs

/-! ## Texts -/

/-- The text is an expression that names the handle. -/
def NamesText (t : Table) (scope : Scope) (text : String) (h : Handle) :
    Prop :=
  ∃ e, TypeExpr.ofText text = .ok e ∧ t.Names scope e h

theorem NamesText.mono {text : String} (hn : t.NamesText scope text h)
    (q : t.Steady u) : u.NamesText scope text h := by
  obtain ⟨e, htext, he⟩ := hn
  exact ⟨e, htext, q.names he⟩

theorem resolveTextIn_eq_ok {text : String}
    (hr : resolveTextIn scope text t = (.ok h, u)) :
    t.GrowsTo u ∧ u.NamesText scope text h := by
  have g := interns_resolveTextIn scope text t
  rw [show (resolveTextIn scope text).run t = _ from hr] at g
  rw [resolveTextIn] at hr
  cases htext : TypeExpr.ofText text with
  | error e =>
      simp only [htext] at hr
      cases hr
  | ok e =>
      simp only [htext] at hr
      exact ⟨g, e, htext, TypeExpr.names_of_resolveIn hr⟩

end Table

open Table

namespace TypeDeclaration

variable {d : TypeDeclaration} {e : Definition}

/-! ## One declared type -/

theorem connectBase_eq_ok (he : t.shape? h = some (.named e))
    (hc : d.connectBase scope h t = (.ok (), u)) :
    Relinked [h] t u ∧ ∃ base,
      u.shape? h = some (.named { e with base := base }) ∧
        (d.base = none → base = e.base) ∧
          ∀ text, d.base = some text →
            ∃ b, base = some b ∧ u.NamesText scope text b := by
  rw [connectBase] at hc
  cases hbase : d.base with
  | none =>
      simp only [hbase] at hc
      cases hc
      exact ⟨.refl _ _, e.base, he, fun _ => rfl, by simp⟩
  | some text =>
      simp only [hbase] at hc
      obtain ⟨b, s, hr, hlast⟩ := bind_apply_eq_ok hc
      obtain ⟨g, hn⟩ := resolveTextIn_eq_ok hr
      have hlast := eq_of_liftM_apply_ok hlast
      have q := relinked_redefined (relinks_setBase b) s h
      have hshape : (s.redefined h fun d => { d with base := some b }).shape? h
          = some (.named { e with base := some b }) := by
        rw [shape?_redefined, if_pos rfl, g.shape?_of_some he]
        rfl
      cases hlast
      refine ⟨(g.relinked _).trans q, some b, hshape, by simp, ?_⟩
      rintro _ ⟨⟩
      exact ⟨b, rfl, hn.mono q.steady⟩

theorem shape?_addInterface (he : t.shape? h = some (.named e)) (b : Handle) :
    (addInterface h b t).2.shape? h = some (.named
        { e with interfaces :=
            if b ∈ e.interfaces then e.interfaces else e.interfaces ++ [b] }) := by
  change (t.redefined h _).shape? h = _
  rw [shape?_redefined, if_pos rfl, he]
  simp only [Option.map_some, Shape.changed]
  split <;> rfl

theorem eraseDups_concat (bs : List Handle) (b : Handle) :
    (bs ++ [b]).eraseDups =
      if b ∈ bs.eraseDups then bs.eraseDups else bs.eraseDups ++ [b] := by
  rw [List.eraseDups_append]
  by_cases hb : b ∈ bs
  · rw [if_pos (List.mem_eraseDups.mpr hb)]
    simp [List.removeAll, hb]
  · rw [if_neg (mt List.mem_eraseDups.mp hb)]
    simp [List.removeAll, hb, List.eraseDups_cons]

/-- The interfaces that a declaration writes come after those in front, each
where it comes first. -/
theorem connectInterfaces_eq_ok {front : List Handle}
    (he : t.shape? h = some (.named { e with interfaces := front.eraseDups }))
    (hc : d.connectInterfaces scope h t = (.ok (), u)) :
    Relinked [h] t u ∧ ∃ bs,
      u.shape? h = some (.named { e with interfaces := (front ++ bs).eraseDups }) ∧
        List.Forall₂ (u.NamesText scope) d.interfaces bs := by
  rw [connectInterfaces] at hc
  generalize d.interfaces = texts at hc ⊢
  induction texts generalizing t front with
  | nil =>
      cases hc
      exact ⟨.refl _ _, [], by rwa [List.append_nil], .nil⟩
  | cons text texts ih =>
      obtain ⟨_, s, hstep, hrest⟩ := bind_apply_eq_ok hc
      obtain ⟨b, s', hr, hlast⟩ := bind_apply_eq_ok hstep
      obtain ⟨g, hn⟩ := resolveTextIn_eq_ok hr
      have hlast := eq_of_liftM_apply_ok hlast
      have hshape := shape?_addInterface (g.shape?_of_some he) b
      dsimp only at hshape
      have q := relinked_redefined (relinks_addInterface b) s' h
      rw [show addInterface h b s' = ((), s) from hlast, ← eraseDups_concat] at hshape
      rw [show redefined s' h _ = s from congrArg Prod.snd hlast] at q
      obtain ⟨q', bs, hu, hall⟩ := ih hshape hrest
      refine ⟨((g.relinked _).trans q).trans q', b :: bs, ?_,
        .cons ((hn.mono q.steady).mono q'.steady) hall⟩
      rwa [List.append_cons]

/-- The type is declared and has the links that its declaration writes, and each
interface once. -/
structure Connected (d : TypeDeclaration) (t : Table) (h : Handle)
    (e : Definition) : Prop extends d.Stored t h e where
  unbased : d.base = none → e.base = t.impliedBase? e.kind
  based : ∀ text, d.base = some text →
    ∃ b, e.base = some b ∧
      t.NamesText ((d.parameters.map (·.name)).zip e.parameters) text b
  interfaces : ∃ bs, List.Forall₂
      (t.NamesText ((d.parameters.map (·.name)).zip e.parameters))
      d.interfaces bs ∧
    e.interfaces = bs.eraseDups

theorem Connected.kept (hc : d.Connected t h e) (q : KeepsBut hs t u)
    (hh : h ∉ hs) : d.Connected u h e where
  toStored := hc.toStored.persists (q.shape hh hc.shape) q.steady.persists
  unbased hnone := (hc.unbased hnone).trans
    (impliedBase?_congr q.steady.builtIn e.kind).symm
  based text htext := by
    obtain ⟨b, hb, hn⟩ := hc.based text htext
    exact ⟨b, hb, hn.mono q.steady⟩
  interfaces := by
    obtain ⟨bs, hall, heq⟩ := hc.interfaces
    exact ⟨bs, hall.imp fun _ _ hn => hn.mono q.steady, heq⟩

theorem Connected.exists_interfaces (hc : d.Connected t h e) :
    ∃ bs, List.Forall₂
        (t.NamesText ((d.parameters.map (·.name)).zip e.parameters))
        d.interfaces bs ∧
      ∀ s, s ∈ e.interfaces ↔ s ∈ bs := by
  obtain ⟨bs, hall, heq⟩ := hc.interfaces
  exact ⟨bs, hall, fun s => by rw [heq, List.mem_eraseDups]⟩

/-- Connecting a declared type changes the links of that type alone. -/
theorem connect_eq_ok (he : d.Declared p.table h e)
    (hc : d.connect h p = (.ok (), p')) :
    Relinked [h] p.table p'.table ∧ p' = { p with table := p'.table } ∧
      ∃ e', d.Connected p'.table h e' := by
  rw [connect] at hc
  obtain ⟨u, hu, rfl⟩ := Loading.naming_eq_ok hc
  obtain ⟨t, t', hget, hu⟩ := bind_apply_eq_ok hu
  cases hget
  have hscope : d.scope p.table h =
      (d.parameters.map (·.name)).zip e.parameters := by
    rw [scope, arguments, he.shape]
  dsimp only at hu
  rw [hscope] at hu
  obtain ⟨_, t', hbase, hinterfaces⟩ := bind_apply_eq_ok hu
  obtain ⟨q, base, hshape, hunbased, hbased⟩ :=
    connectBase_eq_ok he.shape hbase
  have hshape : t'.shape? h = some (.named
      { e with base := base, interfaces := ([] : List Handle).eraseDups }) := by
    rw [hshape, he.interfaces]
    rfl
  obtain ⟨q', bs, hshape', hall⟩ :=
    connectInterfaces_eq_ok (e := { e with base := base }) hshape hinterfaces
  have hsteady := (q.trans q').steady
  refine ⟨q.trans q', rfl, _,
    { toStored := he.toStored.relinked hshape' hsteady.persists
      unbased := ?_
      based := ?_
      interfaces := ⟨bs, hall, by rw [List.nil_append]⟩ }⟩
  · intro hnone
    exact ((hunbased hnone).trans he.base).trans
      (impliedBase?_congr hsteady.builtIn e.kind).symm
  · intro text htext
    obtain ⟨b, hb, hn⟩ := hbased text htext
    exact ⟨b, hb, hn.mono q'.steady⟩

/-! ## All declared types -/

theorem forM_connect_eq_ok {l : List (TypeDeclaration × Handle)}
    (hnodup : (l.map Prod.snd).Nodup)
    (hl : ∀ x ∈ l, ∃ e, x.1.Declared p.table x.2 e)
    (hc : (l.forM fun (d, h) => d.connect h) p = (.ok (), p')) :
    Relinked (l.map Prod.snd) p.table p'.table ∧
      p' = { p with table := p'.table } ∧
      ∀ x ∈ l, ∃ e, x.1.Connected p'.table x.2 e := by
  induction l generalizing p with
  | nil =>
      cases hc
      exact ⟨.refl _ _, rfl, by simp⟩
  | cons x l ih =>
      obtain ⟨d, h⟩ := x
      rw [List.forall_mem_cons] at hl
      obtain ⟨⟨e, he⟩, hl⟩ := hl
      rw [List.map_cons, List.nodup_cons] at hnodup
      obtain ⟨hnew, hnodup⟩ := hnodup
      obtain ⟨_, p₁, hd, hrest⟩ := bind_apply_eq_ok hc
      obtain ⟨q, hrest₁, e', he'⟩ := connect_eq_ok he hd
      have hl₁ : ∀ x ∈ l, ∃ e, x.1.Declared p₁.table x.2 e := by
        intro x hx
        obtain ⟨e, he⟩ := hl x hx
        have hne : x.2 ∉ [h] := by
          rw [List.mem_singleton]
          intro heq
          exact hnew (List.mem_map.mpr ⟨x, hx, heq⟩)
        exact ⟨e, he.persists (q.shape hne he.shape) q.steady.persists
          q.steady.builtIn⟩
      obtain ⟨q', hrest₂, hconnected⟩ := ih hnodup hl₁ hrest
      refine ⟨(q.mono (by simp)).trans (q'.mono (by simp)), ?_, ?_⟩
      · rw [hrest₂, hrest₁]
      · rw [List.forall_mem_cons]
        exact ⟨⟨e', he'.kept q'.toKeepsBut hnew⟩, hconnected⟩

end TypeDeclaration

/-! ## The rest of a manifest -/

/-- Defining a conversion changes no shape, and leaves the references alone. -/
theorem ConversionDeclaration.load_eq_ok {d : ConversionDeclaration}
    (hd : d.load p = (.ok (), p')) :
    KeepsBut [] p.table p'.table ∧ p'.references = p.references := by
  rw [load] at hd
  obtain ⟨u, hu, rfl⟩ := Loading.naming_eq_ok hd
  obtain ⟨a, t', ha, hu⟩ := bind_apply_eq_ok hu
  obtain ⟨b, t'', hb, hu⟩ := bind_apply_eq_ok hu
  have hlast := eq_of_liftM_apply_ok hu
  have g := (resolveTextIn_eq_ok ha).1
  have g' := (resolveTextIn_eq_ok hb).1
  have q := keepsBut_addConversion a b d.implicit t''
  rw [hlast] at q
  exact ⟨((g.trans g').keepsBut []).trans q, rfl⟩

theorem rest_registerSerializer (serializer : Handle)
    (supported : List Handle) (p : Program) :
    ∃ attributes, (Program.registerSerializer serializer supported p).2 =
      { p with attributes := attributes } := by
  rw [Program.registerSerializer, bind_apply, get_apply]
  cases p.table.named? Program.registrationName with
  | none => exact ⟨p.attributes, rfl⟩
  | some attributeClass =>
      exact ⟨p.attributes ++ [⟨attributeClass, serializer :: supported⟩], rfl⟩

/-- Registering a serializer changes no shape, and leaves the references
alone. -/
theorem SerializerRegistration.load_eq_ok {r : SerializerRegistration}
    (hr : r.load p = (.ok (), p')) :
    KeepsBut [] p.table p'.table ∧ p'.references = p.references := by
  rw [load] at hr
  obtain ⟨a, p₁, ha, hr⟩ := bind_apply_eq_ok hr
  obtain ⟨bs, p₂, hbs, hr⟩ := bind_apply_eq_ok hr
  obtain ⟨u, hu, rfl⟩ := Loading.naming_eq_ok ha
  obtain ⟨v, hv, rfl⟩ := Loading.naming_eq_ok hbs
  have g := (resolveTextIn_eq_ok hu).1
  have g' : u.GrowsTo v := growsTo_mapM_resolveText hv
  obtain ⟨ok, p₃, hreg, hlast⟩ := bind_apply_eq_ok hr
  obtain ⟨attributes, hrest⟩ :=
    rest_registerSerializer a bs { p with table := v }
  rw [eq_of_liftM_apply_ok hreg] at hrest
  dsimp only at hrest
  subst hrest
  cases ok with
  | false => cases hlast
  | true =>
      cases hlast
      exact ⟨(g.trans g').keepsBut [], rfl⟩

namespace Manifest

variable {m : Manifest}

/-- Loading types declares all of them, and then changes their links alone. -/
theorem loadTypes_eq_ok (hm : m.loadTypes p = (.ok (), p')) :
    ∃ (q : Program) (hs : List Handle),
      m.types.mapM TypeDeclaration.declare p = (.ok hs, q) ∧
      Relinked hs q.table p'.table ∧ p' = { p with table := p'.table } ∧
      List.Forall₂ (fun d h => ∃ e, d.Connected p'.table h e) m.types hs := by
  rw [loadTypes] at hm
  obtain ⟨hs, q, hdeclare, hconnect⟩ := bind_apply_eq_ok hm
  obtain ⟨-, hnodup, -, hdeclared⟩ := TypeDeclaration.mapM_declare_eq_ok hdeclare
  have hrest₁ : q = { p with table := q.table } :=
    TypeDeclaration.rest_of_mapM_declare hdeclare
  have hsnd : (m.types.zip hs).map Prod.snd = hs :=
    List.map_snd_zip hdeclared.length_eq.ge
  obtain ⟨hrelinked, hrest₂, hconnected⟩ := TypeDeclaration.forM_connect_eq_ok
    (hsnd.symm ▸ hnodup) (fun x hx => List.forall₂_zip hdeclared hx) hconnect
  rw [hsnd] at hrelinked
  refine ⟨q, hs, hdeclare, hrelinked, by rw [hrest₂, hrest₁], ?_⟩
  rw [List.forall₂_iff_zip]
  exact ⟨hdeclared.length_eq, fun hmem => hconnected _ hmem⟩

/-- Loading a manifest declares its types, and then changes the links of these
alone. -/
theorem loadContents_eq_ok (hm : m.loadContents p = (.ok (), p')) :
    ∃ (q : Program) (hs : List Handle),
      m.types.mapM TypeDeclaration.declare p = (.ok hs, q) ∧
      p.table.Retains q.table ∧ KeepsBut hs q.table p'.table ∧
      List.Forall₂ (fun d h => ∃ e, d.Declared q.table h e) m.types hs ∧
      List.Forall₂ (fun d h => ∃ e, d.Connected p'.table h e) m.types hs := by
  rw [loadContents] at hm
  obtain ⟨_, p₂, htypes, hm⟩ := bind_apply_eq_ok hm
  obtain ⟨_, p₃, hconversions, hserializers⟩ := bind_apply_eq_ok hm
  obtain ⟨q, hs, hdeclare, q₁, -, hconnected⟩ := loadTypes_eq_ok htypes
  obtain ⟨hretains, -, -, hdeclared⟩ := TypeDeclaration.mapM_declare_eq_ok hdeclare
  have q₂ : KeepsBut [] p₂.table p₃.table :=
    forM_apply_ok (R := fun p p' => KeepsBut [] p.table p'.table)
      (fun p => .refl [] p.table) KeepsBut.trans
      (fun _ _ _ _ h => (ConversionDeclaration.load_eq_ok h).1) hconversions
  have q₃ : KeepsBut [] p₃.table p'.table :=
    forM_apply_ok (R := fun p p' => KeepsBut [] p.table p'.table)
      (fun p => .refl [] p.table) KeepsBut.trans
      (fun _ _ _ _ h => (SerializerRegistration.load_eq_ok h).1) hserializers
  have q₄ := q₂.trans q₃
  exact ⟨q, hs, hdeclare, hretains, q₁.toKeepsBut.trans (q₄.mono (by simp)), hdeclared,
    hconnected.imp fun _ _ => Exists.imp fun _ he => he.kept q₄ (by simp)⟩

end Manifest

end Verdicts
