import Verdicts.Proofs.Loading.Connecting
import Verdicts.Proofs.Naming.Success

/-!
# When the types of a manifest can be loaded

Types whose parameters demand nothing of other types are declared if their names
are new and differ.  A declared type is connected if its base and its interfaces
name types, and whether they do depends on nothing that connecting changes.  So
types can be loaded in any order if they can be loaded in one.
-/

namespace Verdicts

open Table

variable {p p' q q' : Program} {t u : Table} {h k : Handle}

namespace TypeDeclaration

variable {d : TypeDeclaration} {ds ds' : List TypeDeclaration} {hs : List Handle}

/-- The type parameters demand nothing of other types. -/
def Plain (d : TypeDeclaration) : Prop :=
  ∀ x ∈ d.parameters, x.constraintTypes = []

/-! ## Declaring -/

theorem resolveParameters_of_plain (hd : d.Plain) (t : Table) :
    ∃ ps, d.resolveParameters t = (.ok ps, t) := by
  rw [resolveParameters]
  rw [Plain] at hd
  generalize d.parameters = parameters at hd ⊢
  induction parameters with
  | nil => exact ⟨[], rfl⟩
  | cons x parameters ih =>
      rw [List.forall_mem_cons] at hd
      obtain ⟨ps, hps⟩ := ih hd.2
      have hx : x.constraints t =
          (.ok (ParameterConstraint.demands x.constraint), t) := by
        rw [ParameterDeclaration.constraints, hd.1, List.mapM_nil,
          bind_apply_ok (pure_apply_except [] t), pure_apply_except,
          ParameterDeclaration.demands_without_types]
      refine ⟨(x.name, ParameterConstraint.demands x.constraint) :: ps, ?_⟩
      rw [List.mapM_cons, bind_apply_except, bind_apply_ok hx]
      dsimp only [pure_apply_except]
      rw [bind_apply_ok hps]
      rfl

theorem exists_declare_iff (hd : d.Plain) :
    (∃ h p', d.declare p = (.ok h, p')) ↔ p.table.named? d.storedName = none := by
  simp only [declare_eq_ok_iff]
  constructor
  · rintro ⟨-, -, hnew, -⟩
    exact hnew
  · intro hnew
    obtain ⟨ps, hps⟩ := resolveParameters_of_plain hd p.table
    exact ⟨_, _, hnew, ps, p.table, _, hps, rfl, rfl⟩

/-- Declaring a type adds its name. -/
theorem named?_of_declare (hd : d.declare p = (.ok h, p')) (name : String) :
    p'.table.named? name =
      if d.storedName = name then some h else p.table.named? name := by
  obtain ⟨-, ps, t, u, hps, hu, rfl⟩ := declare_eq_ok_iff.mp hd
  have hnamed := named?_declare (d.stored p.table ps) t name
  rw [hu, (resolveParameters_eq_ok hps).1.named?_eq] at hnamed
  exact hnamed

theorem named?_of_mapM_declare (hds : ds.mapM declare p = (.ok hs, p'))
    (name : String) : (p'.table.named? name).isSome = true ↔
      (p.table.named? name).isSome = true ∨ name ∈ ds.map (·.storedName) := by
  induction ds generalizing p hs with
  | nil =>
      cases hds
      simp
  | cons d ds ih =>
      rw [List.mapM_cons] at hds
      obtain ⟨h, p₁, hd, hrest⟩ := bind_apply_eq_ok hds
      obtain ⟨hs, p₂, hds, hlast⟩ := bind_apply_eq_ok hrest
      cases hlast
      rw [ih hds, named?_of_declare hd, List.map_cons, List.mem_cons,
        eq_comm (a := name), ← or_assoc]
      split
      · next heq => simp [heq]
      · next hne => simp [hne]

/-- Types can be declared if their names are new and differ. -/
theorem exists_mapM_declare_iff (hds : ∀ d ∈ ds, d.Plain) :
    (∃ hs p', ds.mapM declare p = (.ok hs, p')) ↔
      (ds.map (·.storedName)).Nodup ∧
        ∀ d ∈ ds, p.table.named? d.storedName = none := by
  induction ds generalizing p with
  | nil => exact ⟨fun _ => by simp, fun _ => ⟨[], p, rfl⟩⟩
  | cons d ds ih =>
      rw [List.forall_mem_cons] at hds
      -- What is new after the declaration was so before, and has another name.
      have hnew : ∀ {h p₁}, d.declare p = (.ok h, p₁) → ∀ x : TypeDeclaration,
          p₁.table.named? x.storedName = none ↔
            x.storedName ≠ d.storedName ∧ p.table.named? x.storedName = none := by
        intro h p₁ hd x
        rw [named?_of_declare hd]
        split
        · next heq => simp [heq]
        · next hne => simp [Ne.symm hne]
      have hrest : ∀ {h p₁}, d.declare p = (.ok h, p₁) →
          ((∃ hs p', ds.mapM declare p₁ = (.ok hs, p')) ↔
            (ds.map (·.storedName)).Nodup ∧ d.storedName ∉ ds.map (·.storedName) ∧
              ∀ x ∈ ds, p.table.named? x.storedName = none) := by
        intro h p₁ hd
        rw [ih hds.2]
        simp only [hnew hd, List.mem_map, not_exists, not_and]
        exact and_congr_right fun _ =>
          ⟨fun hall => ⟨fun x hx => (hall x hx).1, fun x hx => (hall x hx).2⟩,
            fun hall x hx => ⟨hall.1 x hx, hall.2 x hx⟩⟩
      rw [List.mapM_cons, List.map_cons, List.nodup_cons, List.forall_mem_cons]
      constructor
      · rintro ⟨hs, p', hrun⟩
        obtain ⟨h, p₁, hd, hrun⟩ := bind_apply_eq_ok hrun
        obtain ⟨hs, p₂, hds', -⟩ := bind_apply_eq_ok hrun
        obtain ⟨hnodup, hnot, hall⟩ := (hrest hd).mp ⟨hs, p₂, hds'⟩
        exact ⟨⟨hnot, hnodup⟩, (exists_declare_iff hds.1).mp ⟨h, p₁, hd⟩, hall⟩
      · rintro ⟨⟨hnot, hnodup⟩, hname, hall⟩
        obtain ⟨h, p₁, hd⟩ := (exists_declare_iff hds.1).mpr hname
        obtain ⟨hs, p', hds'⟩ := (hrest hd).mpr ⟨hnodup, hnot, hall⟩
        exact ⟨h :: hs, p', by rw [bind_apply_ok hd, bind_apply_ok hds']; rfl⟩

/-- Types that can be declared can be so in any order. -/
theorem exists_mapM_declare_of_perm (hperm : ds.Perm ds') (hds : ∀ d ∈ ds, d.Plain)
    (h : ∃ hs p', ds.mapM declare p = (.ok hs, p')) :
    ∃ hs p', ds'.mapM declare p = (.ok hs, p') := by
  have hds' : ∀ d ∈ ds', d.Plain := fun d hd => hds d (hperm.mem_iff.mpr hd)
  rw [exists_mapM_declare_iff hds] at h
  rw [exists_mapM_declare_iff hds', ← (hperm.map _).nodup_iff]
  exact ⟨h.1, fun d hd => h.2 d (hperm.mem_iff.mpr hd)⟩

/-! ## Connecting -/

section

variable {scope scope' : Scope}

theorem follows_connectBase (d : TypeDeclaration)
    (hs : ScopesMatch .all scope scope') (a b : Handle) :
    Follows (d.connectBase scope a) (d.connectBase scope' b) := by
  rw [connectBase, connectBase]
  cases d.base with
  | none => exact .of_pure () ()
  | some text =>
      exact (follows_resolveTextIn hs text).bind fun x y =>
        .lift (fun t => steady_redefined (relinks_setBase x) t a)
          fun t => steady_redefined (relinks_setBase y) t b

theorem follows_connectInterfaces (d : TypeDeclaration)
    (hs : ScopesMatch .all scope scope') (a b : Handle) :
    Follows (d.connectInterfaces scope a) (d.connectInterfaces scope' b) := by
  refine Follows.forM (fun text => ?_) d.interfaces
  exact (follows_resolveTextIn hs text).bind fun x y =>
    .lift (fun t => steady_redefined (relinks_addInterface x) t a)
      fun t => steady_redefined (relinks_addInterface y) t b

end

/-- The connection of a type is one block of work on the table. -/
theorem connect_eq_ok_iff : d.connect h p = (.ok (), p') ↔
    ∃ u, (do
      d.connectBase (d.scope p.table h) h
      d.connectInterfaces (d.scope p.table h) h : Naming Unit) p.table = (.ok (), u) ∧
        p' = { p with table := u } := by
  have hget : (get : Naming Table) p.table = (.ok p.table, p.table) := rfl
  rw [connect]
  constructor
  · intro hc
    obtain ⟨u, hu, rfl⟩ := Loading.naming_eq_ok hc
    rw [bind_apply_ok hget] at hu
    exact ⟨u, hu, rfl⟩
  · rintro ⟨u, hu, rfl⟩
    exact Loading.naming_apply_ok ((bind_apply_ok hget _).trans hu)

/-- Connecting a type succeeds wherever the same names find a type, if the type
has as many type parameters. -/
theorem exists_connect (f : p.table.FindsAlike .all q.table)
    (hlength : (p.table.arguments h).length = (q.table.arguments k).length)
    (hc : d.connect h p = (.ok (), p')) :
    ∃ q', d.connect k q = (.ok (), q') := by
  simp only [connect_eq_ok_iff] at hc ⊢
  obtain ⟨u, hu, -⟩ := hc
  have hs : ScopesMatch .all (d.scope p.table h) (d.scope q.table k) :=
    World.forall₂_zip _ (List.forall₂_iff_zip.mpr ⟨hlength, fun _ => trivial⟩)
  obtain ⟨_, v, hv, -⟩ := (d.follows_connectBase hs h k).bind
    (fun _ _ => d.follows_connectInterfaces hs h k) f hu
  exact ⟨_, v, hv, rfl⟩

theorem steady_resolveTextIn_bind {scope : Scope} {text : String}
    {work : Handle → StateM Table Unit}
    (hwork : ∀ (b : Handle) (t : Table), t.Steady (work b t).2)
    (h : (do
      let b ← resolveTextIn scope text
      work b : Naming Unit) t = (.ok (), u)) : t.Steady u := by
  obtain ⟨b, s, hr, hlast⟩ := bind_apply_eq_ok h
  have hlast := eq_of_liftM_apply_ok hlast
  have q := hwork b s
  rw [hlast] at q
  exact (resolveTextIn_eq_ok hr).1.steady.trans q

/-- Connecting a type declares nothing. -/
theorem steady_connect (hc : d.connect h p = (.ok (), p')) :
    p.table.Steady p'.table := by
  obtain ⟨u, hu, rfl⟩ := connect_eq_ok_iff.mp hc
  obtain ⟨_, t, hbase, hinterfaces⟩ := bind_apply_eq_ok hu
  have q : p.table.Steady t := by
    rw [connectBase] at hbase
    cases hwritten : d.base with
    | none =>
        simp only [hwritten] at hbase
        cases hbase
        exact .refl _
    | some text =>
        simp only [hwritten] at hbase
        exact steady_resolveTextIn_bind
          (fun b t => steady_redefined (relinks_setBase b) t h) hbase
  exact q.trans (forM_apply_ok Steady.refl Steady.trans (fun _ _ _ _ =>
    steady_resolveTextIn_bind
      fun b t => steady_redefined (relinks_addInterface b) t h) hinterfaces)

/-- Types can be connected one after the other if each can be so by itself. -/
theorem exists_forM_connect_iff {l : List (TypeDeclaration × Handle)}
    (hl : ∀ x ∈ l, p.table.knows x.2 = true) :
    (∃ p', (l.forM fun (d, h) => d.connect h) p = (.ok (), p')) ↔
      ∀ x ∈ l, ∃ p', x.1.connect x.2 p = (.ok (), p') := by
  apply forM_apply_ok_iff (I := fun p => ∀ x ∈ l, p.table.knows x.2 = true)
    (fun _ _ _ _ hknown hc x hx => (steady_connect hc).persists.knows (hknown x hx))
    _ hl
  intro _ _ s s' hknown hc x hx
  have q := steady_connect hc
  have f : s.table.FindsAlike .all s.table :=
    ⟨fun _ => World.rel_all_iff.mpr rfl, fun _ => World.rel_all_iff.mpr rfl⟩
  have hlength := congrArg List.length (q.persists.arguments_eq (hknown x hx))
  constructor
  · rintro ⟨u, hu⟩
    exact exists_connect (f.steady (.refl _) q) hlength.symm hu
  · rintro ⟨u, hu⟩
    exact exists_connect (f.steady q (.refl _)) hlength hu

end TypeDeclaration

namespace Manifest

variable {m : Manifest} {types : List TypeDeclaration}

/-- Types that can be loaded can be so in any order. -/
theorem exists_loadTypes_of_perm (hperm : m.types.Perm types)
    (hplain : ∀ d ∈ m.types, d.Plain) (hm : m.loadTypes p = (.ok (), p')) :
    ∃ q', loadTypes { m with types := types } p = (.ok (), q') := by
  obtain ⟨hs, q, hdeclare, hconnect⟩ := bind_apply_eq_ok hm
  obtain ⟨hs', q', hdeclare'⟩ := TypeDeclaration.exists_mapM_declare_of_perm hperm
    hplain ⟨hs, q, hdeclare⟩
  obtain ⟨r, -, -, hall⟩ := TypeDeclaration.mapM_declare_eq_ok hdeclare
  obtain ⟨r', -, -, hall'⟩ := TypeDeclaration.mapM_declare_eq_ok hdeclare'
  have f : q.table.FindsAlike .all q'.table := by
    refine ⟨fun name => World.rel_all_iff.mpr ?_, fun b => World.rel_all_iff.mpr ?_⟩
    · rw [Bool.eq_iff_iff, TypeDeclaration.named?_of_mapM_declare hdeclare,
        TypeDeclaration.named?_of_mapM_declare hdeclare', (hperm.map _).mem_iff]
    · rw [r.builtIn, r'.builtIn]
  have hknown : ∀ {ds : List TypeDeclaration} {hs : List Handle} {t : Table},
      List.Forall₂ (fun d h => ∃ e, d.Declared t h e) ds hs →
      ∀ x ∈ ds.zip hs, t.knows x.2 = true := by
    intro ds hs t hall x hx
    obtain ⟨e, he⟩ := List.forall₂_zip hall hx
    exact knows_of_shape? he.shape
  have heach := (TypeDeclaration.exists_forM_connect_iff (hknown hall)).mp
    ⟨p', hconnect⟩
  obtain ⟨u, hu⟩ := (TypeDeclaration.exists_forM_connect_iff (hknown hall')).mpr
    fun x hx => by
      obtain ⟨d, k⟩ := x
      have hd : d ∈ m.types := hperm.mem_iff.mpr (List.of_mem_zip hx).1
      have hzip : List.Forall₂ (fun d h => (d, h) ∈ m.types.zip hs) m.types hs :=
        List.forall₂_iff_zip.mpr ⟨hall.length_eq, id⟩
      obtain ⟨h, -, hmem⟩ := exists_of_forall₂ hzip hd
      obtain ⟨v, hv⟩ := heach _ hmem
      obtain ⟨e, he⟩ := List.forall₂_zip hall hmem
      obtain ⟨e', he'⟩ := List.forall₂_zip hall' hx
      refine TypeDeclaration.exists_connect f ?_ hv
      rw [arguments, he.shape, arguments, he'.shape]
      exact he.length_parameters.trans he'.length_parameters.symm
  exact ⟨u, (bind_apply_ok hdeclare' _).trans hu⟩

end Manifest

end Verdicts
