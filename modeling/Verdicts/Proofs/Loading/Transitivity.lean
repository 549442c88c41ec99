import Verdicts.Proofs.Judgement.Stability
import Verdicts.Proofs.Loading.Programs
import Verdicts.Proofs.Subtyping.CoreLibrary

/-!
# Assignability is transitive in loaded programs

Loading a manifest leaves the built-in types of the core library as they are, so
the hierarchy of every loaded program has the core library on top.  Below it the
declared types may have any bases: being below is transitive all the same, as
far as the type above is bound, which every type is that an expression names.
-/

namespace Verdicts

variable {foreign : Handle → Prop} {t u v : Table} {h : Handle} {p q : Program}
  {m : Manifest}

namespace Table

/-! ## What loading keeps -/

theorem KeepsBuiltIn.trans (c : t.KeepsBuiltIn u) (c' : u.KeepsBuiltIn v) :
    t.KeepsBuiltIn v where
  persists := c.persists.trans c'.persists
  builtIn b := (c'.builtIn b).trans (c.builtIn b)
  tagged hd hb := c.tagged (c'.tagged hd hb) hb

/-- A newer built-in type would be the one that is found. -/
theorem Retains.keepsBuiltIn (r : t.Retains u) : t.KeepsBuiltIn u where
  persists := .of_shape? r.shape
  builtIn := r.builtIn
  tagged {h d b} hd hb := by
    cases hfound : u.builtIn? b with
    | none =>
        rw [builtIn?, newest?_eq_none_iff] at hfound
        have hnone := hfound h _ hd
        simp [hb] at hnone
    | some k =>
        have hk := knows_iff.mp (knows_of_builtIn? (r.builtIn b ▸ hfound))
        have hle : h.index ≤ k.index := by
          by_contra hlt
          have hnone := (newest?_eq_some_iff.mp hfound).2 h _ (by omega) hd
          simp [hb] at hnone
        have hh := knows_iff.mp (knows_of_shape? hd)
        obtain ⟨s, hs⟩ := exists_shape?_of_knows
          (t := t) (h := h) (knows_iff.mpr ⟨hh.1, by omega⟩)
        rw [hs, ← hd, r.shape hs]

theorem KeepsBut.keepsBuiltIn {hs : List Handle} (q : KeepsBut hs t u)
    (hnone : ∀ h ∈ hs, ∃ e, t.shape? h = some (.named e) ∧ e.builtIn = none) :
    t.KeepsBuiltIn u where
  persists := q.steady.persists
  builtIn := q.steady.builtIn
  tagged {h d b} hd hb := by
    obtain ⟨e, he, -⟩ := q.steady.definition hd
    obtain ⟨e', he', -, hbuiltIn, -⟩ := q.steady.persists.definition he
    cases hd.symm.trans he'
    by_cases hh : h ∈ hs
    · obtain ⟨e', he', hnone⟩ := hnone h hh
      cases he.symm.trans he'
      rw [hbuiltIn, hnone] at hb
      cases hb
    · rw [← hd, q.shape hh he, he]

/-! ## Types that expressions name -/

/-- An expression outside all scopes names no type with free type parameters. -/
theorem Sound.bound_of_closed (ht : t.Sound foreign) {e : TypeExpr}
    (he : t.Names [] e h) : t.hierarchy.Bound (t.denote h) := by
  induction hn : h.index using Nat.strongRecOn generalizing h e with
  | ind n ih =>
      subst hn
      have hpart : ∀ {s c e}, t.shape? h = some s → c ∈ s.parts →
          t.Names [] e c → t.hierarchy.Bound (t.denote c) := by
        intro s c e hs hc he
        rcases ht.wellFormed.older hs hc with ⟨-, hlt⟩ | hforeign
        · exact ih c.index hlt he rfl
        · have hk := ht.wellFormed.knows_of_names (fun p hp => by cases hp) he
          rw [ht.avoids c hforeign] at hk
          cases hk
      rcases shape?_of_closed he with
        ⟨d, hs⟩ | ⟨a, e', hs, ha⟩ | ⟨k, as, es, hs, ⟨d, hd⟩, -, has⟩
      · rw [denote_of_shape? hs rfl]
        exact .atom (parameter?_eq_none_of_named hs)
      · rw [ht.denote_array hs]
        exact .array (hpart hs (by simp [Shape.parts]) ha)
      · rw [ht.denote_constructed hs, denote_of_shape? hd rfl]
        refine .applied (.atom (parameter?_eq_none_of_named hd)) fun A hA => ?_
        obtain ⟨a, ha, rfl⟩ := List.mem_map.mp hA
        obtain ⟨e, -, he⟩ := exists_of_forall₂ has.flip ha
        exact hpart hs (by simp [Shape.parts, ha]) he

end Table

namespace Manifest

theorem keepsBuiltIn_of_load (hm : m.load = .ok p) :
    Table.coreLibrary.KeepsBuiltIn p.table := by
  obtain ⟨q, hs, -, r, hq, hdeclared, -⟩ :=
    loadContents_eq_ok (loadContents_of_load hm)
  have r' := Table.retains_withReferences m.references .coreLibrary
  refine (r'.trans r).keepsBuiltIn.trans (hq.keepsBuiltIn fun h hh => ?_)
  obtain ⟨d, -, e, he⟩ := exists_of_forall₂ hdeclared.flip hh
  exact ⟨e, he.shape, he.builtIn⟩

/-- Assignability is transitive in every loaded program, whatever work has been
done in it since: types `a`, `b` and `c` that expressions name are assignable
along, if the walk from `a` to `b` nests at most `k` levels, the walk from `b` to
`c` at most `l`, and both together stay below the limit. -/
theorem assignable_trans_of_load (hm : m.load = .ok p)
    (work : Work noneForeign p q) {x y z : TypeExpr} {a b c : Handle}
    (ha : q.table.Names [] x a) (hb : q.table.Names [] y b)
    (hc : q.table.Names [] z c) {k l : Nat} (hlevels : k + l < Table.depthLimit)
    (hab : (Table.assignableWithin (k + 1) a b q.table).1 = true)
    (hbc : (Table.assignableWithin (l + 1) b c q.table).1 = true) :
    (Table.assignable a c q.table).1 = true := by
  have hq : q.table.Sound noneForeign :=
    { wellFormed := work.run.wellFormed (wellFormed_of_load hm)
        (Table.avoids_noneForeign _)
      avoids := Table.avoids_noneForeign _ }
  have hadmits : ∀ {e h}, q.table.Names [] e h → q.table.Admits noneForeign h :=
    fun he => .inl (hq.wellFormed.knows_of_names (fun p hp => by cases hp) he)
  have htop := ((keepsBuiltIn_of_load hm).trans
    work.growsTo.retains.keepsBuiltIn).topped hq
  rw [hq.assignableWithin_iff (hadmits ha) (hadmits hb)
    (Table.avoids_noneForeign _)] at hab
  rw [hq.assignableWithin_iff (hadmits hb) (hadmits hc)
    (Table.avoids_noneForeign _)] at hbc
  rw [Table.assignable, hq.assignableWithin_iff (hadmits ha) (hadmits hc)
    (Table.avoids_noneForeign _)]
  exact (hab.trans htop (hq.bound_of_closed hb) (hq.bound_of_closed hc)
    hbc).mono (by omega)

/-- A manifest that declares a class and one that derives from it. -/
def treeManifest : Manifest :=
  { Manifest.empty with types :=
    [{ name := "Node", kind := .classType, isClosed := none, base := none,
       interfaces := [], parameters := [] },
     { name := "Leaf", kind := .classType, isClosed := none, base := some "Node",
       interfaces := [], parameters := [] }] }

/-- An array of leaves is a list of nodes, and hence a sequence of nodes. -/
theorem assignable_trans_of_load_tree :
    ∃ p q a b c, treeManifest.load = .ok p ∧ Work noneForeign p q ∧
      q.table.NamesText [] "Leaf[]" a ∧
      q.table.NamesText [] "IList<Node>" b ∧
      q.table.NamesText [] "IEnumerable<Node>" c ∧
      (Table.assignableWithin 2 a b q.table).1 = true ∧
      (Table.assignableWithin 2 b c q.table).1 = true ∧
      (Table.assignable a c q.table).1 = true := by
  have hcheck : (match treeManifest.load with
      | .ok p =>
        match Table.resolveTextIn [] "Leaf[]" p.table with
        | (.ok a, t) =>
          match Table.resolveTextIn [] "IList<Node>" t with
          | (.ok b, u) =>
            match Table.resolveTextIn [] "IEnumerable<Node>" u with
            | (.ok c, v) => (Table.assignableWithin 2 a b v).1 &&
                (Table.assignableWithin 2 b c v).1
            | (.error _, _) => false
          | (.error _, _) => false
        | (.error _, _) => false
      | .error _ => false) = true := by
    decide +kernel
  cases hm : treeManifest.load with
  | error e =>
      rw [hm] at hcheck
      cases hcheck
  | ok p =>
      rw [hm] at hcheck
      dsimp only at hcheck
      rcases ha : Table.resolveTextIn [] "Leaf[]" p.table with ⟨e | a, t⟩
      · rw [ha] at hcheck
        cases hcheck
      rw [ha] at hcheck
      dsimp only at hcheck
      rcases hb : Table.resolveTextIn [] "IList<Node>" t with ⟨e | b, u⟩
      · rw [hb] at hcheck
        cases hcheck
      rw [hb] at hcheck
      dsimp only at hcheck
      rcases hc : Table.resolveTextIn [] "IEnumerable<Node>" u with ⟨e | c, v⟩
      · rw [hc] at hcheck
        cases hcheck
      rw [hc] at hcheck
      dsimp only at hcheck
      rw [Bool.and_eq_true] at hcheck
      obtain ⟨hab, hbc⟩ := hcheck
      have workA : Work noneForeign p { p with table := t } := .resolve ha
      have workB : Work noneForeign { p with table := t } { p with table := u } :=
        .resolve (p := { p with table := t }) hb
      have workC : Work noneForeign { p with table := u } { p with table := v } :=
        .resolve (p := { p with table := u }) hc
      have work := workA.trans (workB.trans workC)
      obtain ⟨-, x, hx, hxa⟩ := Table.resolveTextIn_eq_ok ha
      obtain ⟨g, y, hy, hyb⟩ := Table.resolveTextIn_eq_ok hb
      obtain ⟨g', z, hz, hzc⟩ := Table.resolveTextIn_eq_ok hc
      have hxa' := (g.trans g').steady.names hxa
      have hyb' := g'.steady.names hyb
      have hac := assignable_trans_of_load (k := 1) (l := 1) hm work hxa' hyb' hzc
        (by decide) hab hbc
      exact ⟨p, { p with table := v }, a, b, c, rfl, work, ⟨x, hx, hxa'⟩,
        ⟨y, hy, hyb'⟩, ⟨z, hz, hzc⟩, hab, hbc, hac⟩

end Manifest

end Verdicts
