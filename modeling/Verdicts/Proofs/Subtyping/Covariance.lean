import Mathlib.Logic.Function.Iterate
import Verdicts.Proofs.Subtyping.Derivation

/-!
# Arrays of references are covariant

An array is assignable to another one if the element types are the same, or if
its elements are references and the one element type is assignable to the other.
Arrays are references themselves, so under further layers the innermost element
type decides alone, and each layer takes one level of the walk.

The walk is bounded, so this holds of two types as long as deciding between them
leaves a level for each layer.  A walk that gives up where it lacks a level
tells how many it needs.
-/

namespace Verdicts

namespace Table

/-! ## Walks that give up -/

/-- Assignability, where a walk that goes up the given number of levels fails if
that leaves a step open. -/
def settleWithin : Nat → Handle → Handle → ExceptT Unit (StateM Table) Bool
  | 0, source, target => do
    if source = target then return (← get).knows source
    else throw ()
  | levels + 1, source, target => do
    let t ← get
    if source = target then
      return t.knows source
    else if isInertSource (t.kind source) || isInertTarget (t.kind target) then
      return false
    else if t.tag? target = some .object then
      return true
    else
      match t.shape? source with
      | some (.array e) =>
        match t.arrayDemand target with
        | .free => return true
        | .element e' =>
          if e = e' then return true
          else if t.isReferenceType e then settleWithin levels e e'
          else return false
        | .impossible => return false
      | some (.parameter _ c) =>
        if c.valueType && t.tag? target = some .valueType then return true
        else c.types.anyM fun bound => settleWithin levels bound target
      | some (.named _) | some (.constructed _ _) => do
        (← supertypes source).anyM fun supertype =>
          if supertype = target then return true
          else settleWithin levels supertype target
      | some (.other _ _) | none => return false

/-- Deciding whether the source is assignable to the target nests at most the
given number of levels. -/
def Nests (t : Table) (levels : Nat) (source target : Handle) : Prop :=
  (settleWithin (levels + 1) source target t).1.isOk = true

instance {t : Table} {levels : Nat} {source target : Handle} :
    Decidable (t.Nests levels source target) :=
  inferInstanceAs (Decidable (_ = true))

/-- What the walk settles, walks that may go further up do not change. -/
theorem settles_settleWithin {levels levels' : Nat} (hle : levels ≤ levels')
    (a b : Handle) :
    Settles (settleWithin levels a b) (assignableWithin levels' a b) := by
  induction levels generalizing levels' a b with
  | zero =>
      rw [settleWithin]
      split
      · next hab =>
          subst hab
          intro t t' r h
          cases h
          exact assignableWithin_self levels' a t
      · exact .of_throw _ _
  | succ levels ih =>
      obtain ⟨levels', rfl⟩ := Nat.exists_eq_add_one_of_ne_zero
        (Nat.ne_zero_of_lt hle)
      have ih := fun a b => ih (Nat.le_of_succ_le_succ hle) a b
      rw [settleWithin, assignableWithin]
      refine .get_bind fun t => ?_
      refine .ite (.of_pure _) (.ite (.of_pure _) (.ite (.of_pure _) ?_))
      cases t.shape? a with
      | none => exact .of_pure _
      | some s =>
          cases s with
          | array e =>
              dsimp only
              cases t.arrayDemand b with
              | free | impossible => exact .of_pure _
              | element e' =>
                  exact .ite (.of_pure _) (.ite (ih e e') (.of_pure _))
          | parameter name c =>
              exact .ite (.of_pure _) (.anyM (fun bound => ih bound b) _)
          | named | constructed =>
              refine .lift_bind fun supertypes => .anyM (fun s => ?_) _
              exact .ite (.of_pure _) (ih s b)
          | other => exact .of_pure _

/-- Where a walk has the levels that it needs, more levels make no difference. -/
theorem Nests.assignableWithin_eq {t : Table} {levels levels' : Nat}
    {a b : Handle} (h : t.Nests levels a b) (hle : levels < levels') :
    assignableWithin levels' a b t = assignableWithin (levels + 1) a b t := by
  rw [Nests] at h
  rcases hs : settleWithin (levels + 1) a b t with ⟨e | r, t'⟩
  · rw [hs] at h
    cases h
  · rw [settles_settleWithin hle a b hs,
      settles_settleWithin (Nat.le_refl _) a b hs]

end Table

/-! ## Below through layers -/

namespace Hierarchy

variable {H : Hierarchy} {A B : Term} {levels : Nat}

theorem below_array_iff :
    H.Below (levels + 1) (.array A) (.array B) ↔
      A = B ∨ A.isReference H = true ∧ H.Below levels A B := by
  have hmeets : H.Meets (.array A) (.array B) := ⟨rfl, rfl⟩
  have harrays : ¬(Term.array B).TakesArrays H := by
    rintro (htag | htag) <;> cases htag
  have helements : ∀ E, (Term.array B).TakesElements H E ↔ E = B := by
    intro E
    constructor
    · rintro ⟨⟩
      rfl
    · rintro rfl
      exact .array
  rw [Below, Rises.array_iff]
  simp only [hmeets, harrays, helements, exists_eq_left, Term.array.injEq,
    Term.Known, Term.tag?, reduceCtorEq, and_true, true_and, false_or,
    or_self_left]

/-- The outermost layer asks for no more than the innermost one, since arrays
are references. -/
theorem below_layers_iff (n : Nat) :
    H.Below (n + 1 + levels) (Term.array^[n + 1] A) (Term.array^[n + 1] B) ↔
      A = B ∨ A.isReference H = true ∧ H.Below levels A B := by
  induction n with
  | zero =>
      rw [Nat.zero_add, Nat.add_comm]
      exact below_array_iff
  | succ n ih =>
      have hlevels : n + 1 + 1 + levels = n + 1 + levels + 1 := by omega
      have hreference : (Term.array^[n + 1] A).isReference H = true := by
        rw [Function.iterate_succ_apply']
        rfl
      have hinjective : Function.Injective Term.array^[n + 1] :=
        Function.Injective.iterate (fun _ _ => Term.array.inj) (n + 1)
      rw [hlevels, Function.iterate_succ_apply' _ (n + 1) A,
        Function.iterate_succ_apply' _ (n + 1) B, below_array_iff, ih,
        hinjective.eq_iff]
      simp only [hreference, true_and, or_self_left]

end Hierarchy

/-! ## Arrays with layers -/

namespace Table

variable {foreign : Handle → Prop} {H : Hierarchy} {t u v : Table}
  {a b x y : Handle} {A : Term}

/-- The array type with a number of layers over an element type. -/
def layeredArray : Nat → Handle → StateM Table Handle
  | 0, h => return h
  | n + 1, h => do arrayOf (← layeredArray n h)

theorem interns_layeredArray (n : Nat) (h : Handle) :
    Interns (layeredArray n h) := by
  induction n with
  | zero => exact .of_pure h
  | succ n ih => exact ih.bind interns_arrayOf

theorem growsTo_layeredArray {n : Nat} (hx : layeredArray n a t = (x, u)) :
    t.GrowsTo u := by
  have g := interns_layeredArray n a t
  rwa [hx] at g

theorem reads_layeredArray (n : Nat) (ha : t.Stands foreign a A) :
    Reads foreign H t (layeredArray n a)
      fun u x => u.Stands foreign x (Term.array^[n] A) := by
  induction n with
  | zero => exact .of_pure ha
  | succ n ih =>
      rw [Function.iterate_succ_apply']
      refine .bind (interns_layeredArray n a) interns_arrayOf ih ?_
      intro u x _ _ _ hx
      exact reads_arrayOf hx

theorem Stands.of_layeredArray {n : Nat} (ha : t.Stands foreign a A)
    (ht : t.Shows foreign H) (hx : layeredArray n a t = (x, u))
    (hu : u.Avoids foreign) :
    u.Shows foreign H ∧ u.Stands foreign x (Term.array^[n] A) := by
  have h := reads_layeredArray n ha ht
  rw [hx] at h
  exact h hu

/-- Each layer takes one level of the walk, and the levels that are left decide
between the element types. -/
theorem Sound.assignableWithin_layeredArray_iff (ht : t.Sound foreign)
    (ha : t.knows a = true) (hb : t.knows b = true) {n levels : Nat}
    (hx : layeredArray (n + 1) a t = (x, u))
    (hy : layeredArray (n + 1) b u = (y, v))
    (havoids : (assignableWithin levels a b t).2.Avoids foreign)
    (havoids' : (assignableWithin (n + 1 + levels) x y v).2.Avoids foreign) :
    (assignableWithin (n + 1 + levels) x y v).1 = true ↔
      a = b ∨ t.isReferenceType a = true ∧
        (assignableWithin levels a b t).1 = true := by
  have gu := growsTo_layeredArray hx
  have gv := growsTo_layeredArray hy
  have hv := (interns_assignableWithin (n + 1 + levels) x y v).avoids havoids'
  have hA : t.Stands foreign a (t.denote a) := Admits.stands (.inl ha)
  have hB : t.Stands foreign b (t.denote b) := Admits.stands (.inl hb)
  obtain ⟨hu, hX⟩ := hA.of_layeredArray ht.shows hx (gv.avoids hv)
  obtain ⟨hv, hY⟩ := (hB.mono gu ht.shows hu).of_layeredArray hu hy hv
  have hbelow : (assignableWithin (n + 1 + levels) x y v).1 = true ↔
      t.hierarchy.Below (n + 1 + levels) (Term.array^[n + 1] (t.denote a))
        (Term.array^[n + 1] (t.denote b)) :=
    (walks foreign t.hierarchy _ (hX.mono gv hu hv) hY hv havoids').2
  rw [hbelow, Hierarchy.below_layers_iff, hA.eq_iff ht.shows hB,
    isReference_denote ht, ht.assignableWithin_iff (.inl ha) (.inl hb) havoids]

/-- Two types with the same number of array layers are assignable exactly when
the types are the same, or the one is a reference type and assignable to the
other, provided that deciding this leaves a level of the walk for each layer. -/
theorem Reachable.assignable_layeredArray_iff (hr : t.Reachable foreign)
    (ha : t.knows a = true) (hb : t.knows b = true) {n : Nat} (hn : 0 < n)
    (hle : n ≤ depthLimit) (hnests : t.Nests (depthLimit - n) a b)
    (hx : layeredArray n a t = (x, u)) (hy : layeredArray n b u = (y, v))
    (havoids : (assignable a b t).2.Avoids foreign)
    (havoids' : (assignable x y v).2.Avoids foreign) :
    (assignable x y v).1 = true ↔
      a = b ∨ t.isReferenceType a = true ∧ (assignable a b t).1 = true := by
  obtain ⟨n, rfl⟩ := Nat.exists_eq_add_one_of_ne_zero hn.ne'
  have ht : t.Sound foreign := ⟨hr.wellFormed, hr.avoids⟩
  have hlt : depthLimit - (n + 1) < depthLimit + 1 := by omega
  have hsettled := hnests.assignableWithin_eq hlt
  have hlevels : depthLimit + 1 = n + 1 + (depthLimit - (n + 1) + 1) := by omega
  rw [assignable, hsettled] at havoids
  rw [assignable, hlevels] at havoids'
  rw [assignable, assignable, hsettled, hlevels]
  exact ht.assignableWithin_layeredArray_iff ha hb hx hy havoids havoids'

/-- Squares are polygons and these are shapes, so deciding that squares are shapes
nests a level and leaves room for 63 layers.  Cells are shapes as well, but they
are values, and arrays of cells are no arrays of shapes. -/
theorem Reachable.assignable_layeredArray_shapes :
    let operations : List Operation :=
      [.declare { name := "Shape", kind := .interface },
        .declare { name := "Polygon", kind := .interface, interfaces := [⟨1⟩] },
        .declare { name := "Square", kind := .interface, interfaces := [⟨2⟩] },
        .declare { name := "Cell", kind := .struct, interfaces := [⟨1⟩] }]
    let t := operations.foldl (fun t op => (op.run t).2) empty
    t.Reachable noneForeign ∧
      (∃ x u y v, t.Nests (depthLimit - 63) ⟨3⟩ ⟨1⟩ ∧
        layeredArray 63 ⟨3⟩ t = (x, u) ∧ layeredArray 63 ⟨1⟩ u = (y, v) ∧
        (assignable x y v).1 = true) ∧
      ∃ x u y v, t.Nests (depthLimit - 64) ⟨4⟩ ⟨1⟩ ∧
        layeredArray 64 ⟨4⟩ t = (x, u) ∧ layeredArray 64 ⟨1⟩ u = (y, v) ∧
        (assignable ⟨4⟩ ⟨1⟩ t).1 = true ∧ (assignable x y v).1 = false := by
  intro operations t
  have hr : t.Reachable noneForeign :=
    ⟨.inl (run_of_takesOwn (by decide +kernel)), avoids_noneForeign _⟩
  have hshape : t.knows ⟨1⟩ = true := by decide +kernel
  have hsquare : t.knows ⟨3⟩ = true ∧ t.Nests (depthLimit - 63) ⟨3⟩ ⟨1⟩ ∧
      t.isReferenceType ⟨3⟩ = true ∧ (assignable ⟨3⟩ ⟨1⟩ t).1 = true := by
    decide +kernel
  have hcell : t.knows ⟨4⟩ = true ∧ t.Nests (depthLimit - 64) ⟨4⟩ ⟨1⟩ ∧
      t.isReferenceType ⟨4⟩ = false ∧ (assignable ⟨4⟩ ⟨1⟩ t).1 = true := by
    decide +kernel
  refine ⟨hr, ?_, ?_⟩
  · obtain ⟨hknown, hnests, hreference, hassignable⟩ := hsquare
    rcases hx : layeredArray 63 ⟨3⟩ t with ⟨x, u⟩
    rcases hy : layeredArray 63 ⟨1⟩ u with ⟨y, v⟩
    have hiff := hr.assignable_layeredArray_iff hknown hshape (n := 63)
      (by decide) (by decide) hnests hx hy (avoids_noneForeign _)
      (avoids_noneForeign _)
    exact ⟨x, u, y, v, hnests, rfl, hy,
      hiff.mpr (.inr ⟨hreference, hassignable⟩)⟩
  · obtain ⟨hknown, hnests, hvalue, hassignable⟩ := hcell
    rcases hx : layeredArray 64 ⟨4⟩ t with ⟨x, u⟩
    rcases hy : layeredArray 64 ⟨1⟩ u with ⟨y, v⟩
    have hiff := hr.assignable_layeredArray_iff hknown hshape (n := 64)
      (by decide) (by decide) hnests hx hy (avoids_noneForeign _)
      (avoids_noneForeign _)
    have hnot : ¬(assignable x y v).1 = true := by
      rw [hiff, hvalue]
      simp
    exact ⟨x, u, y, v, hnests, rfl, hy, hassignable, Bool.eq_false_iff.mpr hnot⟩

end Table

end Verdicts
