import Verdicts.Types.Assignability

/-!
# Types as terms

A handle stands for a type together with all the types that it is made of.  Here
a type is written out as a term: arrays and applications of definitions, down to
the flat types, which are made of no others.  What the walk of assignability
reads about flat types is gathered in a hierarchy.  Terms need no storing, so
substituting in them and going up to their supertypes are plain functions and
relations.
-/

namespace Verdicts

/-- A type, written out. -/
inductive Term where
  /-- A flat type. -/
  | atom (h : Handle)
  | array (element : Term)
  /-- A definition applied to arguments. -/
  | applied (definition : Term) (arguments : List Term)

/-- What a definition states, in terms. -/
structure Nominal where
  parameters : List Handle
  /-- The base, given or implied. -/
  base? : Option Term
  interfaces : List Term

/-- What a type parameter demands of its arguments, in terms. -/
structure Demands where
  valueType : Bool
  /-- Whether it is demanded or implied that the argument is a reference
  type. -/
  referenceType : Bool
  bounds : List Term

/-- What there is to know about flat types. -/
structure Hierarchy where
  knows : Handle → Bool
  kind : Handle → Kind
  tag? : Handle → Option BuiltIn
  definition? : Handle → Option Nominal
  parameter? : Handle → Option Demands

namespace Term

variable {T d : Term} {as : List Term} {D E : Handle → Prop}

/-- The handle of a flat type. -/
def handle? : Term → Option Handle
  | .atom h => some h
  | _ => none

theorem handle?_eq_some_iff {h : Handle} : T.handle? = some h ↔ T = .atom h := by
  cases T <;> simp [handle?]

theorem map_handle?_eq_iff {ps : List Handle} :
    as.map handle? = ps.map some ↔ as = ps.map .atom := by
  induction as generalizing ps with
  | nil => cases ps <;> simp
  | cons a as ih =>
      cases ps with
      | nil => simp
      | cons p ps => simp [ih, handle?_eq_some_iff]

/-- Every flat type in a term has a property. -/
inductive Over (D : Handle → Prop) : Term → Prop where
  | atom {h : Handle} (hh : D h) : Over D (.atom h)
  | array {element : Term} (he : Over D element) : Over D (.array element)
  | applied {definition : Term} {arguments : List Term}
      (hd : Over D definition) (has : ∀ a ∈ arguments, Over D a) :
      Over D (.applied definition arguments)

theorem over_atom_iff {h : Handle} : Over D (.atom h) ↔ D h := by
  constructor
  · rintro ⟨hh⟩
    exact hh
  · exact .atom

theorem over_array_iff {element : Term} :
    Over D (.array element) ↔ Over D element := by
  constructor
  · intro h
    cases h with
    | array he => exact he
  · exact .array

theorem over_applied_iff :
    Over D (.applied d as) ↔ Over D d ∧ ∀ a ∈ as, Over D a := by
  constructor
  · intro h
    cases h with
    | applied hd has => exact ⟨hd, has⟩
  · exact fun h => .applied h.1 h.2

/-! ## Applications and substitutions -/

/-- Whether the arguments are the definition's own parameters. -/
def ownsAll (H : Hierarchy) (definition : Term) (arguments : List Term) : Bool :=
  (definition.handle?.bind H.definition?).any fun d =>
    arguments.map handle? = d.parameters.map some

/-- A definition applied to arguments; applied to its own parameters it is the
definition itself. -/
def apply (H : Hierarchy) (definition : Term) (arguments : List Term) : Term :=
  if ownsAll H definition arguments then definition
  else .applied definition arguments

/-- Apply a substitution inside a term, down to a number of levels. -/
def substWithin (H : Hierarchy) (σ : List (Handle × Term)) : Nat → Term → Term
  | 0, T => T
  | _ + 1, .atom h => (σ.lookup h).getD (.atom h)
  | levels + 1, .array element => .array (substWithin H σ levels element)
  | levels + 1, .applied definition arguments =>
    .apply H definition (arguments.map (substWithin H σ levels))

/-- Apply a substitution inside a term. -/
def subst (H : Hierarchy) (σ : List (Handle × Term)) (T : Term) : Term :=
  if σ.isEmpty then T else substWithin H σ (Table.depthLimit + 1) T

theorem subst_atom_of_ne {H : Hierarchy} {h p : Handle} {E : Term} (hne : h ≠ p) :
    subst H [(p, E)] (.atom h) = .atom h := by
  simp [subst, substWithin, List.lookup_cons, beq_false_of_ne hne]

/-- A definition over one type parameter that is replaced. -/
theorem subst_applied_parameter {H : Hierarchy} {p : Handle} {E : Term} :
    subst H [(p, E)] (.applied d [.atom p]) = apply H d [E] := by
  have hp : substWithin H [(p, E)] Table.depthLimit (.atom p) = E := by
    rw [Table.depthLimit, substWithin, List.lookup_cons_self, Option.getD_some]
  rw [subst, if_neg (by simp), substWithin, List.map_singleton, hp]

theorem Over.apply (H : Hierarchy) (hd : d.Over D) (has : ∀ a ∈ as, a.Over D) :
    (apply H d as).Over D := by
  rw [Term.apply]
  split
  · exact hd
  · exact .applied hd has

theorem Over.substWithin (H : Hierarchy) {σ : List (Handle × Term)}
    (hσ : ∀ e ∈ σ, e.2.Over D) (levels : Nat) (hT : T.Over D) :
    (substWithin H σ levels T).Over D := by
  induction levels generalizing T with
  | zero => exact hT
  | succ levels ih =>
      cases hT with
      | @atom h hh =>
          rw [Term.substWithin]
          cases hl : σ.lookup h with
          | none => exact .atom hh
          | some image =>
              obtain ⟨l₁, l₂, heq, -⟩ := List.lookup_eq_some_iff.mp hl
              exact hσ (h, image) (by simp [heq])
      | array he => exact .array (ih he)
      | applied hd has =>
          refine .apply H hd ?_
          intro a ha
          obtain ⟨b, hb, rfl⟩ := List.mem_map.mp ha
          exact ih (has b hb)

theorem Over.subst (H : Hierarchy) {σ : List (Handle × Term)}
    (hσ : ∀ e ∈ σ, e.2.Over D) (hT : T.Over D) : (subst H σ T).Over D := by
  rw [Term.subst]
  split
  · exact hT
  · exact .substWithin H hσ _ hT

/-! ## Reading a term -/

/-- The structural kind of a type. -/
def kind (H : Hierarchy) : Term → Kind
  | .atom h => H.kind h
  | .array _ => .array
  | .applied definition _ => definition.kind H

/-- The built-in type for which a flat type stands. -/
def tag? (H : Hierarchy) : Term → Option BuiltIn
  | .atom h => H.tag? h
  | _ => none

/-- Whether the type is known. -/
def Known (H : Hierarchy) : Term → Prop
  | .atom h => H.knows h = true
  | _ => True

/-- Whether values of types of the kind are stored by reference. -/
def isReferenceKind : Kind → Bool
  | .classType | .interface | .array | .delegate | .dynamic => true
  | _ => false

/-- Whether values of a type are stored by reference. -/
def isReference (H : Hierarchy) (T : Term) : Bool :=
  match T.handle?.bind H.parameter? with
  | some p => p.referenceType
  | none => isReferenceKind (T.kind H)

/-- Whether every array is assignable to the type. -/
def TakesArrays (H : Hierarchy) (T : Term) : Prop :=
  T.tag? H = some .array ∨ T.tag? H = some .iEnumerable

/-- An array is assignable to the type if its elements fit an element type. -/
inductive TakesElements (H : Hierarchy) : Term → Term → Prop where
  | array {element : Term} : TakesElements H (.array element) element
  | collection {definition element : Term} {rest : List Term}
      (hd : Table.isArrayCollection (definition.tag? H) = true) :
      TakesElements H (.applied definition (element :: rest)) element

end Term

end Verdicts
