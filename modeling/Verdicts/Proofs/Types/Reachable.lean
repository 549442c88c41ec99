import Verdicts.Proofs.Correspondence.Naming
import Verdicts.Proofs.Types.CoreLibrary
import Verdicts.Proofs.Types.Persistence

/-!
# Reachable tables

A host starts from the empty table or from the core library and applies
operations one after the other, handing in handles that it was given before, or
handles that the table never gives out.  All tables so reached are well-formed,
and nothing that was stored is lost.
-/

namespace Verdicts.Table

/-- What a host can do with a table. -/
inductive Operation where
  | declare (d : Declaration)
  | declareUnder (b : BuiltIn) (d : Declaration)
  | parameter (name : String) (constraints : Constraints)
  | other (name : String) (kind : Kind)
  | setBase (h base : Handle)
  | addInterface (h interface : Handle)
  | addConversion (source destination : Handle) (implicit : Bool)
  | named (name : String)
  | builtIn (b : BuiltIn)
  | arrayOf (element : Handle)
  | construct (definition : Handle) (arguments : List Handle)
  | nullableOf (underlying : Handle)
  | assignable (source target : Handle)
  | conversion (source destination : Handle)
  | resolve (scope : Scope) (text : String)

namespace Operation

/-- Carry an operation out.  Answers the handles that it gives out. -/
def run : Operation → StateM Table (List Handle)
  | .declare d => do return [← Table.declare d]
  | .declareUnder b d => do return [← Table.declareUnder b d]
  | .parameter name c => do return [← Table.parameter name c]
  | .other name kind => do return [← Table.other name kind]
  | .setBase h base => do
    Table.setBase h base
    return []
  | .addInterface h interface => do
    Table.addInterface h interface
    return []
  | .addConversion source destination implicit => do
    Table.addConversion source destination implicit
    return []
  | .named name => do return ((← get).named? name).toList
  | .builtIn b => do return ((← get).builtIn? b).toList
  | .arrayOf element => do return [← Table.arrayOf element]
  | .construct definition arguments => do
    return [← Table.construct definition arguments]
  | .nullableOf underlying => do return (← Table.nullableOf underlying).toList
  | .assignable source target => do
    let _ ← Table.assignable source target
    return []
  | .conversion source destination => do
    let _ ← Table.conversion source destination
    return []
  | .resolve scope text => do
    match ← (resolveTextIn scope text).run with
    | .ok h => return [h]
    | .error _ => return []

/-- The handles that an operation is handed. -/
def handed : Operation → List Handle
  | .declare d | .declareUnder _ d => d.handed
  | .parameter _ c => c.types
  | .setBase h base => [h, base]
  | .addInterface h interface => [h, interface]
  | .addConversion source destination _ => [source, destination]
  | .arrayOf element => [element]
  | .construct definition arguments => definition :: arguments
  | .nullableOf underlying => [underlying]
  | .assignable source target => [source, target]
  | .conversion source destination => [source, destination]
  | .resolve scope _ => scope.map (·.2)
  | .other _ _ | .named _ | .builtIn _ => []

/-- The handed handles that an operation may give out again: the type parameters
in scope. -/
def visible : Operation → List Handle
  | .resolve scope _ => scope.map (·.2)
  | _ => []

/-- Whether an operation stores arrays and constructed types at most. -/
def isQuery : Operation → Bool
  | .named _ | .builtIn _ | .arrayOf _ | .construct _ _ | .nullableOf _
  | .assignable _ _ | .conversion _ _ | .resolve _ _ => true
  | _ => false

/-- The operation is handed handles of the table or foreign ones, and type
parameters in scope are the table's own. -/
structure Permitted (foreign : Handle → Prop) (t : Table) (op : Operation) :
    Prop where
  handed : ∀ h ∈ op.handed, t.Admits foreign h
  visible : ∀ h ∈ op.visible, t.knows h = true

end Operation

/-- Operations lead from the first table to the second. -/
inductive Run (foreign : Handle → Prop) : Table → Table → Prop where
  | refl (t : Table) : Run foreign t t
  | step {t u : Table} (op : Operation) (h : op.Permitted foreign t)
      (rest : Run foreign (op.run t).2 u) : Run foreign t u

/-- A host has come to the table, and the table never gave out a foreign
handle. -/
structure Reachable (foreign : Handle → Prop) (t : Table) : Prop where
  run : Run foreign empty t ∨ Run foreign coreLibrary t
  avoids : t.Avoids foreign

variable {foreign : Handle → Prop} {t u : Table} {h : Handle}

/-! ## One operation -/

/-- Asking a table the same twice shows that it stays well-formed. -/
theorem WellFormed.of_agree {α : Type} {m : StateM Table α}
    {P : World → α → α → Prop} (w : t.WellFormed foreign) (hm : Interns m)
    (ha : (m t).2.Avoids foreign)
    (hagree : Agree foreign (t.itself foreign) m m P) :
    (m t).2.WellFormed foreign := by
  have hself := (GrowsTo.refl t).matches w w ((hm t).avoids ha)
  obtain ⟨ρ, -, m', -⟩ := hagree hself ha ha
  exact m'.left

theorem itself_self {foreign : Handle → Prop} (ha : t.Admits foreign h) :
    t.itself foreign h h :=
  ⟨ha, rfl⟩

theorem forall₂_itself {foreign : Handle → Prop} {hs : List Handle}
    (ha : ∀ h ∈ hs, t.Admits foreign h) :
    List.Forall₂ (t.itself foreign) hs hs :=
  List.forall₂_same.mpr fun h hh => itself_self (ha h hh)

theorem scopesMatch_itself {foreign : Handle → Prop} {scope : Scope}
    (ha : ∀ p ∈ scope, t.Admits foreign p.2) :
    ScopesMatch (t.itself foreign) scope scope :=
  List.forall₂_same.mpr fun p hp => ⟨rfl, itself_self (ha p hp)⟩

namespace Operation

theorem interns_run {op : Operation} (hq : op.isQuery = true) :
    Interns op.run := by
  cases op with
  | named | builtIn => exact Interns.get_bind fun t => .of_pure _
  | arrayOf e => exact (interns_arrayOf e).bind fun _ => .of_pure _
  | construct d as => exact (interns_construct d as).bind fun _ => .of_pure _
  | nullableOf h => exact (interns_nullableOf h).bind fun _ => .of_pure _
  | assignable a b => exact (interns_assignable a b).bind fun _ => .of_pure _
  | conversion a b => exact (interns_conversion a b).bind fun _ => .of_pure _
  | resolve scope text =>
      apply (interns_resolveTextIn scope text).bind
      rintro (_ | h)
      · exact .of_pure _
      · exact .of_pure _
  | declare | declareUnder | parameter | other | setBase | addInterface
    | addConversion => cases hq

theorem persistsIn_run (op : Operation) (t : Table) :
    t.PersistsIn (op.run t).2 := by
  cases hq : op.isQuery with
  | true => exact (interns_run hq t).persistsIn
  | false =>
      cases op with
      | declare d => exact persistsIn_declare t d
      | declareUnder b d => exact persistsIn_declare t _
      | parameter name c => exact persistsIn_push t _
      | other name kind => exact persistsIn_push t _
      | setBase h base => exact persistsIn_redefined (relinks_setBase base) t h
      | addInterface h interface =>
          exact persistsIn_redefined (relinks_addInterface interface) t h
      | addConversion => exact .of_shape? fun hs => hs
      | named | builtIn | arrayOf | construct | nullableOf | assignable
        | conversion | resolve => cases hq

theorem wellFormed_run {op : Operation} (w : t.WellFormed foreign)
    (hop : op.Permitted foreign t) (ha : (op.run t).2.Avoids foreign) :
    (op.run t).2.WellFormed foreign := by
  have hhanded := hop.handed
  cases op with
  | declare d => exact w.declare hhanded
  | declareUnder b d =>
      apply w.declare
      intro c hc
      simp only [Declaration.handed, List.append_assoc, List.mem_append] at hc
      rcases hc with hc | hc
      · exact .inl (knows_of_builtIn? (Option.mem_toList.mp hc))
      · apply hhanded
        simp only [handed, Declaration.handed, List.append_assoc,
          List.mem_append]
        exact .inr hc
  | parameter name c => exact w.push (fits_parameter name hhanded)
  | other name kind => exact w.push (fits_other name kind)
  | setBase h base => exact w.setBase (hhanded base (by simp [handed]))
  | addInterface h interface =>
      exact w.addInterface (hhanded interface (by simp [handed]))
  | addConversion a b implicit =>
      exact w.addConversion (hhanded a (by simp [handed]))
        (hhanded b (by simp [handed])) implicit
  | named | builtIn => exact w
  | arrayOf e =>
      exact w.of_agree (m := Table.arrayOf e) (interns_arrayOf e) ha
        (agree_arrayOf (itself_self (hhanded e (by simp [handed]))))
  | construct d as =>
      rw [handed, List.forall_mem_cons] at hhanded
      exact w.of_agree (m := Table.construct d as) (interns_construct d as) ha
        (agree_construct (itself_self hhanded.1) (forall₂_itself hhanded.2))
  | nullableOf e =>
      exact w.of_agree (m := Table.nullableOf e) (interns_nullableOf e) ha
        (agree_nullableOf (itself_self (hhanded e (by simp [handed]))))
  | assignable a b =>
      exact w.of_agree (m := Table.assignable a b) (interns_assignable a b) ha
        (agree_assignable (itself_self (hhanded a (by simp [handed])))
          (itself_self (hhanded b (by simp [handed]))))
  | conversion a b =>
      exact w.of_agree (m := Table.conversion a b) (interns_conversion a b) ha
        (agree_conversion (itself_self (hhanded a (by simp [handed])))
          (itself_self (hhanded b (by simp [handed]))))
  | resolve scope text =>
      have hagree : AgreeOrFail foreign (t.itself foreign)
          (resolveTextIn scope text) (resolveTextIn scope text) Linked := by
        apply agree_resolveTextIn
        apply scopesMatch_itself
        intro p hp
        exact hhanded p.2 (List.mem_map_of_mem hp)
      have hsame : (run (.resolve scope text) t).2 =
          ((resolveTextIn scope text).run t).2 := by
        rw [run, bind_apply]
        cases ((resolveTextIn scope text).run t).1 <;> rfl
      rw [hsame] at ha ⊢
      exact w.of_agree (interns_resolveTextIn scope text) ha hagree

end Operation

/-! ## Runs -/

namespace Run

theorem persistsIn (r : Run foreign t u) : t.PersistsIn u := by
  induction r with
  | refl t => exact .refl t
  | step op _ _ ih => exact (op.persistsIn_run _).trans ih

theorem wellFormed (r : Run foreign t u) (w : t.WellFormed foreign)
    (ha : u.Avoids foreign) : u.WellFormed foreign := by
  induction r with
  | refl t => exact w
  | step op hop rest ih =>
      exact ih (op.wellFormed_run w hop (rest.persistsIn.avoids ha)) ha

theorem trans {v : Table} (r : Run foreign t u) (r' : Run foreign u v) :
    Run foreign t v := by
  induction r with
  | refl t => exact r'
  | step op hop _ ih => exact .step op hop (ih r')

end Run

namespace Reachable

theorem wellFormed (hr : t.Reachable foreign) : t.WellFormed foreign := by
  rcases hr.run with r | r
  · exact r.wellFormed (.empty foreign) hr.avoids
  · exact r.wellFormed (wellFormed_coreLibrary foreign) hr.avoids

/-- A host that goes on stays among the reachable tables. -/
theorem of_run (hr : t.Reachable foreign) (r : Run foreign t u)
    (ha : u.Avoids foreign) : u.Reachable foreign where
  run := hr.run.imp (fun r' => r'.trans r) (fun r' => r'.trans r)
  avoids := ha

end Reachable

end Verdicts.Table
