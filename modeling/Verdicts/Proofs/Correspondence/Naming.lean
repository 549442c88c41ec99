import Verdicts.Proofs.Correspondence.Conversion

/-!
# Type expressions in corresponding tables

A type expression names linked types in corresponding tables, or fails in both
for the same reason.
-/

namespace Verdicts

variable {foreign : Handle → Prop} {ρ : World} {t u : Table}

/-- Scopes in which the same names stand for linked types. -/
abbrev ScopesMatch (ρ : World) (scope scope' : Scope) : Prop :=
  List.Forall₂ (fun x y => x.1 = y.1 ∧ ρ x.2 y.2) scope scope'

theorem ScopesMatch.mono {ρ' : World} {scope scope' : Scope} (h : ρ ≤ ρ')
    (hs : ScopesMatch ρ scope scope') : ScopesMatch ρ' scope scope' :=
  hs.imp fun _ _ hxy => ⟨hxy.1, h _ _ hxy.2⟩

namespace Table.FindsAlike

variable (f : t.FindsAlike ρ u)
include f

theorem lookup? (name : String) :
    Option.Rel ρ (t.lookup? name) (u.lookup? name) := by
  apply World.rel_orElse (f.named name)
  have hall : ∀ spaces : List String, Option.Rel ρ
      (spaces.findSome? fun space => t.named? (space ++ "." ++ name))
      (spaces.findSome? fun space => u.named? (space ++ "." ++ name)) := by
    intro spaces
    induction spaces with
    | nil => exact .none
    | cons space spaces ih =>
        rw [List.findSome?_cons, List.findSome?_cons]
        obtain ⟨_, _, hn, hn', hab⟩ | ⟨hn, hn'⟩ :=
          World.rel_cases (f.named (space ++ "." ++ name))
        · rw [hn, hn']
          exact .some hab
        · rw [hn, hn']
          exact ih
  exact hall openNamespaces

theorem nameType? {scope scope' : Scope} (hs : ScopesMatch ρ scope scope')
    (name : String) :
    Option.Rel ρ (t.nameType? scope name) (u.nameType? scope' name) := by
  rw [Table.nameType?, Table.nameType?]
  obtain ⟨_, _, hn, hn', hab⟩ | ⟨hn, hn'⟩ := World.rel_cases (World.rel_lookup hs name)
  · rw [hn, hn']
    exact .some hab
  · rw [hn, hn']
    cases BuiltIn.ofKeyword? name with
    | some b => exact f.builtIn b
    | none => exact f.lookup? name

theorem genericDefinition (name : String) (arguments : List TypeExpr) :
    Outcomes ρ (TypeExpr.genericDefinition t name arguments)
      (TypeExpr.genericDefinition u name arguments) := by
  rw [TypeExpr.genericDefinition, TypeExpr.genericDefinition]
  obtain ⟨_, _, hn, hn', hab⟩ | ⟨hn, hn'⟩ := World.rel_cases
    (f.lookup? (name ++ "`" ++ Text.numeral arguments.length))
  · rw [hn, hn']
    exact .ok hab
  · rw [hn, hn']
    obtain ⟨_, _, hn, hn', -⟩ | ⟨hn, hn'⟩ :=
      World.rel_cases (f.lookup? name)
    · simp only [hn, hn']
      exact .error _
    · simp only [hn, hn']
      exact .error _

end Table.FindsAlike

namespace TypeExpr

theorem agree_resolveAllIn {scope scope' : Scope} {arguments : List TypeExpr}
    (hs : ScopesMatch ρ scope scope')
    (h : ∀ e ∈ arguments, ∀ {ρ'}, ScopesMatch ρ' scope scope' →
      AgreeOrFail foreign ρ' (e.resolveIn scope) (e.resolveIn scope') Linked) :
    AgreeOrFail foreign ρ (resolveAllIn scope arguments)
      (resolveAllIn scope' arguments) fun ρ' => List.Forall₂ ρ' := by
  induction arguments generalizing ρ with
  | nil => exact .of_pure .nil
  | cons first rest ih =>
      rw [List.forall_mem_cons] at h
      have hrest : ∀ (scope : Scope) (a : Handle), Shields foreign (do
          let as ← resolveAllIn scope rest
          return a :: as : Naming (List Handle)).run := by
        intro scope a
        exact (Interns.bind_except
          (interns_resolveAllIn fun e _ => interns_resolveIn scope e)
          fun as => .of_except_pure (a :: as)).shields
      apply (h.1 hs).bind (hrest scope) (hrest scope')
      intro ρ' hle a b hab
      apply (ih (ScopesMatch.mono hle hs) h.2).bind
      · exact fun as => (Interns.of_except_pure _).shields
      · exact fun as => (Interns.of_except_pure _).shields
      · intro ρ'' hle' as bs hl
        exact .of_pure (.cons (hle' _ _ hab) hl)

theorem interns_nameNullable (h : Handle) : Interns (do
    match ← Table.nullableOf h with
    | some n => return n
    | none => throw (.unknownType "System.Nullable`1") :
      Naming Handle).run := by
  apply (Table.interns_nullableOf h).lift.bind_except
  rintro (_ | n)
  · exact .of_throw _
  · exact .of_except_pure n

theorem agree_resolveIn {scope scope' : Scope}
    (hs : ScopesMatch ρ scope scope') (e : TypeExpr) :
    AgreeOrFail foreign ρ (e.resolveIn scope) (e.resolveIn scope') Linked := by
  induction e using TypeExpr.induction generalizing ρ with
  | array e ih =>
      apply (ih hs).bind
      · exact fun h => (Table.interns_arrayOf h).lift.shields
      · exact fun h => (Table.interns_arrayOf h).lift.shields
      · exact fun _ _ _ hab => .lift (Table.agree_arrayOf hab)
  | nullable e ih =>
      apply (ih hs).bind
      · exact fun h => (interns_nameNullable h).shields
      · exact fun h => (interns_nameNullable h).shields
      intro ρ' hle a b hab
      apply (AgreeOrFail.lift (Table.agree_nullableOf hab)).bind
      · rintro (_ | h)
        · exact (Interns.of_throw _).shields
        · exact (Interns.of_except_pure h).shields
      · rintro (_ | h)
        · exact (Interns.of_throw _).shields
        · exact (Interns.of_except_pure h).shields
      · rintro ρ'' hle' _ _ (h | _)
        · exact .of_pure h
        · exact .of_throw _
  | plain name =>
      apply AgreeOrFail.get_bind
      intro t u m
      obtain ⟨_, _, hn, hn', hab⟩ | ⟨hn, hn'⟩ :=
        World.rel_cases ((Table.Matches.findsAlike m).nameType? hs name)
      · simp only [hn, hn']
        exact .of_pure hab
      · simp only [hn, hn']
        exact .of_throw _
  | applied name first rest ih =>
      apply AgreeOrFail.get_bind
      intro t u m
      have hdef := (Table.Matches.findsAlike m).genericDefinition name
        (first :: rest)
      revert hdef
      generalize genericDefinition t name (first :: rest) = x
      generalize genericDefinition u name (first :: rest) = y
      rintro (@⟨d, e, hde⟩ | e)
      · have hlast : ∀ (scope : Scope) (d a : Handle), Interns (do
            let as ← resolveAllIn scope rest
            Table.construct d (a :: as) : Naming Handle).run := by
          intro scope d a
          exact (interns_resolveAllIn fun e _ =>
            interns_resolveIn scope e).bind_except fun as =>
              (Table.interns_construct d (a :: as)).lift
        apply (ih first (List.mem_cons_self ..) hs).bind
        · exact fun a => (hlast scope d a).shields
        · exact fun a => (hlast scope' e a).shields
        · intro ρ' hle a b hab
          have hall := agree_resolveAllIn (ScopesMatch.mono hle hs)
            fun e he _ hs' => ih e (List.mem_cons_of_mem first he) hs'
          apply hall.bind
          · exact fun as => (Table.interns_construct d (a :: as)).lift.shields
          · exact fun as => (Table.interns_construct e (b :: as)).lift.shields
          · intro ρ'' hle' as bs has
            exact .lift (Table.agree_construct (hle' _ _ (hle _ _ hde))
              (.cons (hle' _ _ hab) has))
      · exact .of_throw e

end TypeExpr

namespace Table

theorem agree_resolveTextIn {scope scope' : Scope}
    (hs : ScopesMatch ρ scope scope') (text : String) :
    AgreeOrFail foreign ρ (resolveTextIn scope text)
      (resolveTextIn scope' text) Linked := by
  rw [resolveTextIn, resolveTextIn]
  split
  · exact TypeExpr.agree_resolveIn hs _
  · exact .of_throw _

theorem agree_resolveText (text : String) :
    AgreeOrFail foreign ρ (resolveText text) (resolveText text) Linked :=
  agree_resolveTextIn .nil text

end Table

end Verdicts
