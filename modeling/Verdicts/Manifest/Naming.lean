import Verdicts.TypeExpr.Reader
import Verdicts.Types.Table

/-!
# What type expressions name

A type expression is resolved in a table: a plain name is a type parameter in
scope, else a keyword, else a qualified name as written or under one of the
namespaces that are always open. Resolving stores the arrays and constructed
types that the expression names, also when a later part of it fails.
-/

namespace Verdicts

/-- Why a text names no type. -/
inductive NamingError where
  /-- The text is no type expression. -/
  | malformed (error : TypeExpr.ReadError)
  /-- There is no type of the name. -/
  | unknownType (name : String)
  /-- The type of the name takes no type arguments. -/
  | notGeneric (name : String)
  deriving DecidableEq, Repr

/-- The sentence that reports why a text names no type. -/
def NamingError.message : NamingError → String
  | .malformed e => e.message
  | .unknownType name => "unknown type `" ++ name ++ "`"
  | .notGeneric name => "`" ++ name ++ "` is not generic"

/-- Work on a table that may fail; what was stored before stays. -/
abbrev Naming := ExceptT NamingError (StateM Table)

/-- The type parameters that are visible by their names. -/
abbrev Scope := List (String × Handle)

namespace Table

/-- The namespaces that are always open, in the order of the search. -/
def openNamespaces : List String :=
  ["System", "System.Collections.Generic", "System.Numerics"]

/-- The type of a name, as written or under an open namespace. -/
def lookup? (t : Table) (name : String) : Option Handle :=
  t.named? name <|> openNamespaces.findSome? fun space => t.named? (space ++ "." ++ name)

/-- What a plain name names. -/
def nameType? (t : Table) (scope : Scope) (name : String) : Option Handle :=
  match scope.lookup name with
  | some parameter => some parameter
  | none =>
    match BuiltIn.ofKeyword? name with
    | some b => t.builtIn? b
    | none => t.lookup? name

end Table

namespace TypeExpr

/-- The definition that a name with a number of type arguments names. -/
def genericDefinition (t : Table) (name : String) (arguments : List TypeExpr) :
    Except NamingError Handle :=
  match t.lookup? (name ++ "`" ++ Text.numeral arguments.length) with
  | some definition => .ok definition
  | none =>
    match t.lookup? name with
    | some _ => .error (.notGeneric name)
    | none => .error (.unknownType (TypeExpr.named name arguments).text)

mutual

/-- The type that an expression names. -/
def resolveIn (scope : Scope) : TypeExpr → Naming Handle
  | .array element => do
    let h ← resolveIn scope element
    Table.arrayOf h
  | .nullable underlying => do
    let h ← resolveIn scope underlying
    match ← Table.nullableOf h with
    | some h => return h
    | none => throw (.unknownType "System.Nullable`1")
  | .named name [] => do
    match (← get).nameType? scope name with
    | some h => return h
    | none => throw (.unknownType name)
  | .named name (first :: rest) => do
    match genericDefinition (← get) name (first :: rest) with
    | .ok definition =>
      let h ← resolveIn scope first
      let hs ← resolveAllIn scope rest
      Table.construct definition (h :: hs)
    | .error e => throw e

/-- The types that expressions name, from left to right. -/
def resolveAllIn (scope : Scope) : List TypeExpr → Naming (List Handle)
  | [] => return []
  | e :: rest => do
    let h ← resolveIn scope e
    let hs ← resolveAllIn scope rest
    return h :: hs

end

end TypeExpr

namespace Table

/-- The type that a text names, with type parameters in scope. -/
def resolveTextIn (scope : Scope) (text : String) : Naming Handle :=
  match TypeExpr.ofText text with
  | .ok e => e.resolveIn scope
  | .error e => throw (.malformed e)

/-- The type that a text names. -/
def resolveText (text : String) : Naming Handle :=
  resolveTextIn [] text

end Table

end Verdicts
