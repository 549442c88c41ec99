/-!
# JSON values and how they are written

The values that a JSON text can denote, as far as program manifests need them.
No record of a manifest has a numeric field, so a number is only known to be
one. A string whose escapes leave a surrogate without its partner spells no
text, and is kept as a string without a value.

A value is written either without blanks, or indented by two columns for each
level of nesting. Only the quote, the backslash and the control characters are
escaped in strings.
-/

namespace Verdicts

/-- A JSON value. The members of an object keep their order and may repeat a
name. -/
inductive Json where
  | null
  | bool (b : Bool)
  | number
  | string (text : Option String)
  | array (items : List Json)
  | object (members : List (Option String × Json))
  deriving Inhabited

namespace Json

/-- The string with the given text. -/
def text (s : String) : Json :=
  .string (some s)

/-- The object with the given members. -/
def record (members : List (String × Json)) : Json :=
  .object (members.map fun m => (some m.1, m.2))

/-! ## Writing -/

/-- The small hexadecimal digit of a number below sixteen. -/
def hexChar (n : Nat) : Char :=
  Nat.digitChar n

/-- How a character is written inside a string. -/
def escape (c : Char) : List Char :=
  match c with
  | '"' => ['\\', '"']
  | '\\' => ['\\', '\\']
  | '\x08' => ['\\', 'b']
  | '\x0c' => ['\\', 'f']
  | '\n' => ['\\', 'n']
  | '\r' => ['\\', 'r']
  | '\t' => ['\\', 't']
  | c =>
    if c.toNat < 0x20 then
      ['\\', 'u', '0', '0', hexChar (c.toNat / 16), hexChar (c.toNat % 16)]
    else
      [c]

/-- A string literal. A string without a value is written as a surrogate that
stands alone. -/
def quote : Option String → List Char
  | some s => '"' :: s.toList.flatMap escape ++ ['"']
  | none => ['"', '\\', 'u', 'd', '8', '0', '0', '"']

mutual

/-- A value without blanks. -/
def compact : Json → List Char
  | .null => ['n', 'u', 'l', 'l']
  | .bool true => ['t', 'r', 'u', 'e']
  | .bool false => ['f', 'a', 'l', 's', 'e']
  | .number => ['0']
  | .string text => quote text
  | .array [] => ['[', ']']
  | .array (item :: items) => '[' :: compact item ++ compactItems items ++ [']']
  | .object [] => ['\x7b', '\x7d']
  | .object ((name, value) :: members) =>
    '\x7b' :: quote name ++ ':' :: compact value ++ compactMembers members ++ ['\x7d']

/-- The later items of an array, each after a comma. -/
def compactItems : List Json → List Char
  | [] => []
  | item :: items => ',' :: compact item ++ compactItems items

/-- The later members of an object, each after a comma. -/
def compactMembers : List (Option String × Json) → List Char
  | [] => []
  | (name, value) :: members =>
    ',' :: quote name ++ ':' :: compact value ++ compactMembers members

end

/-- A line break and the indentation of a level. -/
def newline (level : Nat) : List Char :=
  '\n' :: List.replicate (2 * level) ' '

mutual

/-- A value that stands at a level of nesting, one item or member a line. -/
def indented (level : Nat) : Json → List Char
  | .null => ['n', 'u', 'l', 'l']
  | .bool true => ['t', 'r', 'u', 'e']
  | .bool false => ['f', 'a', 'l', 's', 'e']
  | .number => ['0']
  | .string text => quote text
  | .array [] => ['[', ']']
  | .array (item :: items) =>
    '[' :: newline (level + 1) ++ indented (level + 1) item
      ++ indentedItems (level + 1) items ++ newline level ++ [']']
  | .object [] => ['\x7b', '\x7d']
  | .object ((name, value) :: members) =>
    '\x7b' :: newline (level + 1) ++ quote name ++ ':' :: ' ' :: indented (level + 1) value
      ++ indentedMembers (level + 1) members ++ newline level ++ ['\x7d']

/-- The later items of an array at a level. -/
def indentedItems (level : Nat) : List Json → List Char
  | [] => []
  | item :: items =>
    ',' :: newline level ++ indented level item ++ indentedItems level items

/-- The later members of an object at a level. -/
def indentedMembers (level : Nat) : List (Option String × Json) → List Char
  | [] => []
  | (name, value) :: members =>
    ',' :: newline level ++ quote name ++ ':' :: ' ' :: indented level value
      ++ indentedMembers level members

end

/-- The text of a value without blanks. -/
def compactText (value : Json) : String :=
  String.ofList value.compact

/-- The text of a value, indented. -/
def indentedText (value : Json) : String :=
  String.ofList (value.indented 0)

end Json

end Verdicts
