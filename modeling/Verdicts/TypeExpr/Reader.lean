import Verdicts.Text
import Verdicts.TypeExpr.Basic

/-!
# Reading type expressions

The grammar, where blanks may stand between tokens:

* a type is a primary followed by any number of suffixes, `[` `]` or `?`;
* a primary is a name, possibly followed by types between `<` and `>` that are
  separated by commas;
* a name is a letter or `_` followed by letters, digits, `_`, `.` and
  backticks, as many as there are, and neither ends in a dot nor holds two
  dots in a row.

A text outside the grammar is answered by the fault and the place where it
shows: the number of bytes in front of it.
-/

namespace Verdicts.TypeExpr

/-- What is wrong with a text that is no type expression. -/
inductive Fault where
  /-- An opening bracket is not followed by a closing one. -/
  | unclosedBrackets
  /-- An argument is followed neither by a comma nor by `>`. -/
  | unclosedArguments
  /-- A name should stand here. -/
  | missingName
  /-- The name that begins here ends in a dot or holds two in a row. -/
  | malformedName
  /-- The text goes on after the type. -/
  | trailingInput
  deriving DecidableEq, Repr

/-- The phrase that reports a fault. -/
def Fault.reason : Fault → String
  | .unclosedBrackets => "expected `]`"
  | .unclosedArguments => "expected `,` or `>`"
  | .missingName => "expected a type name"
  | .malformedName => "malformed qualified name"
  | .trailingInput => "unexpected trailing input"

/-- A fault in a text and the number of bytes in front of it. -/
structure ReadError where
  input : String
  offset : Nat
  fault : Fault
  deriving DecidableEq, Repr

/-- The sentence that reports a text which is no type expression. -/
def ReadError.message (e : ReadError) : String :=
  "invalid type expression `" ++ e.input ++ "` at offset " ++ Text.numeral e.offset
    ++ ": " ++ e.fault.reason

/-- A fault together with the text that begins where it shows. -/
abbrev Failure := Fault × List Char

/-! ## Names -/

/-- The characters that begin a name. -/
def isNameStart (c : Char) : Bool :=
  c.isAlpha || c = '_'

/-- The characters that go on with a name. The last one is the backtick. -/
def isNameChar (c : Char) : Bool :=
  c.isAlphanum || c = '_' || c = '.' || c = '\x60'

/-- Whether two dots stand in a row. -/
def hasDoubleDot : List Char → Bool
  | '.' :: '.' :: _ => true
  | _ :: rest => hasDoubleDot rest
  | [] => false

/-- Whether no part between the dots of a name is empty, the first one apart. -/
def isQualified (name : List Char) : Bool :=
  name.getLast? ≠ some '.' && !hasDoubleDot name

/-- Read a name, as far as it goes. -/
def readName : List Char → Except Failure (String × List Char)
  | [] => .error (.missingName, [])
  | c :: rest =>
    if isNameStart c then
      let name := c :: rest.takeWhile isNameChar
      if isQualified name then
        .ok (String.ofList name, rest.dropWhile isNameChar)
      else
        .error (.malformedName, c :: rest)
    else
      .error (.missingName, c :: rest)

/-! ## Types -/

/-- Read the suffixes after a type. The bound is at least the number of
characters left. -/
def readSuffixes : Nat → TypeExpr → List Char → Except Failure (TypeExpr × List Char)
  | 0, e, cs => .ok (e, cs)
  | bound + 1, e, cs =>
    match Text.skipBlank cs with
    | '?' :: rest => readSuffixes bound (.nullable e) rest
    | '[' :: rest =>
      match Text.skipBlank rest with
      | ']' :: rest => readSuffixes bound (.array e) rest
      | rest => .error (.unclosedBrackets, rest)
    | rest => .ok (e, rest)

mutual

/-- Read a type, blanks in front of it included. The bound is above the number
of characters left. -/
def readType : Nat → List Char → Except Failure (TypeExpr × List Char)
  | 0, cs => .error (.missingName, cs)
  | bound + 1, cs => do
    let (name, rest) ← readName (Text.skipBlank cs)
    match Text.skipBlank rest with
    | '<' :: rest => do
      let (arguments, rest) ← readArguments bound rest
      readSuffixes (rest.length + 1) (.named name arguments) rest
    | rest => readSuffixes (rest.length + 1) (.named name []) rest

/-- Read type arguments up to the closing `>`. -/
def readArguments : Nat → List Char → Except Failure (List TypeExpr × List Char)
  | 0, cs => .error (.missingName, cs)
  | bound + 1, cs => do
    let (argument, rest) ← readType bound cs
    match Text.skipBlank rest with
    | ',' :: rest => do
      let (arguments, rest) ← readArguments bound rest
      return (argument :: arguments, rest)
    | '>' :: rest => return ([argument], rest)
    | rest => .error (.unclosedArguments, rest)

end

/-- The number of bytes that characters take in UTF-8. -/
def byteCount (cs : List Char) : Nat :=
  (String.ofList cs).utf8ByteSize

/-- Read a text that holds one type expression and blanks. -/
def readAll (cs : List Char) : Except Failure TypeExpr := do
  let (e, rest) ← readType (cs.length + 1) cs
  match Text.skipBlank rest with
  | [] => return e
  | rest => .error (.trailingInput, rest)

/-- The type expression that a text holds. -/
def ofText (input : String) : Except ReadError TypeExpr :=
  let cs := input.toList
  match readAll cs with
  | .ok e => .ok e
  | .error (fault, rest) => .error ⟨input, byteCount cs - byteCount rest, fault⟩

end Verdicts.TypeExpr
