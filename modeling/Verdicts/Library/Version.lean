import Verdicts.Text

/-!
# Library versions

A version has four parts of 32 bits each. Missing trailing parts are zero, so
`2.2` and `2.2.0.0` are the same version, and versions are ordered by their
parts from the left.
-/

namespace Verdicts

/-- A four-part library version. -/
structure Version where
  major : UInt32
  minor : UInt32
  build : UInt32
  revision : UInt32
  deriving DecidableEq, Repr, Inhabited

/-- Why a text is not a version. -/
inductive VersionError where
  /-- Nothing stands before the first `-` or `+`. -/
  | empty
  /-- There is a fifth part. -/
  | tooManyParts (input : String)
  /-- A part is not a decimal number below `2 ^ 32`. -/
  | invalidPart (input part : String)
  deriving DecidableEq, Repr

/-- The sentence that reports a version error. -/
def VersionError.message : VersionError → String
  | .empty => "version string is empty"
  | .tooManyParts input => "version `" ++ input ++ "` has more than four parts"
  | .invalidPart input part =>
    "version `" ++ input ++ "` has an invalid part `" ++ part ++ "`"

namespace Version

/-- The version `major.minor.build`. -/
def release (major minor build : UInt32) : Version :=
  ⟨major, minor, build, 0⟩

/-- The four parts read as one number with 32-bit digits, most significant
part first. -/
def rank (v : Version) : Nat :=
  ((v.major.toNat * UInt32.size + v.minor.toNat) * UInt32.size + v.build.toNat)
    * UInt32.size + v.revision.toNat

instance : LE Version := ⟨fun v w => v.rank ≤ w.rank⟩

instance : LT Version := ⟨fun v w => v.rank < w.rank⟩

instance (v w : Version) : Decidable (v ≤ w) :=
  inferInstanceAs (Decidable (v.rank ≤ w.rank))

instance : Ord Version := ⟨fun v w => compare v.rank w.rank⟩

/-! ## Writing -/

/-- The characters of a version: three parts, and a fourth when it is not
zero. -/
def chars (v : Version) : List Char :=
  Text.decimal v.major.toNat ++ '.' :: Text.decimal v.minor.toNat
    ++ '.' :: Text.decimal v.build.toNat
    ++ if v.revision = 0 then [] else '.' :: Text.decimal v.revision.toNat

/-- The text of a version. -/
def text (v : Version) : String :=
  String.ofList v.chars

/-! ## Reading -/

/-- The part of a text that counts: no blanks at the ends, and nothing from
the first `-` or `+` on. -/
def numericCore (cs : List Char) : List Char :=
  (Text.trim cs).takeWhile fun c => c ≠ '-' && c ≠ '+'

/-- One part: a decimal number below `2 ^ 32`. -/
def part? (cs : List Char) : Option UInt32 :=
  match Text.ofDecimal? cs with
  | some n => if n < UInt32.size then some (UInt32.ofNat n) else none
  | none => none

/-- Read parts from the left, at most `room` of them. The first fault met
decides the error. -/
def readParts (input : String) :
    Nat → List (List Char) → Except VersionError (List UInt32)
  | _, [] => .ok []
  | 0, _ :: _ => .error (.tooManyParts input)
  | room + 1, p :: ps =>
    match part? p with
    | none => .error (.invalidPart input (String.ofList p))
    | some n => (readParts input room ps).map (n :: ·)

/-- The version with the given leading parts; the others are zero. -/
def ofParts (parts : List UInt32) : Version :=
  ⟨parts.getD 0 0, parts.getD 1 0, parts.getD 2 0, parts.getD 3 0⟩

/-- Read a version. -/
def ofText (input : String) : Except VersionError Version :=
  match numericCore input.toList with
  | [] => .error .empty
  | core => (readParts input 4 (core.splitOn '.')).map ofParts

end Version

end Verdicts
