import Verdicts.Library.Family
import Verdicts.Library.Version

/-!
# Library references and version overrides

A program references libraries by name, usually with a version. A caller may
also pin the version of a family, whether or not the program references it.
-/

namespace Verdicts

/-- A library that a program references. -/
structure Reference where
  name : String
  version : Option Version
  deriving DecidableEq, Repr

namespace Reference

/-- The family to which the referenced library belongs. -/
def family? (r : Reference) : Option Family :=
  Family.identify? r.name

/-- The text of a reference: its name, and its version after a blank. -/
def text (r : Reference) : String :=
  match r.version with
  | some v => r.name ++ " " ++ v.text
  | none => r.name

end Reference

/-- Versions that a caller pins, at most one a family. -/
@[ext] structure Overrides where
  /-- The version pinned for a family. -/
  version? : Family → Option Version

namespace Overrides

/-- Nothing is pinned. -/
def empty : Overrides := ⟨fun _ => none⟩

instance : Inhabited Overrides := ⟨empty⟩

/-- Pin the version of a family, in place of the version pinned before. -/
def insert (o : Overrides) (f : Family) (v : Version) : Overrides :=
  ⟨fun g => if g = f then some v else o.version? g⟩

/-- The pinned families with their versions, in family order. -/
def entries (o : Overrides) : List (Family × Version) :=
  Family.all.filterMap fun f => (o.version? f).map (f, ·)

/-- Pin versions one after the other; the last one for a family stays. -/
def insertAll (o : Overrides) (pins : List (Family × Version)) : Overrides :=
  pins.foldl (fun o pin => o.insert pin.1 pin.2) o

@[simp] theorem version?_empty (f : Family) : empty.version? f = none := rfl

@[simp] theorem version?_insert (o : Overrides) (f g : Family) (v : Version) :
    (o.insert f v).version? g = if g = f then some v else o.version? g := rfl

end Overrides

end Verdicts
