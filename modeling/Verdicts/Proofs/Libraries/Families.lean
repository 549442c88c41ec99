import Verdicts.Capability.Capabilities

/-!
# Which library belongs to which family

The patterns of the families overlap nowhere, so a library belongs to one family
at most.  The version with which a family is active is therefore settled by the
references to that family alone.
-/

namespace Verdicts

namespace NamePattern

/-- The text that names of the pattern begin with. -/
def head : NamePattern → String
  | .exact name => name
  | .startingWith head => head

theorem head_prefix_of_admits {p : NamePattern} {name : String}
    (h : p.admits name = true) :
    Text.fold p.head.toList <+: Text.fold name.toList := by
  cases p with
  | exact expected =>
      rw [Text.sameFolded_iff.mp h]
      exact List.prefix_refl _
  | startingWith head => exact Text.startsFolded_iff.mp h

end NamePattern

namespace Family

variable {f g : Family} {name : String}

/-- The beginning of one family's names is none of another family's. -/
theorem heads_apart : ∀ f ∈ all, ∀ g ∈ all,
    Text.fold f.pattern.head.toList <+: Text.fold g.pattern.head.toList →
      f = g := by
  decide +kernel

theorem eq_of_admits (hf : f.admits name = true) (hg : g.admits name = true) :
    f = g := by
  have hf' := NamePattern.head_prefix_of_admits hf
  have hg' := NamePattern.head_prefix_of_admits hg
  rcases List.prefix_or_prefix_of_prefix hf' hg' with h | h
  · exact heads_apart f f.mem_all g g.mem_all h
  · exact (heads_apart g g.mem_all f f.mem_all h).symm

theorem admits_of_identify? (h : identify? name = some f) :
    f.admits name = true :=
  List.find?_some (p := fun f : Family => f.admits name) h

/-- The family of a library is the one that admits its name. -/
theorem identify?_eq_some_iff :
    identify? name = some f ↔ f.admits name = true := by
  constructor
  · exact admits_of_identify?
  · intro hf
    have hsome : (identify? name).isSome = true :=
      List.find?_isSome.mpr ⟨f, f.mem_all, hf⟩
    obtain ⟨g, hg⟩ := Option.isSome_iff_exists.mp hsome
    rw [hg, eq_of_admits (admits_of_identify? hg) hf]

end Family

namespace Capabilities

/-- The version of a family is settled by the references to it. -/
theorem resolveFamily?_eq (references : List Reference) (overrides : Overrides)
    (f : Family) :
    resolveFamily? references overrides f =
      match overrides.version? f with
      | some v => some (some v)
      | none =>
        (references.filter fun r => r.family? = some f).head?.map
          (·.version) := by
  have hfamily : (fun r : Reference => f.admits r.name) =
      fun r => decide (r.family? = some f) := by
    funext r
    rw [Bool.eq_iff_iff, decide_eq_true_iff]
    exact Family.identify?_eq_some_iff.symm
  rw [resolveFamily?]
  cases overrides.version? f with
  | some v => rfl
  | none =>
      dsimp only
      rw [hfamily, List.head?_filter]

/-- References with the same libraries of each family, in the same order, make
the same families active. -/
theorem resolve_eq {references references' : List Reference}
    (h : ∀ f, references.filter (·.family? = some f) =
      references'.filter (·.family? = some f)) (overrides : Overrides) :
    resolve references overrides = resolve references' overrides := by
  have hfamily : resolveFamily? references overrides =
      resolveFamily? references' overrides := by
    funext f
    rw [resolveFamily?_eq, resolveFamily?_eq, h f]
  rw [resolve, resolve, hfamily]

end Capabilities

end Verdicts
