import Verdicts.Proofs.Loading.Origins
import Verdicts.Proofs.Loading.Transitivity
import Verdicts.Proofs.Naming.Divergence

/-!
# Display names in loaded programs

In the table of a loaded program the display name of every type that an
expression names leads back to that type.  The core library alone has types that
are shown as keywords or with a question mark, and every other definition is
marked with its number of type parameters, which the display name leaves out.
-/

namespace Verdicts

open Table

variable {m : Manifest} {p : Program} {h : Handle} {t : Table} {e : TypeExpr}

/-- The built-in types of the core library are the ones that are found, and the
nullable types have their usual name. -/
theorem Table.tagged_coreLibrary {b : BuiltIn} {d : Definition}
    (hd : coreLibrary.shape? h = some (.named d)) (hb : d.builtIn = some b) :
    coreLibrary.builtIn? b = some h ∧
      (b = .nullableT → d.name = "System.Nullable`1") := by
  have hall : (coreLibrary.handles.all fun h =>
      (coreLibrary.definition? h).all fun d => d.builtIn.all fun b =>
        decide (coreLibrary.builtIn? b = some h ∧
          (b = .nullableT → d.name = "System.Nullable`1"))) = true := by
    decide +kernel
  have hh := of_all_definitions hall hd
  rw [hb, Option.all_some] at hh
  exact of_decide_eq_true hh

theorem Manifest.showable_of_load (hm : m.load = .ok p) : p.table.Showable := by
  have hkeeps := keepsBuiltIn_of_load hm
  exact
    { wellFormed := wellFormed_of_load hm
      parameters := fun hd => marked_of_load hm hd
      builtIn := fun hd hb =>
        (hkeeps.builtIn _).trans (tagged_coreLibrary (hkeeps.tagged hd hb) hb).1
      nullable := fun hd hb =>
        (tagged_coreLibrary (hkeeps.tagged hd hb) hb).2 rfl }

/-- The display name of a type that an expression names in a loaded program
leads back to the type, if no name in the expression holds a backtick and the
expression has no more levels than a display name shows. -/
theorem Manifest.resolveText_display (hm : m.load = .ok p) {text : String}
    (he : TypeExpr.ofText text = .ok e) (hunmarked : ∀ name ∈ e.names, Unmarked name)
    (hdepth : e.depth ≤ depthLimit) (hh : resolveText text p.table = (.ok h, t)) :
    resolveText (t.display h) t = (.ok h, t) := by
  rw [resolveText, resolveTextIn, he] at hh
  dsimp only at hh
  have g := TypeExpr.growsTo_resolveIn hh
  have w := TypeExpr.wellFormed_resolveIn (wellFormed_of_load hm) hh
  have hnamed := (TypeExpr.ofText_eq_ok_iff.mp he).wellNamed
  obtain ⟨shown, hshown, hdisplay, hnames⟩ :=
    ((showable_of_load hm).grow g w).shown hnamed hunmarked hdepth
      (TypeExpr.names_of_resolveIn hh)
  rw [display, hdisplay, resolveText, resolveTextIn, TypeExpr.ofText_text hshown]
  exact TypeExpr.resolveIn_of_names w hnames

/-- A manifest whose structure hides the identifiers of the core library. -/
def guidManifest : Manifest :=
  { Manifest.empty with
    types := [⟨"Guid", .struct, none, none, [], []⟩] }

/-- Names under an open namespace, keywords, arrays and nullable types are all
found again, and so is a type that hides another one. -/
theorem Manifest.resolveText_display_guid :
    ∃ p h t, guidManifest.load = .ok p ∧
      resolveText "Dictionary<Guid?, List<Int32>[]>" p.table = (.ok h, t) ∧
      t.display h = "System.Collections.Generic.Dictionary<Guid?, " ++
        "System.Collections.Generic.List<int>[]>" ∧
      resolveText (t.display h) t = (.ok h, t) := by
  have hcheck : (match guidManifest.load with
      | .ok p =>
        match resolveText "Dictionary<Guid?, List<Int32>[]>" p.table with
        | (.ok h, t) => t.display h == "System.Collections.Generic.Dictionary<Guid?, " ++
            "System.Collections.Generic.List<int>[]>"
        | (.error _, _) => false
      | .error _ => false) = true := by
    decide +kernel
  have he : TypeExpr.ofText "Dictionary<Guid?, List<Int32>[]>" =
      .ok (.named "Dictionary" [.nullable (.named "Guid" []),
        .array (.named "List" [.named "Int32" []])]) := by
    cbv
  cases hm : guidManifest.load with
  | error e =>
      rw [hm] at hcheck
      cases hcheck
  | ok p =>
      rw [hm] at hcheck
      dsimp only at hcheck
      rcases hh : resolveText "Dictionary<Guid?, List<Int32>[]>" p.table with ⟨e | h, t⟩
      · rw [hh] at hcheck
        cases hcheck
      · rw [hh] at hcheck
        exact ⟨p, h, t, rfl, hh, by simpa using hcheck,
          resolveText_display hm he (by decide) (by decide) hh⟩

end Verdicts
