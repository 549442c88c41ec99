import Mathlib.Data.List.Nodup
import Mathlib.Data.List.Count
import Verdicts.Manifest.Codec

/-!
# Written records are read back

A record is written as the members that are present, each under the name of its
field.  Reading it finds every field again, because no two fields share a name:
a present one with its value, an absent one as missing.  A field value is read
back if its reader undoes its writer and, where it may be absent, takes `null`
for no value.
-/

namespace Verdicts.Json

variable {α : Type}

/-! ## Fields -/

/-- The members that a record writes for its fields. -/
def written (fields : List (String × Option Json)) : List (String × Json) :=
  fields.filterMap fun f => f.2.map (f.1, ·)

theorem member_eq_written (name : String) (value : Json) :
    member name value = written [(name, some value)] :=
  rfl

theorem memberIfSome_eq_written (name : String) (write : α → Json) (x : Option α) :
    memberIfSome name write x = written [(name, x.map write)] := by
  cases x <;> rfl

/-- The field value of a list: absent if the list is empty. -/
def ifAny (write : α → Json) (items : List α) : Option Json :=
  if items.isEmpty then none else some (ofList write items)

theorem memberIfAny_eq_written (name : String) (write : α → Json) (items : List α) :
    memberIfAny name write items = written [(name, ifAny write items)] := by
  cases items <;> rfl

theorem written_append (fields more : List (String × Option Json)) :
    written fields ++ written more = written (fields ++ more) :=
  List.filterMap_append.symm

theorem map_fst_written_sublist (fields : List (String × Option Json)) :
    ((written fields).map Prod.fst).Sublist (fields.map Prod.fst) := by
  induction fields with
  | nil => exact List.Sublist.slnil
  | cons f fields ih =>
      obtain ⟨name, _ | value⟩ := f
      · exact ih.cons name
      · exact ih.cons_cons name

theorem lookup_written {fields : List (String × Option Json)}
    (hnodup : (fields.map Prod.fst).Nodup) {name : String} {x : Option Json}
    (h : (name, x) ∈ fields) : (written fields).lookup name = x := by
  induction fields with
  | nil => cases h
  | cons f fields ih =>
      obtain ⟨hfresh, hrest⟩ := List.nodup_cons.mp hnodup
      rcases List.mem_cons.mp h with rfl | hmem
      · cases x with
        | some value => simp [written]
        | none =>
            refine List.lookup_eq_none_iff.mpr fun m hm => ?_
            have hname := (map_fst_written_sublist fields).subset
              (List.mem_map_of_mem hm)
            simpa using fun heq : name = m.1 => hfresh (heq ▸ hname)
      · have hne : name ≠ f.1 := by
          rintro rfl
          exact hfresh (List.mem_map.mpr ⟨_, hmem, rfl⟩)
        obtain ⟨other, _ | value⟩ := f
        · exact ih hrest hmem
        · have hlookup := ih hrest hmem
          simp only [written, List.filterMap_cons, Option.map_some] at hlookup ⊢
          rwa [List.lookup_cons, beq_false_of_ne hne]

theorem lookup_some_map (members : List (String × Json)) (name : String) :
    (members.map fun m => (some m.1, m.2)).lookup (some name) = members.lookup name := by
  induction members with
  | nil => rfl
  | cons m members ih =>
      obtain ⟨other, value⟩ := m
      simp [List.lookup_cons, ih]

/-- Every field of a written record is found again. -/
theorem fields?_record_written {fields : List (String × Option Json)}
    {names : List String} (hnames : fields.map Prod.fst = names) (hnodup : names.Nodup)
    (strict : Bool) :
    (record (written fields)).fields? names strict = some (fields.map Prod.snd) := by
  subst hnames
  have hsublist := map_fst_written_sublist fields
  have hgiven : memberNames? ((written fields).map fun m => (some m.1, m.2)) =
      some ((written fields).map Prod.fst) := by
    rw [memberNames?, List.mapM_map]
    exact List.mapM_pure
  have hcount : ∀ name ∈ fields.map Prod.fst,
      ¬((written fields).map Prod.fst).count name > 1 := by
    intro name _
    have hle := List.nodup_iff_count_le_one.mp (hnodup.sublist hsublist) name
    omega
  have hknown : ∀ name ∈ (written fields).map Prod.fst,
      (fields.map Prod.fst).contains name = true :=
    fun name hname => List.contains_iff_mem.mpr (hsublist.subset hname)
  have hlookup : (fields.map Prod.fst).map
      (fun name => ((written fields).map fun m => (some m.1, m.2)).lookup (some name)) =
        fields.map Prod.snd := by
    rw [List.map_map, List.map_inj_left]
    intro f hf
    rw [Function.comp_apply, lookup_some_map]
    exact lookup_written hnodup hf
  simp only [record, fields?, hgiven, Option.bind_eq_bind, Option.bind_some]
  rw [if_neg, if_neg, hlookup]
  · rfl
  · simpa using fun _ => hknown
  · simpa using hcount

/-! ## Field values -/

theorem mapM_map_eq_some {β : Type} {read : β → Option α} {write : α → β}
    (h : ∀ a, read (write a) = some a) (items : List α) :
    (items.map write).mapM read = some items := by
  induction items with
  | nil => rfl
  | cons a items ih => simp [h, ih]

theorem list?_ofList {read : Json → Option α} {write : α → Json}
    (h : ∀ a, read (write a) = some a) (items : List α) :
    list? read (ofList write items) = some items :=
  mapM_map_eq_some h items

theorem withDefault?_ofList {read : Json → Option α} {write : α → Json}
    (default : List α) (h : ∀ a, read (write a) = some a) (items : List α) :
    withDefault? default (list? read) (some (ofList write items)) = some items :=
  list?_ofList h items

theorem withDefault?_ifAny {read : Json → Option α} {write : α → Json}
    (h : ∀ a, read (write a) = some a) (items : List α) :
    withDefault? [] (list? read) (ifAny write items) = some items := by
  cases items with
  | nil => rfl
  | cons a items => exact list?_ofList h (a :: items)

theorem withDefault?_map {read : Json → Option α} {write : α → Json}
    (h : ∀ a, read (write a) = some a) (hnull : read .null = none) (x : Option α) :
    withDefault? none (optional? read) (x.map write) = some x := by
  cases x with
  | none => rfl
  | some a =>
      have hne : write a ≠ .null := by
        intro heq
        have hread := h a
        rw [heq, hnull] at hread
        cases hread
      change optional? read (write a) = some (some a)
      unfold optional?
      split
      · next heq => exact absurd heq hne
      · rw [h a]
        rfl

end Verdicts.Json
