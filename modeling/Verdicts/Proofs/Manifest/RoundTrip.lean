import Verdicts.Proofs.Json.Values
import Verdicts.Proofs.Libraries.Pins
import Verdicts.Proofs.Libraries.Versions
import Verdicts.Proofs.Manifest.Records

/-!
# Manifests are read back from their texts

Every part of a manifest is read back from what it is written as, from the
versions up to the manifest itself.  The text of a manifest therefore denotes
that manifest, and reading any other text of it and writing the result reaches
the same manifest again.
-/

namespace Verdicts

/-! ## Versions and references -/

theorem Version.ofJson?_toJson (v : Version) : ofJson? v.toJson = some v := by
  simp [ofJson?, toJson, Json.text, Json.text?, ofText_text, Except.toOption]

theorem Reference.ofJson?_toJson (r : Reference) : ofJson? r.toJson = some r := by
  have hwritten : r.toJson = Json.record (Json.written
      [("name", some (.text r.name)), ("version", r.version.map Version.toJson)]) := by
    simp only [toJson, Json.member_eq_written, Json.memberIfSome_eq_written,
      Json.written_append, List.cons_append, List.nil_append]
  have hversion := Json.withDefault?_map Version.ofJson?_toJson rfl r.version
  rw [ofJson?, hwritten, Json.fields?_record_written (by rfl) (by decide)]
  simp only [List.map_cons, List.map_nil, Option.bind_eq_bind, Option.bind_some, hversion]
  rfl

/-! ## Overrides -/

namespace Overrides

theorem ofName?_name (f : Family) : Family.ofName? f.name = some f := by
  cases f <;> decide

/-- Read one override. -/
def pin? (m : Option String × Json) : Option (Family × Version) := do
  return (← Family.ofName? (← m.1), ← Version.ofJson? m.2)

theorem pin?_member (e : Family × Version) :
    pin? (some e.1.name, e.2.toJson) = some e := by
  simp [pin?, ofName?_name, Version.ofJson?_toJson]

theorem ofJson?_object (members : List (Option String × Json)) :
    ofJson? (.object members) = (members.mapM pin?).bind fun pins =>
      some (empty.insertAll pins) :=
  rfl

theorem ofJson?_toJson (o : Overrides) : ofJson? o.toJson = some o := by
  have hpins := Json.mapM_map_eq_some pin?_member o.entries
  rw [toJson, Json.record, List.map_map, ofJson?_object]
  change (((o.entries.map fun e => (some e.1.name, e.2.toJson)).mapM pin?).bind _) = _
  rw [hpins, Option.bind_some, insertAll_entries]

end Overrides

/-! ## Declarations -/

theorem ParameterConstraint.choice?_name (c : ParameterConstraint) :
    Json.choice? byName (.text c.name) = some c := by
  cases c <;> decide

theorem DeclaredKind.choice?_name (k : DeclaredKind) :
    Json.choice? byName (.text k.name) = some k := by
  cases k <;> decide

theorem Json.text?_text (s : String) : Json.text? (.text s) = some s :=
  rfl

theorem ParameterDeclaration.ofJson?_toJson (d : ParameterDeclaration) :
    ofJson? d.toJson = some d := by
  have hwritten : d.toJson = Json.record (Json.written [("name", some (.text d.name)),
      ("constraint", d.constraint.map fun c => .text c.name),
      ("constraint_types", Json.ifAny Json.text d.constraintTypes)]) := by
    simp only [toJson, Json.member_eq_written, Json.memberIfSome_eq_written,
      Json.memberIfAny_eq_written, Json.written_append, List.cons_append, List.nil_append]
  have hconstraint := Json.withDefault?_map ParameterConstraint.choice?_name rfl d.constraint
  have htypes := Json.withDefault?_ifAny Json.text?_text d.constraintTypes
  rw [ofJson?, hwritten, Json.fields?_record_written (by rfl) (by decide)]
  simp only [List.map_cons, List.map_nil, Option.bind_eq_bind, Option.bind_some,
    hconstraint, htypes]
  rfl

theorem TypeDeclaration.ofJson?_toJson (d : TypeDeclaration) :
    ofJson? d.toJson = some d := by
  have hwritten : d.toJson = Json.record (Json.written [("name", some (.text d.name)),
      ("kind", some (.text d.kind.name)), ("sealed", d.isClosed.map Json.bool),
      ("base", d.base.map Json.text), ("interfaces", Json.ifAny Json.text d.interfaces),
      ("type_parameters", Json.ifAny ParameterDeclaration.toJson d.parameters)]) := by
    simp only [toJson, Json.member_eq_written, Json.memberIfSome_eq_written,
      Json.memberIfAny_eq_written, Json.written_append, List.cons_append, List.nil_append]
  have hclosed := Json.withDefault?_map (fun b => show Json.bool? (.bool b) = some b from rfl)
    rfl d.isClosed
  have hbase := Json.withDefault?_map Json.text?_text rfl d.base
  have hinterfaces := Json.withDefault?_ifAny Json.text?_text d.interfaces
  have hparameters :=
    Json.withDefault?_ifAny ParameterDeclaration.ofJson?_toJson d.parameters
  rw [ofJson?, hwritten, Json.fields?_record_written (by rfl) (by decide)]
  simp only [List.map_cons, List.map_nil, Option.bind_eq_bind, Option.bind_some,
    Json.required?, DeclaredKind.choice?_name, hclosed, hbase, hinterfaces, hparameters]
  rfl

theorem SerializerRegistration.ofJson?_toJson (r : SerializerRegistration) :
    ofJson? r.toJson = some r := by
  have hwritten : r.toJson = Json.record (Json.written
      [("serializer", some (.text r.serializer)),
        ("types", some (Json.ofList Json.text r.types))]) := by
    simp only [toJson, Json.member_eq_written, Json.written_append, List.cons_append,
      List.nil_append]
  have htypes := Json.list?_ofList Json.text?_text r.types
  rw [ofJson?, hwritten, Json.fields?_record_written (by rfl) (by decide)]
  simp only [List.map_cons, List.map_nil, Option.bind_eq_bind, Option.bind_some,
    Json.required?, htypes]
  rfl

theorem ConversionDeclaration.ofJson?_toJson (d : ConversionDeclaration) :
    ofJson? d.toJson = some d := by
  have hwritten : d.toJson = Json.record (Json.written
      [("source", some (.text d.source)), ("destination", some (.text d.destination)),
        ("implicit", some (.bool d.implicit))]) := by
    simp only [toJson, Json.member_eq_written, Json.written_append, List.cons_append,
      List.nil_append]
  rw [ofJson?, hwritten, Json.fields?_record_written (by rfl) (by decide)]
  rfl

/-! ## Manifests -/

namespace Manifest

/-- The field value of overrides: absent if nothing is pinned. -/
def overridesField (o : Overrides) : Option Json :=
  if o.entries.isEmpty then none else some o.toJson

theorem withDefault?_overridesField (o : Overrides) :
    Json.withDefault? Overrides.empty Overrides.ofJson? (overridesField o) = some o := by
  unfold overridesField
  split
  · next hempty =>
      have hself := o.insertAll_entries
      rw [List.isEmpty_iff.mp hempty] at hself
      exact congrArg some hself
  · exact o.ofJson?_toJson

theorem ofJson?_toJson (m : Manifest) : ofJson? m.toJson = some m := by
  have hwritten : m.toJson = Json.record (Json.written
      [("references", some (Json.ofList Reference.toJson m.references)),
        ("types", some (Json.ofList TypeDeclaration.toJson m.types)),
        ("serializers", some (Json.ofList SerializerRegistration.toJson m.serializers)),
        ("conversions", some (Json.ofList ConversionDeclaration.toJson m.conversions)),
        ("overrides", overridesField m.overrides)]) := by
    rw [toJson, overridesField]
    split <;>
      simp only [Json.member_eq_written, Json.written_append, List.cons_append,
        List.nil_append, List.append_nil]
    all_goals rfl
  have hreferences :=
    Json.withDefault?_ofList [] Reference.ofJson?_toJson m.references
  have htypes := Json.withDefault?_ofList [] TypeDeclaration.ofJson?_toJson m.types
  have hserializers :=
    Json.withDefault?_ofList [] SerializerRegistration.ofJson?_toJson m.serializers
  have hconversions :=
    Json.withDefault?_ofList [] ConversionDeclaration.ofJson?_toJson m.conversions
  rw [ofJson?, hwritten, Json.fields?_record_written (by rfl) (by decide)]
  simp only [List.map_cons, List.map_nil, Option.bind_eq_bind, Option.bind_some,
    hreferences, htypes, hserializers, hconversions, withDefault?_overridesField]
  rfl

/-- The text of a manifest denotes that manifest, and so does the text of
whatever manifest is read from any text. -/
theorem ofText?_text :
    (∀ m : Manifest, ofText? m.text = some m) ∧
    ∀ text m, ofText? text = some m → ofText? m.text = some m := by
  have hread : ∀ m : Manifest, ofText? m.text = some m := by
    intro m
    rw [ofText?, text, Json.ofText?_compactText]
    exact m.ofJson?_toJson
  exact ⟨hread, fun _ m _ => hread m⟩

/-- Array form, an escape, `null` for a version and a repeated override are
accepted, and none of them comes back. -/
theorem ofText?_text_array :
    ∃ m, ofText? ("[[[\"a\\u002eb\", null]], [], [], [], " ++
        "\x7b\"core-v2\": \"1.9\", \"core-v2\": \" 2.2-pre\"\x7d]") = some m ∧
      m.text = "\x7b\"references\":[\x7b\"name\":\"a.b\"\x7d],\"types\":[]," ++
        "\"serializers\":[],\"conversions\":[]," ++
        "\"overrides\":\x7b\"core-v2\":\"2.2.0\"\x7d\x7d" ∧
      ofText? m.text = some m := by
  have hcheck : (ofText? ("[[[\"a\\u002eb\", null]], [], [], [], " ++
      "\x7b\"core-v2\": \"1.9\", \"core-v2\": \" 2.2-pre\"\x7d]")).map text =
        some ("\x7b\"references\":[\x7b\"name\":\"a.b\"\x7d],\"types\":[]," ++
          "\"serializers\":[],\"conversions\":[]," ++
          "\"overrides\":\x7b\"core-v2\":\"2.2.0\"\x7d\x7d") := by
    decide +kernel
  obtain ⟨m, hm, htext⟩ := Option.map_eq_some_iff.mp hcheck
  exact ⟨m, hm, htext, ofText?_text.2 _ m hm⟩

end Manifest

end Verdicts
