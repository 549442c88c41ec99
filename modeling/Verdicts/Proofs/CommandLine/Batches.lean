import Verdicts.Proofs.CommandLine.Precedence
import Verdicts.Proofs.Judgement.Classification
import Verdicts.Proofs.Judgement.Registration

/-!
# Classifying many types at once

A command that classifies many types loads the program once.  Each type is named
in the table as the types before have left it, and judged with the look-ups that
they have kept.  Its entry is nevertheless the one that it has on its own: a
consultation changes neither what the program says about serialization nor what
an expression names, up to the handles under which types are stored.
-/

namespace Verdicts

variable {foreign : Handle → Prop}

namespace Inquiry

variable {q q' : Inquiry} {c : Classifier} {a : Handle} {name : String}

/-! ## What a consultation leaves as it is -/

/-- What the program has become may be asked with the answers kept at first. -/
theorem Consulted.about (h : q.Consulted q') : q.Consulted (q.about q'.program) := by
  have hnamed : q'.program.table.named? = q.program.table.named? :=
    funext h.table.named?_eq
  refine ⟨h.table, h.references, h.attributes, h.wiring, rfl, fun s => ?_, fun f w => ?_⟩
  · rw [systemHandle?, systemHandle?, Inquiry.about, hnamed]
  · rw [familyHandle?, familyHandle?, Inquiry.about, hnamed]

theorem Consulted.of_about (h : q.Consulted q') : (q.about q'.program).Consulted q' where
  table := .refl _
  references := rfl
  attributes := rfl
  wiring := rfl
  active := h.active
  system s := (h.system s).trans (h.about.system s).symm
  family f w := (h.family f w).trans (h.about.family f w).symm

theorem Consulted.frameworkHandle?_eq (h : q.Consulted q') (w : FrameworkType) :
    q'.frameworkHandle? w = q.frameworkHandle? w := by
  simp only [frameworkHandle?, h.family]

namespace Heard

theorem trans {q'' : Inquiry} (h : q.Heard foreign q') (h' : q'.Heard foreign q'') :
    q.Heard foreign q'' :=
  ⟨h.consulted.trans h'.consulted, h'.sound⟩

theorem about (h : q.Heard foreign q') : q.Heard foreign (q.about q'.program) :=
  ⟨h.consulted.about, h.sound⟩

theorem of_about (h : q.Heard foreign q') : (q.about q'.program).Heard foreign q' :=
  ⟨h.consulted.of_about, h.sound⟩

section

variable (hq : q.Proper foreign) (h : q.Heard foreign q')
include hq h

theorem proper : q'.Proper foreign where
  sound := h.sound
  unwired := h.consulted.wiring.trans hq.unwired
  attributes a ha x hx := by
    rw [h.consulted.attributes] at ha
    exact h.consulted.table.admits (hq.attributes a ha x hx)
  framework hx := by
    rw [h.consulted.frameworkHandle?_eq] at hx
    exact h.consulted.table.admits (hq.framework hx)

theorem registers_iff : q'.Registers a ↔ q.Registers a := by
  simp only [Registers, h.consulted.frameworkHandle?_eq, h.consulted.attributes]
  refine exists_congr fun registration => and_congr_right fun hr => ?_
  refine exists_congr fun source => and_congr_right fun hsource => ?_
  rw [h.consulted.table.assigns_iff hq.sound h.sound
    (hq.attributes source hsource _ (List.mem_cons_self ..)) (hq.framework hr)]

theorem gathers (hc : q.Gathers c) : q'.Gathers c where
  markers := by
    rw [hc.markers, Inquiry.markers, Inquiry.markers,
      funext h.consulted.frameworkHandle?_eq]
  registered x := by rw [hc.registered, h.registers_iff hq]

theorem program_matches :
    q.program.Matches foreign (q.program.table.itself foreign) q'.program :=
  Program.matches_of_growsTo h.consulted.table hq.sound.wellFormed h.sound.wellFormed
    h.sound.avoids hq.unwired hq.attributes
    ⟨h.consulted.references, h.consulted.attributes, h.consulted.wiring⟩

theorem ignores_eq (ha : q.program.table.Admits foreign a) :
    q'.program.ignores a = q.program.ignores a :=
  ((h.program_matches hq).ignores_eq (Table.itself_self ha)).symm

end

end Heard

/-! ## The entry of a type on its own -/

/-- Report how a type serializes, by a classifier gathered for the occasion. -/
def reportFresh (name : String) : Running ClassificationEntry := do
  let h ← argumentType .subject name
  let tier ← (do classify (← classifier) h : StateM Inquiry Tier)
  return ⟨name, tier, (← get).program.ignores h⟩

theorem agree_reportFresh {ρ : World} (name : String) :
    AgreeOrFail noneForeign ρ (reportFresh name) (reportFresh name) Same := by
  apply (agree_argumentType .subject name).bind_closed
  intro ρ₁ _ a b hab
  have htier : Agree noneForeign ρ₁ (do classify (← classifier) a : StateM Inquiry Tier)
      (do classify (← classifier) b) Same := by
    apply agree_classifier.bind
    · exact fun c => (interns_classify c a).shields
    · exact fun c => (interns_classify c b).shields
    · exact fun hle _ _ hcd => agree_classify hcd (hle _ _ hab)
  apply (AgreeOrFail.lift htier).bind_closed
  rintro ρ₂ hle tier _ rfl
  apply AgreeOrFail.get_bind
  intro p p' m
  refine .of_pure ?_
  rw [Same, (Inquiry.Matches.program m).ignores_eq (hle _ _ hab)]

theorem argumentType_apply (role : TypeRole) (text : String) (q : Inquiry) :
    argumentType role text q =
      ((Table.resolveText text q.program.table).1.mapError (.naming role text),
        q.about { q.program with table := (Table.resolveText text q.program.table).2 }) :=
  rfl

/-- An expression that names a type in the inquiry does so in one that has been
consulted. -/
theorem heard_argumentType (role : TypeRole) (text : String)
    (h : q.Heard noneForeign q') :
    q.Heard noneForeign (argumentType role text q').2 := by
  have hinterns := Table.interns_resolveText text
  have hconsults : Consults
      (liftM (Program.onTable (Table.resolveText text).run) :
        StateM Inquiry (Except NamingError Handle)) := .onTable hinterns
  exact ⟨h.consulted.trans (hconsults q'),
    h.sound.of_agree hinterns (Table.avoids_noneForeign _) (Table.agree_resolveText text)⟩

theorem admits_of_argumentType {role : TypeRole} {text : String} {r : Inquiry}
    (h : argumentType role text q = (.ok a, r)) :
    r.program.table.Admits noneForeign a := by
  rw [argumentType_apply] at h
  rcases hrun : Table.resolveText text q.program.table with ⟨e | b, t⟩
  · rw [hrun] at h
    cases h
  · rw [hrun] at h
    cases h
    exact .inl (Table.knows_resolveTextIn (fun _ hp => absurd hp List.not_mem_nil) hrun)

/-- A classifier of before gives the entry that a new one gives. -/
theorem Proper.reportType_eq (hq : q.Proper noneForeign) (hc : q.Gathers c)
    (h : q.Heard noneForeign q') (name : String) :
    (reportType c name q').1 = (reportFresh name (q.about q'.program)).1 ∧
      q.Heard noneForeign (reportType c name q').2 := by
  have hheard := heard_argumentType .subject name h
  -- Naming does not look at the answers kept, so both find one handle.
  have hsame : argumentType .subject name (q.about q'.program) =
      ((argumentType .subject name q').1,
        q.about (argumentType .subject name q').2.program) := rfl
  rcases hrun : argumentType .subject name q' with ⟨e | a, r⟩
  · rw [hrun] at hheard hsame
    rw [reportType, reportFresh, bind_apply_error hrun, bind_apply_error hsame]
    exact ⟨rfl, hheard⟩
  · rw [hrun] at hheard hsame
    have hadmits := admits_of_argumentType hrun
    have hproper := hheard.about.proper hq
    have hgathers := hheard.about.gathers hq hc
    obtain ⟨hlast, hranks⟩ := hproper.judges_classify hgathers hadmits r
      hheard.of_about (Table.avoids_noneForeign _)
    obtain ⟨hlast', hranks'⟩ := hproper.judges_tier hadmits _
      ⟨.refl _, hproper.sound⟩ (Table.avoids_noneForeign _)
    have htier := hranks.unique rfl rfl (fun _ _ _ => Iff.rfl) hranks'
    have hignored := (hlast.ignores_eq hproper hadmits).trans
      (hlast'.ignores_eq hproper hadmits).symm
    rw [reportType, reportFresh, bind_apply_ok hrun, bind_apply_ok hsame]
    refine ⟨?_, hheard.about.trans hlast⟩
    change Except.ok (ClassificationEntry.mk name (classify c a r).1
      ((classify c a r).2.program.ignores a)) = _
    rw [hignored, ← htier]
    rfl

end Inquiry

/-! ## One inquiry for all types -/

namespace Inquiry.Judges

variable {q : Inquiry} {α β : Type}

/-- Work that may fail goes on with the answer, unless it has failed. -/
theorem bind_run {m : Running α} {f : α → Running β} {x : Except RunError α}
    {g : α → Except RunError β} (hm : Judges noneForeign q m.run (· = x))
    (hf : ∀ a, Judges noneForeign q (f a).run (· = g a)) :
    Judges noneForeign q (m >>= f).run (· = x >>= g) := by
  intro q' hq' _
  obtain ⟨hq₁, hx⟩ := hm q' hq' (Table.avoids_noneForeign _)
  change q.Heard noneForeign (ExceptT.bindCont f (m.run q').1 (m.run q').2).2 ∧
    (ExceptT.bindCont f (m.run q').1 (m.run q').2).1 = _
  rw [hx]
  cases x with
  | error e => exact ⟨hq₁, rfl⟩
  | ok a => exact hf a _ hq₁ (Table.avoids_noneForeign _)

/-- Steps whose answers do not depend on the consultations before go on until the
first failure. -/
theorem mapM_run {f : α → Running β} {g : α → Except RunError β}
    (hf : ∀ a, Judges noneForeign q (f a).run (· = g a)) (l : List α) :
    Judges noneForeign q (l.mapM f).run (· = l.mapM g) := by
  induction l with
  | nil => exact .of_pure rfl
  | cons a l ih =>
      rw [List.mapM_cons, List.mapM_cons]
      exact (hf a).bind_run fun b => ih.bind_run fun bs => .of_pure rfl

end Inquiry.Judges

namespace Study

open Inquiry

variable {s : Study} {c : Classifier} (hs : s.Proper noneForeign)
include hs

/-- The entry of a type does not depend on the consultations before: they have
let the table grow, which moves handles and nothing else. -/
theorem Proper.judges_reportType (hc : s.inquiry.Gathers c) (name : String) :
    Judges noneForeign s.inquiry (reportType c name).run
      (· = (reportFresh name s.inquiry).1) := by
  intro q hq _
  have hproper := hs.inquiry (Table.avoids_noneForeign _)
  obtain ⟨hentry, hheard⟩ := hproper.reportType_eq hc hq name
  refine ⟨hheard, hentry.trans ?_⟩
  have hmatches : s.inquiry.Matches noneForeign (s.program.table.itself noneForeign)
      (s.inquiry.about q.program) := ⟨hq.program_matches hproper, rfl, .nil, .nil⟩
  obtain ⟨_, -, -, hout⟩ := agree_reportFresh name hmatches
    (Table.avoids_noneForeign _) (Table.avoids_noneForeign _)
  exact (Outcomes.eq hout).symm

/-- Each type has the entry that it has on its own. -/
theorem Proper.reportTypes_eq (names : List String) :
    (reportTypes names s.inquiry).1 =
      names.mapM fun name => (reportFresh name s.inquiry).1 := by
  have hproper := hs.inquiry (Table.avoids_noneForeign _)
  obtain ⟨hheard, hgathers⟩ := hproper.judges_classifier s.inquiry
    ⟨.refl _, hproper.sound⟩ (Table.avoids_noneForeign _)
  exact (Judges.mapM_run (hs.judges_reportType hgathers) names _ hheard
    (Table.avoids_noneForeign _)).2

end Study

/-! ## Runs -/

/-- The handles of a loaded program are those of its table. -/
theorem Study.proper_of_load {m : Manifest} {p : Program} (hm : m.load = .ok p)
    (overrides : Overrides) : Study.Proper noneForeign ⟨p, overrides⟩ := by
  obtain ⟨ρ, hmatches⟩ := Manifest.matches_of_load hm
  refine ⟨hmatches.table.left, hmatches.unwiredLeft, fun a ha => ?_⟩
  obtain ⟨b, -, hab⟩ := exists_of_forall₂ hmatches.attributes ha
  exact List.forall_mem_cons.mpr ⟨hmatches.table.admitsLeft hab.attributeClass,
    hmatches.table.admitsLeft_all hab.arguments⟩

theorem ProgramSource.exists_study_of_load {source : ProgramSource}
    {contents? : String → Option ByteArray} {q : Inquiry}
    (h : source.load contents? = .ok q) :
    ∃ s : Study, s.Proper noneForeign ∧ q = s.inquiry := by
  cases hread : source.readManifest contents? with
  | error e =>
      rw [load, hread] at h
      cases h
  | ok m =>
      rw [load_of_read hread] at h
      cases hload : (source.amend m).load with
      | error e =>
          rw [hload] at h
          cases h
      | ok p =>
          rw [hload] at h
          cases h
          exact ⟨⟨p, (source.amend m).overrides⟩, Study.proper_of_load hload _, rfl⟩

section

variable {α β γ ε : Type} {f : α → Except ε β} {a : α} {e : ε}

/-- Steps that may fail succeed together when each does, with their answers in
order. -/
theorem mapM_eq_ok {as : List α} {bs : List β}
    (h : List.Forall₂ (fun a b => f a = .ok b) as bs) : as.mapM f = .ok bs := by
  induction h with
  | nil => rfl
  | cons hab _ ih =>
      rw [List.mapM_cons, hab, ih]
      rfl

/-- They fail as the first one that does. -/
theorem mapM_eq_error {before : List α} (hbefore : ∀ b ∈ before, ∃ c, f b = .ok c)
    (h : f a = .error e) (after : List α) :
    (before ++ a :: after).mapM f = .error e := by
  induction before with
  | nil =>
      rw [List.nil_append, List.mapM_cons, h]
      rfl
  | cons b before ih =>
      rw [List.forall_mem_cons] at hbefore
      obtain ⟨⟨c, hc⟩, hbefore⟩ := hbefore
      rw [List.cons_append, List.mapM_cons, hc, ih hbefore]
      rfl

theorem mapM_map (f : α → Except ε β) (g : β → γ) (as : List α) :
    (as.mapM fun a => (f a).map g) = (as.mapM f).map (List.map g) := by
  induction as with
  | nil => rfl
  | cons a as ih =>
      rw [List.mapM_cons, List.mapM_cons, ih]
      cases f a with
      | error e => rfl
      | ok b => cases as.mapM f <;> rfl

end

namespace Invocation

/-- The command that classifies the types. -/
def classifying (i : Invocation) (names : List String) : Invocation :=
  { i with request := .classify names }

variable {i : Invocation} {contents? : String → Option ByteArray} {color : Bool}
  {q : Inquiry}

theorem run_classifying (hload : i.source.load contents? = .ok q)
    (hformat : i.format = .text) (names : List String) :
    (i.classifying names).run contents? color =
      (Inquiry.reportTypes names q).1.map fun entries =>
        String.join (entries.map (·.text (color && !i.noColor))) := by
  have hanswer : ((Inquiry.answer (.classify names)).run q).1 =
      (Inquiry.reportTypes names q).1.map .classification := by
    rw [ExceptT.run, Inquiry.answer, bind_apply_except]
    rcases Inquiry.reportTypes names q with ⟨e | entries, r⟩ <;> rfl
  have hrun : (i.classifying names).run contents? color =
      i.source.load contents? >>= fun q =>
        ((Inquiry.answer (.classify names)).run q).1 >>= fun report =>
          pure (report.render i.format (color && !i.noColor)) := rfl
  rw [hrun, hload, hformat]
  change ((Inquiry.answer (.classify names)).run q).1 >>= _ = _
  rw [hanswer]
  cases (Inquiry.reportTypes names q).1 <;> rfl

/-- The report on many types joins the reports on each of them. -/
theorem run_classifying_eq (hload : i.source.load contents? = .ok q)
    (hformat : i.format = .text) (names : List String) :
    (i.classifying names).run contents? color =
      (names.mapM fun name => (i.classifying [name]).run contents? color).map
        String.join := by
  obtain ⟨s, hs, rfl⟩ := ProgramSource.exists_study_of_load hload
  have hsingle : ∀ name, (i.classifying [name]).run contents? color =
      (Inquiry.reportFresh name s.inquiry).1.map (·.text (color && !i.noColor)) := by
    intro name
    rw [run_classifying hload hformat, hs.reportTypes_eq, List.mapM_cons, List.mapM_nil]
    cases (Inquiry.reportFresh name s.inquiry).1 with
    | error e => rfl
    | ok entry => simp [Except.map, bind, Except.bind, pure, Except.pure]
  rw [run_classifying hload hformat, hs.reportTypes_eq]
  simp only [hsingle]
  rw [mapM_map]
  cases names.mapM fun name => (Inquiry.reportFresh name s.inquiry).1 <;> rfl

/-- Classifying types at once prints what classifying them one by one prints, in
their order, if each is accepted on its own, and otherwise fails with the error of
the first one that is not. -/
theorem run_classifying_batch (hload : i.source.load contents? = .ok q)
    (hformat : i.format = .text) (names : List String) :
    (∀ outs, List.Forall₂
          (fun name out => (i.classifying [name]).run contents? color = .ok out)
          names outs →
        (i.classifying names).run contents? color = .ok (String.join outs)) ∧
      ∀ before name after e, names = before ++ name :: after →
        (∀ b ∈ before, ∃ out, (i.classifying [b]).run contents? color = .ok out) →
        (i.classifying [name]).run contents? color = .error e →
        (i.classifying names).run contents? color = .error e := by
  rw [run_classifying_eq hload hformat names]
  constructor
  · intro outs houts
    rw [mapM_eq_ok houts]
    rfl
  · rintro before name after e rfl hbefore hname
    rw [mapM_eq_error hbefore hname]
    rfl

/-- A command about a program without manifest and references. -/
def plainInvocation : Invocation where
  request := .capabilities
  source := ⟨none, [], []⟩
  format := .text
  logFormat := none
  noColor := true

theorem load_plainInvocation :
    ∃ q, plainInvocation.source.load (fun _ => none) = .ok q := by
  have hread : plainInvocation.source.readManifest (fun _ => none) =
      .ok Manifest.empty := rfl
  have hload := (plainInvocation.source.amend Manifest.empty).load_of_nil rfl rfl rfl
  exact ⟨_, by rw [ProgramSource.load_of_read hread, hload]; rfl⟩

/-- Two types are classified together, and a third one that has no name spoils the
run. -/
theorem run_classifying_batch_arrays :
    let run names := (plainInvocation.classifying names).run (fun _ => none) true
    let e := RunError.naming .subject "Missing" (.unknownType "Missing")
    run ["int[]"] = .ok "int[]: always\n" ∧ run ["object"] = .ok "object: possibly\n" ∧
      run ["Missing"] = .error e ∧
      run ["int[]", "object"] = .ok "int[]: always\nobject: possibly\n" ∧
      run ["int[]", "Missing", "object"] = .error e := by
  intro run e
  have hsingle : run ["int[]"] = .ok "int[]: always\n" ∧
      run ["object"] = .ok "object: possibly\n" ∧ run ["Missing"] = .error e := by
    decide +kernel
  obtain ⟨hints, hobject, hmissing⟩ := hsingle
  obtain ⟨q, hload⟩ := load_plainInvocation
  refine ⟨hints, hobject, hmissing, ?_, ?_⟩
  · exact (run_classifying_batch hload rfl _).1 _ (.cons hints (.cons hobject .nil))
  · refine (run_classifying_batch hload rfl _).2 ["int[]"] "Missing" ["object"] e rfl
      (fun b hb => ?_) hmissing
    rw [List.mem_singleton.mp hb]
    exact ⟨_, hints⟩

end Invocation

end Verdicts
