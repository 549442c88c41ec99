import Verdicts.Manifest.Loading
import Verdicts.Proofs.Correspondence.Declaring
import Verdicts.Proofs.Correspondence.Inquiry

/-!
# Loading a manifest into corresponding programs

What a manifest says of the program itself is loaded in the same way into
corresponding programs: it fails in both for the same reason, or leads to
corresponding programs.
-/

namespace Verdicts

variable {ρ : World}

/-! ## Blocks without foreign handles -/

section

variable {σ α α' β β' γ γ' ε : Type} [HoldsTable σ]
  {P : World → α → α' → Prop} {Q : World → β → β' → Prop}

theorem shields_noneForeign (m : StateM σ α) : Shields noneForeign m :=
  fun s _ => (table s).avoids_noneForeign

namespace AgreeOrFail

variable [Comparable σ]

theorem bind_closed {m : ExceptT ε (StateM σ) α} {n : ExceptT ε (StateM σ) α'}
    {f : α → ExceptT ε (StateM σ) β} {g : α' → ExceptT ε (StateM σ) β'}
    (hm : AgreeOrFail noneForeign ρ m n P)
    (h : ∀ {ρ'}, ρ ≤ ρ' → ∀ {a a'}, P ρ' a a' →
      AgreeOrFail noneForeign ρ' (f a) (g a') Q) :
    AgreeOrFail noneForeign ρ (m >>= f) (n >>= g) Q :=
  hm.bind (fun _ => shields_noneForeign _) (fun _ => shields_noneForeign _) h

/-- Work that succeeds here succeeds there too. -/
theorem exists_ok {m : ExceptT ε (StateM σ) α} {n : ExceptT ε (StateM σ) α'}
    (h : AgreeOrFail noneForeign ρ m n P) {s s' u : σ} {a : α}
    (hs : Comparable.alike noneForeign ρ s u) (hm : m s = (.ok a, s')) :
    ∃ ρ' b u', n u = (.ok b, u') ∧ Comparable.alike noneForeign ρ' s' u' ∧
      P ρ' a b := by
  obtain ⟨ρ', -, hs', hout⟩ :=
    h hs (Table.avoids_noneForeign _) (Table.avoids_noneForeign _)
  rw [show m.run s = _ from hm] at hs' hout
  rcases hn : n u with ⟨e | b, u'⟩
  · rw [show n.run u = _ from hn] at hout
    cases hout
  · rw [show n.run u = _ from hn] at hs' hout
    cases hout with
    | ok hP => exact ⟨ρ', b, u', rfl, hs', hP⟩

variable {R : World → γ → γ' → Prop} {l : List γ} {l' : List γ'}

theorem mapM_closed {f : γ → ExceptT ε (StateM σ) β}
    {g : γ' → ExceptT ε (StateM σ) β'}
    (hR : ∀ {ρ ρ'}, ρ ≤ ρ' → ∀ {c c'}, R ρ c c' → R ρ' c c')
    (hQ : ∀ {ρ ρ'}, ρ ≤ ρ' → ∀ {b b'}, Q ρ b b' → Q ρ' b b')
    (h : ∀ {ρ'}, ρ ≤ ρ' → ∀ {c c'}, R ρ' c c' →
      AgreeOrFail noneForeign ρ' (f c) (g c') Q)
    (hl : List.Forall₂ (R ρ) l l') :
    AgreeOrFail noneForeign ρ (l.mapM f) (l'.mapM g)
      fun ρ' => List.Forall₂ (Q ρ') := by
  induction l generalizing l' ρ with
  | nil =>
      cases hl
      exact .of_pure .nil
  | cons c l ih =>
      cases hl with
      | cons hc hl =>
          rw [List.mapM_cons, List.mapM_cons]
          apply (h (le_refl ρ) hc).bind_closed
          intro ρ' hle b b' hb
          apply (ih (fun hle' => h (le_trans hle hle'))
            (hl.imp fun _ _ => hR hle)).bind_closed
          intro ρ'' hle' bs bs' hbs
          exact .of_pure (.cons (hQ hle' hb) hbs)

theorem forM_closed {f : γ → ExceptT ε (StateM σ) Unit}
    {g : γ' → ExceptT ε (StateM σ) Unit}
    (hR : ∀ {ρ ρ'}, ρ ≤ ρ' → ∀ {c c'}, R ρ c c' → R ρ' c c')
    (h : ∀ {ρ'}, ρ ≤ ρ' → ∀ {c c'}, R ρ' c c' →
      AgreeOrFail noneForeign ρ' (f c) (g c') Same)
    (hl : List.Forall₂ (R ρ) l l') :
    AgreeOrFail noneForeign ρ (l.forM f) (l'.forM g) Same := by
  induction l generalizing l' ρ with
  | nil =>
      cases hl
      exact .of_pure rfl
  | cons c l ih =>
      cases hl with
      | cons hc hl =>
          apply (h (le_refl ρ) hc).bind_closed
          intro ρ' hle _ _ _
          exact ih (fun hle' => h (le_trans hle hle'))
            (hl.imp fun _ _ => hR hle)

end AgreeOrFail

end

/-- One list is in relation with itself when its entries are equal. -/
theorem forall₂_same {γ : Type} (ρ : World) (l : List γ) :
    List.Forall₂ (Same ρ) l l :=
  List.forall₂_same.mpr fun _ _ => rfl

theorem Same.mono {γ : Type} {ρ' : World} (_ : ρ ≤ ρ') {c c' : γ}
    (h : Same ρ c c') : Same ρ' c c' := h

/-! ## Loading -/

theorem Outcomes.mapError {ε ε' α β : Type} {P : α → β → Prop}
    {x : Except ε α} {y : Except ε β} (h : Outcomes P x y) (f : ε → ε') :
    Outcomes P (x.mapError f) (y.mapError f) := by
  cases h with
  | ok h => exact .ok h
  | error e => exact .error (f e)

theorem Loading.agree_naming {α β : Type} {P : World → α → β → Prop}
    {m : Naming α} {n : Naming β} (h : AgreeOrFail noneForeign ρ m n P) :
    AgreeOrFail noneForeign ρ (naming m) (naming n) P := by
  have hrun : Agree noneForeign ρ (Program.onTable m.run)
      (Program.onTable n.run) fun ρ' => Outcomes (P ρ') := Agree.onTable h
  exact hrun.map fun _ _ _ hout => hout.mapError _

theorem Table.agree_mapM_resolveText (texts : List String) :
    AgreeOrFail noneForeign ρ (texts.mapM resolveText)
      (texts.mapM resolveText) fun ρ' => List.Forall₂ ρ' := by
  apply AgreeOrFail.mapM_closed (R := Same) (Q := Linked) Same.mono
    (fun hle _ _ h => hle _ _ h) _ (forall₂_same ρ _)
  rintro ρ' _ text _ rfl
  exact agree_resolveText text

theorem ParameterDeclaration.agree_constraints (d : ParameterDeclaration) :
    AgreeOrFail noneForeign ρ d.constraints d.constraints
      Constraints.Matches := by
  apply (Table.agree_mapM_resolveText d.constraintTypes).bind_closed
  intro ρ' _ as bs hs
  exact .of_pure ⟨rfl, rfl, rfl, hs⟩

namespace TypeDeclaration

theorem agree_resolveParameters (d : TypeDeclaration) :
    AgreeOrFail noneForeign ρ d.resolveParameters d.resolveParameters
      fun ρ' => List.Forall₂ (Table.ParametersMatch ρ') := by
  apply AgreeOrFail.mapM_closed (R := Same) (Q := Table.ParametersMatch)
    Same.mono (fun hle _ _ h => h.mono hle) _ (forall₂_same ρ _)
  rintro ρ' _ p _ rfl
  apply p.agree_constraints.bind_closed
  intro ρ'' _ c c' hc
  exact .of_pure ⟨rfl, hc⟩

theorem declaration_matches (d : TypeDeclaration) {base base' : Option Handle}
    {ps qs : List (String × Constraints)} (hb : Option.Rel ρ base base')
    (hps : List.Forall₂ (Table.ParametersMatch ρ) ps qs) :
    (d.declaration base ps).Matches ρ (d.declaration base' qs) :=
  ⟨rfl, rfl, rfl, rfl, hb, .nil, hps⟩

theorem agree_declare (d : TypeDeclaration) :
    AgreeOrFail noneForeign ρ d.declare d.declare Linked := by
  apply AgreeOrFail.get_bind
  intro p q m
  have mt := Program.Matches.table m
  dsimp only
  obtain ⟨_, _, hn, hn', -⟩ | ⟨hn, hn'⟩ :=
    World.rel_cases (mt.named d.storedName)
  · rw [hn, hn', Option.isSome_some, Option.isSome_some, if_pos rfl]
    exact .of_throw _
  · rw [hn, hn', Option.isSome_none, if_neg Bool.false_ne_true]
    have hbase : Option.Rel ρ (d.kind.impliedBase?.bind p.table.builtIn?)
        (d.kind.impliedBase?.bind q.table.builtIn?) := by
      cases d.kind.impliedBase? with
      | none => exact .none
      | some b => exact mt.builtIn b
    apply (Loading.agree_naming d.agree_resolveParameters).bind_closed
    intro ρ' hle ps qs hps
    exact .lift (Table.agree_declare
      (d.declaration_matches (World.rel_mono hle hbase) hps)).onTable

section

variable {scope scope' : Scope} {a b : Handle}

theorem agree_connectBase (d : TypeDeclaration)
    (hs : ScopesMatch ρ scope scope') (h : ρ a b) :
    AgreeOrFail noneForeign ρ (d.connectBase scope a) (d.connectBase scope' b)
      Same := by
  rw [connectBase, connectBase]
  cases d.base with
  | none => exact .of_pure rfl
  | some base =>
      apply (Table.agree_resolveTextIn hs base).bind_closed
      intro ρ' hle _ _ hbase
      exact .lift (Table.agree_setBase (hle _ _ h) hbase)

theorem agree_connectInterfaces (d : TypeDeclaration)
    (hs : ScopesMatch ρ scope scope') (h : ρ a b) :
    AgreeOrFail noneForeign ρ (d.connectInterfaces scope a)
      (d.connectInterfaces scope' b) Same := by
  apply AgreeOrFail.forM_closed (R := Same) Same.mono _ (forall₂_same ρ _)
  rintro ρ' hle text _ rfl
  apply (Table.agree_resolveTextIn (hs.mono hle) text).bind_closed
  intro ρ'' hle' _ _ hi
  exact .lift (Table.agree_addInterface (hle' _ _ (hle _ _ h)) hi)

theorem agree_connect (d : TypeDeclaration) (h : ρ a b) :
    AgreeOrFail noneForeign ρ (d.connect a) (d.connect b) Same := by
  apply Loading.agree_naming
  apply AgreeOrFail.get_bind
  intro t u m
  have hs : ScopesMatch ρ (d.scope t a) (d.scope u b) :=
    World.forall₂_zip _ (Table.Matches.arguments m h)
  apply (d.agree_connectBase hs h).bind_closed
  intro ρ' hle _ _ _
  exact d.agree_connectInterfaces (hs.mono hle) (hle _ _ h)

end

end TypeDeclaration

theorem ConversionDeclaration.agree_load (d : ConversionDeclaration) :
    AgreeOrFail noneForeign ρ d.load d.load Same := by
  apply Loading.agree_naming
  apply (Table.agree_resolveText d.source).bind_closed
  intro ρ' hle a b hab
  apply (Table.agree_resolveText d.destination).bind_closed
  intro ρ'' hle' a' b' hab'
  exact .lift (Table.agree_addConversion (hle' _ _ hab) hab' d.implicit)

theorem Program.agree_registerSerializer {a b : Handle} {as bs : List Handle}
    (h : ρ a b) (hs : List.Forall₂ ρ as bs) :
    Agree noneForeign ρ (registerSerializer a as) (registerSerializer b bs)
      Same := by
  apply Agree.get_bind
  intro p q m
  obtain ⟨c, d, hn, hn', hcd⟩ | ⟨hn, hn'⟩ :=
    World.rel_cases ((Program.Matches.table m).named registrationName)
  · simp only [hn, hn']
    have hattribute : Attribute.Matches ρ ⟨c, a :: as⟩ ⟨d, b :: bs⟩ :=
      ⟨hcd, .cons h hs⟩
    intro p q m _ _
    obtain ⟨htable, hattributes, hactive, hl, hr⟩ := m
    exact ⟨ρ, le_refl ρ, ⟨htable,
      List.rel_append hattributes (.cons hattribute .nil), hactive, hl, hr⟩,
      rfl⟩
  · simp only [hn, hn']
    exact .of_pure rfl

theorem SerializerRegistration.agree_load (r : SerializerRegistration) :
    AgreeOrFail noneForeign ρ r.load r.load Same := by
  apply (Loading.agree_naming (Table.agree_resolveText r.serializer)).bind_closed
  intro ρ' hle a b hab
  have htypes : AgreeOrFail noneForeign ρ' (r.types.mapM Table.resolveText)
      (r.types.mapM Table.resolveText) fun ρ' => List.Forall₂ ρ' :=
    Table.agree_mapM_resolveText r.types
  apply (Loading.agree_naming htypes).bind_closed
  intro ρ'' hle' as bs hs
  apply (AgreeOrFail.lift (Program.agree_registerSerializer (hle' _ _ hab)
    hs)).bind_closed
  rintro ρ₃ _ registered _ rfl
  cases registered with
  | true => exact .of_pure rfl
  | false => exact .of_throw _

namespace Manifest

theorem agree_loadTypes (m : Manifest) :
    AgreeOrFail noneForeign ρ m.loadTypes m.loadTypes Same := by
  have hdeclare : AgreeOrFail noneForeign ρ
      (m.types.mapM TypeDeclaration.declare)
      (m.types.mapM TypeDeclaration.declare) fun ρ' => List.Forall₂ ρ' := by
    apply AgreeOrFail.mapM_closed (R := Same) (Q := Linked) Same.mono
      (fun hle _ _ h => hle _ _ h) _ (forall₂_same ρ _)
    rintro ρ' _ d _ rfl
    exact d.agree_declare
  apply hdeclare.bind_closed
  intro ρ' _ as bs hs
  let R : World → TypeDeclaration × Handle → TypeDeclaration × Handle → Prop :=
    fun ρ x y => x.1 = y.1 ∧ ρ x.2 y.2
  apply AgreeOrFail.forM_closed (R := R) (fun hle _ _ h => ⟨h.1, hle _ _ h.2⟩) _
    (World.forall₂_zip m.types hs)
  rintro ρ'' _ ⟨d, a⟩ ⟨_, b⟩ ⟨rfl, hab⟩
  exact d.agree_connect hab

theorem agree_loadRest (m : Manifest) :
    AgreeOrFail noneForeign ρ (do
      m.conversions.forM ConversionDeclaration.load
      m.serializers.forM SerializerRegistration.load : Loading Unit) (do
      m.conversions.forM ConversionDeclaration.load
      m.serializers.forM SerializerRegistration.load) Same := by
  have hconversions : AgreeOrFail noneForeign ρ
      (m.conversions.forM ConversionDeclaration.load)
      (m.conversions.forM ConversionDeclaration.load) Same := by
    apply AgreeOrFail.forM_closed (R := Same) Same.mono _ (forall₂_same ρ _)
    rintro ρ' _ d _ rfl
    exact d.agree_load
  apply hconversions.bind_closed
  intro ρ' _ _ _ _
  apply AgreeOrFail.forM_closed (R := Same) Same.mono _ (forall₂_same ρ' _)
  rintro ρ'' _ r _ rfl
  exact r.agree_load

/-- What a manifest says of the program itself is loaded alike. -/
theorem agree_loadContents (m : Manifest) :
    AgreeOrFail noneForeign ρ m.loadContents m.loadContents Same :=
  m.agree_loadTypes.bind_closed fun _ _ _ _ => m.agree_loadRest

end Manifest

end Verdicts
