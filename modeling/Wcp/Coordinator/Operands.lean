import Wcp.Base.Exceptions
import Wcp.Coordinator.Readability
import Wcp.Coordinator.RpcDispatch
/-!
# What the operands of a method must be

The methods apply operations to members of untrusted parameters.  Only some of the
exceptions an operation raises are in the taxonomy that the dispatcher knows
(`Mapped`).  For the parts of the methods that read and compute, this module gives
the shapes of values under which nothing else is raised, in the order in which the
values are come to.
-/

namespace Wcp.Coordinator

open Wcp.Base
open Wcp.Base.Exec (ensure)

/-- The exceptions that the dispatcher turns into errors of the protocol. -/
def Mapped : Err → Prop
  | .raised (.taskNotFound _) => True
  | .raised (.taskPreempted _) => True
  | .raised (.taskStateInvalid _) => True
  | .raised (.jsonRpc _ _) => True
  | .valueError _ => True
  | _ => False

theorem mapException_iff {e : Err} :
    (∃ code message, mapException e = .raised (.jsonRpc code message)) ↔ Mapped e := by
  cases e with
  | raised x => cases x <;> simp [mapException, Mapped]
  | valueError message =>
      refine iff_of_true ?_ trivial
      simp only [mapException, mapValueError]
      split
      · exact ⟨_, _, rfl⟩
      · exact ⟨_, _, rfl⟩
  | _ => simp [mapException, Mapped]

theorem foreseen_mapped : Json.Foreseen Mapped := ⟨not_false, not_false⟩

variable {env : Env} {β : Type}

/-! ## One operation -/

section Operations

theorem mapped_parseIso (v : Json) : RaisesOnly Mapped (parseIso env v) ↔ v.isText = true := by
  rcases parseIso_cases env v with ⟨text, d, rfl, h⟩ | ⟨text, message, rfl, h⟩ | ⟨hne, h⟩
  · simp [h, Json.isText]
  · simp [h, Json.isText, Mapped]
  · rw [h, raisesOnly_error, Json.isText_iff]
    exact iff_of_false not_false (not_exists.2 hne)

theorem resolve_error {s : String} {e : Err} (h : resolve env (.str s) = .error e) :
    ∃ message, e = .raised (.didResolution message) := by
  unfold resolve at h
  simp only [Json.asStr, bind, Except.bind] at h
  split at h
  · exact ⟨_, (Except.error.inj h).symm⟩
  · split at h
    · split at h
      · exact ⟨_, (Except.error.inj h).symm⟩
      · split at h
        · exact ⟨_, (Except.error.inj h).symm⟩
        · split at h
          · exact ⟨_, (Except.error.inj h).symm⟩
          · cases h
    · exact ⟨_, (Except.error.inj h).symm⟩

theorem mapped_resolveOrRefuse (label : String) (did : Json) :
    RaisesOnly Mapped (resolveOrRefuse env label did) ↔ did.isText = true := by
  cases did with
  | str s =>
      refine iff_of_true ?_ rfl
      unfold resolveOrRefuse
      cases h : resolve env (.str s) with
      | ok r => exact raisesOnly_ok r
      | error e =>
          obtain ⟨message, rfl⟩ := resolve_error h
          exact raisesOnly_error.2 trivial
  | _ => exact iff_of_false (fun h => h .attributeError rfl) nofun

theorem verify_error {resolved : ResolvedDID} {body s : String} {e : Err}
    (h : verify env resolved body (.str s) = .error e) :
    ∃ message, e = .raised (.signatureVerification message) := by
  unfold verify at h
  simp only [Json.asStr, bind, Except.bind] at h
  split at h
  · exact ⟨_, (Except.error.inj h).symm⟩
  · split at h
    · exact ⟨_, (Except.error.inj h).symm⟩
    · split at h
      · cases h
      · exact ⟨_, (Except.error.inj h).symm⟩

theorem mapped_comparedText (v : Json) :
    RaisesOnly Mapped (env.comparedText v) ↔ (env.bindNullable v).isSome = true := by
  rw [Driver.comparedText, Driver.bindNullable]
  by_cases hnull : v = .null
  · simp [hnull]
  · rw [if_neg hnull, if_neg hnull]
    cases env.bindText v with
    | some s => simp
    | none =>
        refine iff_of_false (fun h => ?_) (by simp)
        have hraised := h _ rfl
        split at hraised <;> exact hraised

/-- A value under which a row is looked up: it is, or holds as the one value of the key attribute
or of a list, a value that the driver binds. -/
def KeyOperand (env : Env) (attr : String) (v : Json) : Prop :=
  ∃ key, primaryKey attr v = .ok key ∧ (env.bindNullable key).isSome = true

theorem primaryKey_error {attr : String} {v : Json} {e : Err} (h : primaryKey attr v = .error e) :
    e = .raised .statement := by
  unfold primaryKey at h
  split at h
  · split at h <;> cases h
    rfl
  all_goals cases h <;> rfl

theorem mapped_lookupKey (attr : String) (v : Json) :
    RaisesOnly Mapped (env.lookupKey attr v) ↔ KeyOperand env attr v := by
  rw [Driver.lookupKey, KeyOperand]
  cases hkey : primaryKey attr v with
  | error e =>
      obtain rfl := primaryKey_error hkey
      exact iff_of_false (fun h => h _ rfl) (by simp)
  | ok key =>
      simp only [Except.ok.injEq, exists_eq_left']
      show RaisesOnly Mapped (ensure (key.hashable = true) .typeError >>= fun _ =>
        env.comparedText key) ↔ _
      cases hhash : key.hashable with
      | true => exact mapped_comparedText key
      | false =>
          refine iff_of_false (fun h => h .typeError rfl) fun h => ?_
          obtain ⟨t, ht⟩ := Option.isSome_iff_exists.1 h
          cases hhash.symm.trans (hashable_of_bindNullable ht)

theorem mapped_toInt (v : Json) :
    RaisesOnly Mapped (v.toInt env.unicode) ↔ v.convertible = true := by
  cases v with
  | float f =>
      rw [Json.toInt, Json.convertible]
      cases f.value <;> simp [Mapped]
  | str s =>
      rw [Json.toInt]
      cases env.unicode.intOfText s.toList <;> simp [Mapped, Json.convertible]
  | _ => simp [Json.toInt, Json.convertible, Mapped]

end Operations

/-! ## tasks/post -/

/-- The kinds of one entry of an evidence schema, up to the first that is not registered. -/
def KindsOperands (allowed : List String) (kinds : List Json) : Prop :=
  InTurn (fun k => k.hashable = true) (fun k => k ∈ allowed.map Json.str) kinds

/-- The kinds registered for a mode that may be any value. -/
def kindsFor (env : Env) (mode : Json) : List String :=
  match mode with
  | .str s => env.kindsOf s
  | _ => []

/-- The kinds that an entry of an evidence schema lists. -/
def entryKinds (entry : Json) : List Json := ((entry.member "kinds").or (.arr [])).elements

/-- One entry of an evidence schema. -/
def EntryOperands (env : Env) (entry : Json) : Prop :=
  entry.isObject = true ∧ (entry.member "mode").hashable = true ∧
    ((entry.member "kinds").or (.arr [])).searchable = true ∧
    KindsOperands (kindsFor env (entry.member "mode")) (entryKinds entry)

/-- The kinds of an entry are all registered for its mode. -/
def EntryRegistered (env : Env) (entry : Json) : Prop :=
  ∀ k ∈ entryKinds entry, k ∈ (kindsFor env (entry.member "mode")).map Json.str

theorem mapped_validateKinds (mode : Json) (allowed : List String) (kinds : List Json) :
    RaisesOnly Mapped (validateKinds env mode allowed kinds) ↔ KindsOperands allowed kinds := by
  induction kinds with
  | nil => exact iff_of_true (raisesOnly_ok ()) trivial
  | cons k ks ih =>
      rw [validateKinds, KindsOperands, InTurn]
      by_cases hhash : k.hashable = false
      · simp [hhash, Mapped]
      · rw [if_neg hhash, and_iff_right (by simpa using hhash)]
        by_cases hmem : k ∈ allowed.map Json.str
        · rw [if_pos hmem, imp_iff_right hmem]
          exact ih
        · rw [if_neg hmem]
          exact iff_of_true (raisesOnly_error.2 trivial) fun h => absurd h hmem

theorem validateKinds_eq_ok {mode : Json} {allowed : List String} {kinds : List Json} :
    validateKinds env mode allowed kinds = .ok () ↔ ∀ k ∈ kinds, k ∈ allowed.map Json.str := by
  induction kinds with
  | nil => simp [validateKinds]
  | cons k ks ih =>
      rw [validateKinds, List.forall_mem_cons, ← ih]
      by_cases hmem : k ∈ allowed.map Json.str
      · have hhash : ¬ k.hashable = false := by
          obtain ⟨s, -, rfl⟩ := List.mem_map.1 hmem
          simp [Json.hashable]
        rw [if_neg hhash, if_pos hmem, and_iff_right hmem]
      · simp [hmem]
        split <;> simp

theorem mapped_registeredKinds_bind {mode : Json} {f : List String → Except Err β} :
    RaisesOnly Mapped (registeredKinds env mode >>= f) ↔
      mode.hashable = true ∧ RaisesOnly Mapped (f (kindsFor env mode)) := by
  have hkinds : registeredKinds env mode =
      if mode.hashable = true then .ok (kindsFor env mode) else .error .typeError := by
    cases mode <;> rfl
  rw [hkinds]
  exact raisesOnly_needs_bind not_false

theorem mapped_validateSchema (entries : List Json) :
    RaisesOnly Mapped (validateSchema env entries) ↔
      InTurn (EntryOperands env) (EntryRegistered env) entries := by
  induction entries with
  | nil => exact iff_of_true (raisesOnly_ok ()) trivial
  | cons entry entries ih =>
      rw [validateSchema, InTurn, EntryOperands, foreseen_mapped.get_bind, foreseen_mapped.get_bind,
        mapped_registeredKinds_bind, foreseen_mapped.iter_bind, raisesOnly_bind_unit,
        mapped_validateKinds,
        validateKinds_eq_ok, ih]
      simp only [and_assoc, and_self_left]
      exact Iff.rfl

/-- A requirement that names no legacy field. -/
def NoLegacy (req : Json) : Prop := ∀ field ∈ legacyFields, req.has field = false

theorem mapped_refuseLegacy_bind {req : Json} {f : Unit → Except Err β} :
    RaisesOnly Mapped (refuseLegacy req legacyFields >>= f) ↔
      req.searchable = true ∧ (NoLegacy req → RaisesOnly Mapped (f ())) := by
  have hrest : req.searchable = true → ∀ fields, RaisesOnly Mapped (refuseLegacy req fields >>= f) ↔
      ((∀ field ∈ fields, req.has field = false) → RaisesOnly Mapped (f ())) := by
    intro hsearchable fields
    induction fields with
    | nil => simp [refuseLegacy, bind, Except.bind]
    | cons field fields ih =>
        rw [refuseLegacy, LawfulMonad.bind_assoc, foreseen_mapped.contains_bind,
          and_iff_right hsearchable,
          LawfulMonad.bind_assoc, raisesOnly_ensure_bind trivial, ih, List.forall_mem_cons,
          and_imp]
  constructor
  · intro h
    have hsearchable : req.searchable = true := by
      rw [legacyFields, refuseLegacy, LawfulMonad.bind_assoc, foreseen_mapped.contains_bind] at h
      exact h.1
    exact ⟨hsearchable, (hrest hsearchable _).1 h⟩
  · rintro ⟨hsearchable, h⟩
    exact (hrest hsearchable _).2 h

theorem mapped_validateBounds (req : Json) :
    RaisesOnly Mapped (validateBounds env req) ↔ req.isObject = true := by
  rw [validateBounds, foreseen_mapped.get_bind, foreseen_mapped.get_bind, and_self_left]
  refine and_iff_left ?_
  split
  · exact raisesOnly_ensure trivial
  · exact raisesOnly_error.2 trivial

/-- An attestation requirement that is not empty. -/
structure RequirementOperands (env : Env) (req : Json) : Prop where
  object : req.isObject = true
  schema : ((req.member "modes").or (.arr [])).truthy = true →
    req.member "threshold" = .str "any" ∨ req.member "threshold" = .str "all" ∨
      req.member "threshold" = .str "M-of-N" →
    (req.member "threshold" = .str "M-of-N" → validateBounds env req = .ok ()) →
    ((req.member "evidence_schema").or (.arr [])).searchable = true ∧
      InTurn (EntryOperands env) (EntryRegistered env)
        ((req.member "evidence_schema").or (.arr [])).elements

theorem mapped_validateAttestationRequirement (req : Json) :
    RaisesOnly Mapped (validateAttestationRequirement env req) ↔
      (req.truthy = true → RequirementOperands env req) := by
  rw [validateAttestationRequirement, raisesOnly_ensure_bind trivial, foreseen_mapped.get_bind,
    raisesOnly_ensure_bind trivial, foreseen_mapped.get_bind, raisesOnly_ensure_bind trivial]
  have hschema : RaisesOnly Mapped (do
      let schema ← req.get "evidence_schema"
      validateSchema env (← (schema.or (.arr [])).iter)) ↔ req.isObject = true ∧
        ((req.member "evidence_schema").or (.arr [])).searchable = true ∧
        InTurn (EntryOperands env) (EntryRegistered env)
          ((req.member "evidence_schema").or (.arr [])).elements := by
    rw [foreseen_mapped.get_bind, foreseen_mapped.iter_bind, mapped_validateSchema]
  -- with `M-of-N` the bounds are checked before the schema
  have hbounded : RaisesOnly Mapped (do
      if req.member "threshold" = .str "M-of-N" then validateBounds env req else Except.ok ()
      let schema ← req.get "evidence_schema"
      validateSchema env (← (schema.or (.arr [])).iter)) ↔ req.isObject = true ∧
        ((req.member "threshold" = .str "M-of-N" → validateBounds env req = .ok ()) →
          ((req.member "evidence_schema").or (.arr [])).searchable = true ∧
          InTurn (EntryOperands env) (EntryRegistered env)
            ((req.member "evidence_schema").or (.arr [])).elements) := by
    dsimp only
    by_cases hM : req.member "threshold" = .str "M-of-N"
    · rw [if_pos hM, raisesOnly_bind_unit, mapped_validateBounds, hschema, imp_iff_right hM]
      exact and_congr_right fun hobject => imp_congr_right fun _ => and_iff_right hobject
    · rw [if_neg hM]
      refine Iff.trans hschema (and_congr_right fun _ => ?_)
      exact (imp_iff_right fun h => absurd h hM).symm
  refine imp_congr_right fun _ => ⟨?_, ?_⟩
  · rintro ⟨hobject, h⟩
    exact ⟨hobject, fun hmodes hknown => (hbounded.1 ((h hmodes).2 hknown)).2⟩
  · intro h
    exact ⟨h.object, fun hmodes => ⟨h.object, fun hknown =>
      hbounded.2 ⟨h.object, h.schema hmodes hknown⟩⟩⟩

theorem resolveOrRefuse_eq_ok_iff {label : String} {did : Json} {r : ResolvedDID} :
    resolveOrRefuse env label did = .ok r ↔ resolve env did = .ok r := by
  constructor
  · exact resolveOrRefuse_eq_ok
  · intro h
    rw [resolveOrRefuse, h]

theorem mapped_resolveOrRefuse_bind {label : String} {did : Json}
    {f : ResolvedDID → Except Err β} :
    RaisesOnly Mapped (resolveOrRefuse env label did >>= f) ↔ did.isText = true ∧
      ∀ r, resolve env did = .ok r → RaisesOnly Mapped (f r) := by
  rw [raisesOnly_bind, mapped_resolveOrRefuse]
  simp only [resolveOrRefuse_eq_ok_iff]

def requirementOf (task : Json) : Json := task.memberD "attestation_requirement" (.obj [])

/-- A descriptor that passes the checks up to that of its poster. -/
structure Postable (env : Env) (task : Json) : Prop where
  requirement : validateAttestationRequirement env (requirementOf task) = .ok ()
  inScope : task.memberD "descriptor_type" (.str "") ∉ outOfScope.map Json.str
  direct : task.member "x-subcontract-allowed" ≠ .bool true
  poster : (task.member "posted_by").truthy = true

/-- What `post` checks. -/
def PostOperands (env : Env) (task expiry : Json) : Prop :=
  task.searchable = true ∧ (task.has "settlement" = false →
    task.isObject = true ∧ (requirementOf task).searchable = true ∧ (NoLegacy (requirementOf task) →
      ((requirementOf task).truthy = true → RequirementOperands env (requirementOf task)) ∧
      (Postable env task → (task.member "posted_by").isText = true ∧
        (Returns (resolve env (task.member "posted_by")) → expiry.isText = true))))

theorem member_setItem {ms : List (String × Json)} {key other : String} {v : Json}
    (h : other ≠ key) :
    (Json.obj (Json.setItem ms key v)).member other = (Json.obj ms).member other := by
  rw [Json.member, Json.member, Json.lookup_setItem_ne ms v h]

theorem mapped_postChecks (fresh : String) (task expiry : Json) :
    RaisesOnly Mapped (postChecks env fresh task expiry) ↔ PostOperands env task expiry := by
  rw [postChecks, PostOperands, foreseen_mapped.contains_bind, raisesOnly_ensure_bind trivial,
    foreseen_mapped.getD_bind, mapped_refuseLegacy_bind, raisesOnly_bind_unit,
    mapped_validateAttestationRequirement, foreseen_mapped.getD_bind,
    raisesOnly_ensure_bind trivial,
    foreseen_mapped.get_bind, raisesOnly_ensure_bind trivial, foreseen_mapped.get_bind]
  refine and_congr_right fun _ => imp_congr_right fun _ => and_congr_right fun hobject =>
    and_congr_right fun _ => imp_congr_right fun _ => and_congr_right fun _ => ?_
  obtain ⟨ms, rfl⟩ := Json.isObject_iff.1 hobject
  have hexpiry : ∀ r : ResolvedDID, RaisesOnly Mapped (parseIso env expiry >>= fun expiry =>
      pure (⟨((Json.obj ms).member "task_id").or (.str fresh), Json.obj (Json.setItem ms "task_id"
        (((Json.obj ms).member "task_id").or (.str fresh))), r.did,
        (Json.obj ms).memberD "descriptor_type" (.str ""), expiry⟩ : PostPlan)) ↔
      expiry.isText = true := by
    intro r
    rw [raisesOnly_bind, mapped_parseIso]
    exact and_iff_left fun _ _ => raisesOnly_pure _
  dsimp only
  rw [foreseen_mapped.get_bind, raisesOnly_ensure_bind trivial, mapped_resolveOrRefuse_bind,
    member_setItem (by decide)]
  simp only [hexpiry]
  constructor
  · rintro h ⟨hreq, hscope, hdirect, hposter⟩
    obtain ⟨htext, hparse⟩ := (((h hreq).2 hscope).2 hdirect).2.2 hposter
    exact ⟨htext, returns_imp.2 hparse⟩
  · intro h hreq
    refine ⟨rfl, fun hscope => ⟨rfl, fun hdirect => ⟨rfl, rfl, fun hposter => ?_⟩⟩⟩
    obtain ⟨htext, hparse⟩ := h ⟨hreq, hscope, hdirect, hposter⟩
    exact ⟨htext, fun r hr => hparse ⟨r, hr⟩⟩

/-! ## Matching -/

section Matching

variable {E : Err → Prop} (hE : Json.Foreseen E)

def CertificationOperands (certifications : Json) : Prop :=
  (certifications.or (.arr [])).searchable = true ∧
    ∀ c ∈ (certifications.or (.arr [])).elements, (c.or (.obj [])).isObject = true ∧
      ((c.or (.obj [])).member "id").hashable = true

/-- What a worker's `required` block is read for, test after test. -/
structure BlockOperands (wanted : Wanted) (required : Json) : Prop where
  methods : wanted.methods ≠ [] → required.isObject = true ∧
    ((required.memberD "attestation_methods_supported" (.arr [])).or (.arr [])).settable = true
  descriptors : methodsMatch wanted.methods required = .ok true → wanted.descriptors ≠ [] →
    required.searchable = true ∧ (required.has "descriptor_types_supported" = true →
      required.isObject = true ∧
      ((required.memberD "descriptor_types_supported" (.arr [])).or (.arr [])).settable = true)
  certifications : methodsMatch wanted.methods required = .ok true →
    descriptorsMatch wanted.descriptors required = .ok true → wanted.certifications ≠ [] →
    required.isObject = true ∧
      CertificationOperands (required.memberD "certifications" (.arr []))
  venue : methodsMatch wanted.methods required = .ok true →
    descriptorsMatch wanted.descriptors required = .ok true →
    certificationsMatch wanted.certifications required = .ok true → wanted.venue ≠ .null →
    required.isObject = true ∧ ((required.member "current_location").or (.obj [])).isObject = true

/-- A worker's descriptor, compared with what is wanted. -/
def DescriptorOperands (wanted : Wanted) (capabilities : Json) : Prop :=
  (capabilities.or (.obj [])).isObject = true ∧
    BlockOperands wanted (((capabilities.or (.obj [])).member "required").or (.obj []))

include hE

theorem raisesOnly_methodsMatch (wanted : List Json) (required : Json) :
    RaisesOnly E (methodsMatch wanted required) ↔ (wanted ≠ [] → required.isObject = true ∧
      ((required.memberD "attestation_methods_supported" (.arr [])).or (.arr [])).settable =
        true) := by
  rw [methodsMatch]
  by_cases hwanted : wanted = []
  · simp [hwanted]
  · rw [if_neg hwanted, imp_iff_right hwanted, hE.getD_bind, hE.toSet_bind]
    exact and_congr_right fun _ => and_iff_left (raisesOnly_pure _)

theorem raisesOnly_descriptorsMatch (wanted : List Json) (required : Json) :
    RaisesOnly E (descriptorsMatch wanted required) ↔ (wanted ≠ [] → required.searchable = true ∧
      (required.has "descriptor_types_supported" = true → required.isObject = true ∧
        ((required.memberD "descriptor_types_supported" (.arr [])).or (.arr [])).settable =
          true)) := by
  rw [descriptorsMatch]
  by_cases hwanted : wanted = []
  · simp [hwanted]
  · rw [if_neg hwanted, imp_iff_right hwanted, hE.contains_bind]
    refine and_congr_right fun _ => ?_
    by_cases hhas : required.has "descriptor_types_supported" = true
    · rw [if_pos hhas, imp_iff_right hhas, hE.getD_bind, hE.toSet_bind]
      exact and_congr_right fun _ => and_iff_left (raisesOnly_pure _)
    · rw [if_neg hhas]
      exact iff_of_true (raisesOnly_pure _) fun h => absurd h hhas

theorem raisesOnly_certificationIds (certifications : Json) :
    RaisesOnly E (certificationIds certifications) ↔ CertificationOperands certifications := by
  have hid : ∀ {E' : Err → Prop}, Json.Foreseen E' → ∀ c : Json, RaisesOnly E' (do
      let id ← (c.or (.obj [])).get "id"
      if id.hashable then return id else throw .typeError : Except Err Json) ↔
      (c.or (.obj [])).isObject = true ∧ ((c.or (.obj [])).member "id").hashable = true := by
    intro E' hE' c
    rw [hE'.get_bind]
    exact and_congr_right fun _ => raisesOnly_needs hE'.typeError
  rw [certificationIds, CertificationOperands, hE.iter_bind]
  refine and_congr_right fun _ => (raisesOnly_mapM_forall ?_).trans ?_
  · intro c hc
    exact raisesOnly_false.1 ((hid Json.foreseen_never c).2 ((hid hE c).1 hc))
  · exact forall_congr' fun c => imp_congr_right fun _ => hid hE c

theorem raisesOnly_certificationsMatch (wanted : List Json) (required : Json) :
    RaisesOnly E (certificationsMatch wanted required) ↔ (wanted ≠ [] → required.isObject = true ∧
      CertificationOperands (required.memberD "certifications" (.arr []))) := by
  rw [certificationsMatch]
  by_cases hwanted : wanted = []
  · simp [hwanted]
  · rw [if_neg hwanted, imp_iff_right hwanted, hE.getD_bind, raisesOnly_bind,
      raisesOnly_certificationIds hE]
    exact and_congr_right fun _ => and_iff_left fun _ _ => raisesOnly_pure _

theorem raisesOnly_venueMatch (wanted : Json) (required : Json) :
    RaisesOnly E (venueMatch wanted required) ↔ (wanted ≠ .null → required.isObject = true ∧
      ((required.member "current_location").or (.obj [])).isObject = true) := by
  rw [venueMatch]
  by_cases hwanted : wanted = .null
  · simp [hwanted]
  · rw [if_neg hwanted, imp_iff_right hwanted, hE.get_bind, hE.get_bind]
    exact and_congr_right fun _ => and_iff_left (raisesOnly_pure _)

omit hE in
theorem raisesOnly_andThen {a b : Except Err Bool} :
    RaisesOnly E (andThen a b) ↔ RaisesOnly E a ∧ (a = .ok true → RaisesOnly E b) := by
  unfold andThen
  split
  · simp
  · next hne =>
      refine (and_iff_left fun h => ?_).symm
      exact absurd h hne

theorem raisesOnly_matchesRequired (wanted : Wanted) (capabilities : Json) :
    RaisesOnly E (matchesRequired wanted capabilities) ↔
      DescriptorOperands wanted capabilities := by
  rw [matchesRequired, DescriptorOperands, hE.get_bind]
  dsimp only
  rw [raisesOnly_andThen, raisesOnly_andThen, raisesOnly_andThen, raisesOnly_methodsMatch hE,
    raisesOnly_descriptorsMatch hE, raisesOnly_certificationsMatch hE, raisesOnly_venueMatch hE]
  refine and_congr_right fun _ => ⟨?_, ?_⟩
  · rintro ⟨hmethods, h⟩
    exact ⟨hmethods, fun hm => (h hm).1, fun hm hd => ((h hm).2 hd).1,
      fun hm hd hc => ((h hm).2 hd).2 hc⟩
  · rintro ⟨hmethods, hdescriptors, hcertifications, hvenue⟩
    exact ⟨hmethods, fun hm => ⟨hdescriptors hm, fun hd => ⟨hcertifications hm hd, hvenue hm hd⟩⟩⟩

theorem raisesOnly_filterWorkers (wanted : Wanted) (workers : List WcpWorker) :
    RaisesOnly E (filterWorkers wanted workers) ↔
      ∀ w ∈ workers, DescriptorOperands wanted w.capabilitiesJson := by
  induction workers with
  | nil => exact iff_of_true (raisesOnly_ok []) fun w hw => absurd hw List.not_mem_nil
  | cons w ws ih =>
      rw [filterWorkers, raisesOnly_bind, raisesOnly_matchesRequired hE, List.forall_mem_cons, ← ih]
      refine and_congr_right fun hoperands => ?_
      have hrest : ∀ keep : Bool, RaisesOnly E (filterWorkers wanted ws >>= fun rest =>
          pure (if keep then w :: rest else rest)) ↔ RaisesOnly E (filterWorkers wanted ws) := by
        intro keep
        rw [raisesOnly_bind]
        exact and_iff_left fun _ _ => raisesOnly_pure _
      simp only [hrest]
      obtain ⟨keep, hkeep⟩ :=
        raisesOnly_false.1 ((raisesOnly_matchesRequired Json.foreseen_never _ _).2 hoperands)
      exact ⟨fun h => h keep hkeep, fun h _ _ => h⟩

end Matching

/-- A label that the database can compare with the worker class. -/
def LabelOperand (env : Env) (v : Json) : Prop :=
  v = .null ∨ ∃ s, v = .str s ∧
    ((∃ c ∈ WorkerClass.all, s = c.value ∨ s = c.name) ∨ env.acceptsLabel s = true)

theorem returns_classLabel (v : Json) : Returns (classLabel env v) ↔ LabelOperand env v := by
  unfold classLabel LabelOperand
  cases v with
  | null => simp
  | str s =>
      simp only [reduceCtorEq, false_or, Json.str.injEq, exists_eq_left']
      cases hfind : WorkerClass.all.find? fun c => s = c.value ∨ s = c.name with
      | some c =>
          refine iff_of_true (returns_ok _) (.inl ⟨c, List.mem_of_find?_eq_some hfind, ?_⟩)
          simpa using List.find?_some hfind
      | none =>
          have hnone : ¬ ∃ c ∈ WorkerClass.all, s = c.value ∨ s = c.name := by
            rintro ⟨c, hc, hs⟩
            exact absurd hs (by simpa using List.find?_eq_none.1 hfind c hc)
          dsimp only
          rw [or_iff_right hnone]
          cases env.acceptsLabel s <;> simp
  | _ => simp

/-- The labels are compared in the database: none of its errors is foreseen. -/
theorem mapped_classLabels (filter : Json) : RaisesOnly Mapped (classLabels env filter) ↔
    filter.searchable = true ∧ filter.isText = false ∧
      ∀ v ∈ filter.elements, LabelOperand env v := by
  have hlabel : ∀ v, RaisesOnly Mapped (classLabel env v) ↔ Returns (classLabel env v) := by
    refine fun v => raisesOnly_iff_returns fun e he => ?_
    unfold classLabel at he
    split at he
    · cases he
    · split at he
      · cases he
      · split at he
        · cases he
        · cases he
          exact not_false
    · cases he
      exact not_false
  have hlabels : ∀ vs : List Json, RaisesOnly Mapped (vs.mapM (classLabel env)) ↔
      ∀ v ∈ vs, LabelOperand env v := by
    intro vs
    rw [raisesOnly_mapM_forall fun v hv => (hlabel v).1 hv]
    exact forall_congr' fun v => imp_congr_right fun _ =>
      (hlabel v).trans (returns_classLabel v)
  cases filter with
  | arr vs => exact (hlabels vs).trans (by simp [Json.searchable, Json.isText, Json.elements])
  | obj ms => exact (hlabels _).trans (by simp [Json.searchable, Json.isText, Json.elements])
  | _ => simp [classLabels, Mapped, Json.searchable, Json.isText]

/-- What a query asks of a worker, from a query that can be read. -/
def wantedFor (query : Json) : Wanted where
  methods := ((query.memberD "attestation_methods" (.arr [])).or (.arr [])).asSet
  descriptors := ((query.memberD "descriptor_types" (.arr [])).or (.arr [])).asSet
  certifications := ((query.memberD "certifications" (.arr [])).or (.arr [])).asSet
  venue := query.member "location_venue_id"

/-- A query that is not empty, and the workers it is compared with. -/
structure QueryOperands (query : Json) (candidates : List WcpWorker) : Prop where
  object : query.isObject = true
  methods : ((query.memberD "attestation_methods" (.arr [])).or (.arr [])).settable = true
  descriptors : ((query.memberD "descriptor_types" (.arr [])).or (.arr [])).settable = true
  certifications : ((query.memberD "certifications" (.arr [])).or (.arr [])).settable = true
  workers : ∀ w ∈ candidates, DescriptorOperands (wantedFor query) w.capabilitiesJson

structure MatchOperands (env : Env) (db : Db) (query filter : Json) : Prop where
  labels : filter.truthy = true → filter.searchable = true ∧ filter.isText = false ∧
    ∀ v ∈ filter.elements, LabelOperand env v
  query : ∀ candidates, candidateWorkers env db filter = .ok candidates →
    query.truthy = true → QueryOperands query candidates

theorem mapped_candidateWorkers (db : Db) (filter : Json) :
    RaisesOnly Mapped (candidateWorkers env db filter) ↔ (filter.truthy = true →
      filter.searchable = true ∧ filter.isText = false ∧
        ∀ v ∈ filter.elements, LabelOperand env v) := by
  rw [candidateWorkers]
  by_cases hfilter : filter.truthy = true
  · rw [if_pos hfilter, imp_iff_right hfilter, raisesOnly_bind, mapped_classLabels]
    exact and_iff_left fun _ _ => raisesOnly_pure _
  · rw [if_neg hfilter]
    exact iff_of_true (raisesOnly_ok _) fun h => absurd h hfilter

theorem mapped_matchingWorkers (db : Db) (query filter : Json) :
    RaisesOnly Mapped (matchingWorkers env db query filter) ↔
      MatchOperands env db query filter := by
  have hquery : ∀ candidates, RaisesOnly Mapped (if query.truthy = false then return candidates
      else do
        let methods ← ((← query.getD "attestation_methods" (.arr [])).or (.arr [])).toSet
        let descriptors ← ((← query.getD "descriptor_types" (.arr [])).or (.arr [])).toSet
        let certifications ← ((← query.getD "certifications" (.arr [])).or (.arr [])).toSet
        let venue ← query.get "location_venue_id"
        filterWorkers ⟨methods, descriptors, certifications, venue⟩ candidates :
          Except Err (List WcpWorker)) ↔
      (query.truthy = true → QueryOperands query candidates) := by
    intro candidates
    by_cases htruthy : query.truthy = true
    · rw [if_neg (by simp [htruthy]), imp_iff_right htruthy, foreseen_mapped.getD_bind,
        foreseen_mapped.toSet_bind, foreseen_mapped.getD_bind, foreseen_mapped.toSet_bind,
        foreseen_mapped.getD_bind, foreseen_mapped.toSet_bind, foreseen_mapped.get_bind,
        raisesOnly_filterWorkers foreseen_mapped]
      constructor
      · rintro ⟨hobject, hmethods, -, hdescriptors, -, hcertifications, -, hworkers⟩
        exact ⟨hobject, hmethods, hdescriptors, hcertifications, hworkers⟩
      · rintro ⟨hobject, hmethods, hdescriptors, hcertifications, hworkers⟩
        exact ⟨hobject, hmethods, hobject, hdescriptors, hobject, hcertifications, hobject,
          hworkers⟩
    · rw [if_pos (by simpa using htruthy)]
      exact iff_of_true (raisesOnly_pure _) fun h => absurd h htruthy
  rw [matchingWorkers, raisesOnly_bind, mapped_candidateWorkers]
  simp only [hquery]
  exact ⟨fun h => ⟨h.1, h.2⟩, fun h => ⟨h.labels, h.query⟩⟩

/-! ## Counting the eligible workers -/

def constraintsOf (task : Json) : Json := (task.memberD "constraints" (.obj [])).or (.obj [])

/-- What the capability query is derived from. -/
structure DerivedOperands (task constraints : Json) : Prop where
  requirement : ((task.member "attestation_requirement").or (.obj [])).isObject = true
  modes : (((task.member "attestation_requirement").or (.obj [])).member "modes").truthy = true →
    (((task.member "attestation_requirement").or (.obj [])).member "modes").searchable = true
  location : ((constraints.member "location").or (.obj [])).isObject = true
  payload : (((constraints.member "location").or (.obj [])).member "venue_id").truthy = false →
    ((task.member "descriptor_payload").or (.obj [])).isObject = true

/-- What `_count_eligible` reads. -/
structure CountOperands (env : Env) (db : Db) (task : Json) : Prop where
  constraints : (constraintsOf task).isObject = true
  filter : (((constraintsOf task).member "worker_class_filter").or (.obj [])).isObject = true
  derived : DerivedOperands task (constraintsOf task)
  matched : ∀ query, capabilityQuery task (constraintsOf task) = .ok query →
    MatchOperands env db query (((((constraintsOf task).member "worker_class_filter").or
      (.obj [])).member "allowed").or (.arr []))

theorem raisesOnly_queryMethods {E : Err → Prop} (hE : Json.Foreseen E) (modes : Json) :
    RaisesOnly E (queryMethods modes) ↔ (modes.truthy = true → modes.searchable = true) := by
  rw [queryMethods]
  by_cases h : modes.truthy = true
  · rw [if_pos h, imp_iff_right h, hE.iter_bind]
    exact and_iff_left (raisesOnly_pure _)
  · rw [if_neg h]
    exact iff_of_true (raisesOnly_ok _) fun h' => absurd h' h

theorem mapped_queryVenue {task constraints : Json} (htask : task.isObject = true)
    (hconstraints : constraints.isObject = true) :
    RaisesOnly Mapped (queryVenue task constraints) ↔
      ((constraints.member "location").or (.obj [])).isObject = true ∧
      ((((constraints.member "location").or (.obj [])).member "venue_id").truthy = false →
        ((task.member "descriptor_payload").or (.obj [])).isObject = true) := by
  rw [queryVenue, foreseen_mapped.get_bind, foreseen_mapped.get_bind, and_iff_right hconstraints]
  refine and_congr_right fun _ => ?_
  by_cases h : (((constraints.member "location").or (.obj [])).member "venue_id").truthy = true
  · rw [if_pos h]
    exact iff_of_true (raisesOnly_pure _) fun h' => by simp [h] at h'
  · rw [if_neg h, imp_iff_right (by simpa using h), foreseen_mapped.get_bind,
      and_iff_right htask, Json.get_eq]
    exact raisesOnly_needs not_false

theorem mapped_capabilityQuery {task constraints : Json} (htask : task.isObject = true)
    (hconstraints : constraints.isObject = true) :
    RaisesOnly Mapped (capabilityQuery task constraints) ↔ DerivedOperands task constraints := by
  have hrest : ∀ methods : List (String × Json), RaisesOnly Mapped (do
      let descriptorType ← task.get "descriptor_type"
      let venue ← queryVenue task constraints
      let required ← constraints.get "required_certifications"
      return Json.obj (methods ++
        queryMember "descriptor_types" descriptorType (.arr [descriptorType]) ++
        queryMember "location_venue_id" venue venue ++
        queryMember "certifications" required required)) ↔
      ((constraints.member "location").or (.obj [])).isObject = true ∧
      ((((constraints.member "location").or (.obj [])).member "venue_id").truthy = false →
        ((task.member "descriptor_payload").or (.obj [])).isObject = true) := by
    intro methods
    rw [foreseen_mapped.get_bind, and_iff_right htask, raisesOnly_bind,
      mapped_queryVenue htask hconstraints]
    refine and_iff_left fun venue _ => ?_
    rw [foreseen_mapped.get_bind]
    exact ⟨hconstraints, raisesOnly_pure _⟩
  rw [capabilityQuery, foreseen_mapped.get_bind, foreseen_mapped.get_bind, and_iff_right htask,
    raisesOnly_bind_const (fun h => raisesOnly_false.1
      ((raisesOnly_queryMethods Json.foreseen_never _).2
        ((raisesOnly_queryMethods foreseen_mapped _).1 h))) hrest,
    raisesOnly_queryMethods foreseen_mapped]
  exact ⟨fun ⟨hreq, hmodes, hlocation, hpayload⟩ => ⟨hreq, hmodes, hlocation, hpayload⟩,
    fun h => ⟨h.requirement, h.modes, h.location, h.payload⟩⟩

theorem mapped_countEligible {db : Db} {task : Json} (htask : task.isObject = true) :
    RaisesOnly Mapped (countEligible env db task) ↔ CountOperands env db task := by
  rw [countEligible, foreseen_mapped.getD_bind, and_iff_right htask]
  dsimp only
  rw [foreseen_mapped.get_bind, foreseen_mapped.get_bind]
  constructor
  · rintro ⟨hconstraints, hfilter, h⟩
    rw [raisesOnly_bind, mapped_capabilityQuery htask hconstraints] at h
    refine ⟨hconstraints, hfilter, h.1, fun query hquery => ?_⟩
    exact (mapped_matchingWorkers db query _).1 (raisesOnly_bind.1 (h.2 query hquery)).1
  · rintro ⟨hconstraints, hfilter, hderived, hmatched⟩
    have hquery := (mapped_capabilityQuery htask hconstraints).2 hderived
    refine ⟨hconstraints, hfilter, raisesOnly_bind.2 ⟨hquery, fun query hquery => ?_⟩⟩
    refine raisesOnly_bind.2 ⟨?_, fun _ _ => raisesOnly_pure _⟩
    exact (mapped_matchingWorkers db query _).2 (hmatched query hquery)

end Wcp.Coordinator
