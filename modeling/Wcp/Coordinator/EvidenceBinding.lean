import Wcp.Base.JsonPadding
import Wcp.Coordinator.Attestation
import Wcp.Coordinator.LocalEnvironment
/-!
# What an evidence signature binds

The worker signs the hash of a payload; the verifiers read the payload.  Nothing
compares the two, and no verifier reads all of its payload, so a header under
which one payload passes lets another one pass as well.  A signature binds the
payload only where nothing passes.
-/

namespace Wcp.Coordinator

open Wcp.Base

variable {env : Env}

/-! ## What the verifiers read -/

theorem firstMissing_padded (p : Json) {fields : List String}
    (h : ∀ k ∈ fields, '!' ∉ k.toList) : firstMissing p.padded fields = firstMissing p fields := by
  induction fields with
  | nil => rfl
  | cons r rs ih =>
      rw [firstMissing, firstMissing, Json.contains_padded p (h r List.mem_cons_self),
        ih fun k hk => h k (List.mem_cons_of_mem r hk)]

theorem requireFields_padded (label : String) (p : Json) {fields : List String}
    (h : ∀ k ∈ fields, '!' ∉ k.toList) :
    requireFields label p.padded fields = requireFields label p fields := by
  rw [requireFields, requireFields, firstMissing_padded p h]

theorem sensorWitnessVerify_padded (kind : String) (p : Json) :
    sensorWitnessVerify kind p.padded = sensorWitnessVerify kind p := by
  have hrecording : firstMissing p.padded ["recording_hash", "duration_seconds"] =
      firstMissing p ["recording_hash", "duration_seconds"] := firstMissing_padded p (by decide)
  have hcovered := @Json.contains_padded WcpErr p "covered_polygon" (by decide)
  have hcheckpoints := @Json.contains_padded WcpErr p "checkpoints" (by decide)
  have htrack := @Json.get_padded WcpErr p "track" (by decide)
  have hbefore := @Json.get_padded WcpErr p "before_kg" (by decide)
  have hafter := @Json.get_padded WcpErr p "after_kg" (by decide)
  have hphoto := @Json.get_padded WcpErr p "photo_hash" (by decide)
  have hexif := @Json.get_padded WcpErr p "exif" (by decide)
  simp only [sensorWitnessVerify, hrecording, hcovered, hcheckpoints, htrack, hbefore, hafter,
    hphoto, hexif]

theorem thirdPartyWitnessVerify_padded (kind : String) (p : Json) :
    thirdPartyWitnessVerify env kind p.padded = thirdPartyWitnessVerify env kind p := by
  have hsigned : firstMissing p.padded ["signed_text", "signature_image_hash"] =
      firstMissing p ["signed_text", "signature_image_hash"] := firstMissing_padded p (by decide)
  have htext := @Json.item_padded WcpErr p "signed_text" (by decide)
  have happ := requireFields_padded "phone_app_attestation" p
    (show ∀ k ∈ ["attesting_app_did", "attestation_payload_hash"], '!' ∉ k.toList by decide)
  have hbeacon := requireFields_padded "iot_beacon_proximity" p
    (show ∀ k ∈ ["beacon_id", "rssi", "observed_at"], '!' ∉ k.toList by decide)
  simp only [thirdPartyWitnessVerify, hsigned, htext, happ, hbeacon]

theorem cryptographicPresenceVerify_padded (kind : String) (p taskPayload : Json) :
    cryptographicPresenceVerify env kind p.padded taskPayload =
      cryptographicPresenceVerify env kind p taskPayload := by
  have hfields : firstMissing p.padded ["check_in_at", "check_out_at", "region"] =
      firstMissing p ["check_in_at", "check_out_at", "region"] := firstMissing_padded p (by decide)
  have hin := @Json.item_padded WcpErr p "check_in_at" (by decide)
  have hout := @Json.item_padded WcpErr p "check_out_at" (by decide)
  simp only [cryptographicPresenceVerify, parsePresence, hfields, hin, hout]

theorem ownerSignoffVerify_padded (kind : String) (p taskPayload : Json) :
    ownerSignoffVerify kind p.padded taskPayload = ownerSignoffVerify kind p taskPayload := by
  have hlink := requireFields_padded "whatsapp_business_signed_link" p
    (show ∀ k ∈ ["signing_party_did", "signed_token", "issued_at"], '!' ∉ k.toList by decide)
  have hwaiver := requireFields_padded "self_attestation_with_waiver" p
    (show ∀ k ∈ ["waiver_text", "signed_by_worker"], '!' ∉ k.toList by decide)
  simp only [ownerSignoffVerify, hlink, hwaiver]

theorem verifySingle_padded (mode kind p taskPayload : Json) :
    verifySingle env mode kind p.padded taskPayload = verifySingle env mode kind p taskPayload := by
  have hdispatch : ∀ m k, dispatchMode env m k p.padded taskPayload =
      dispatchMode env m k p taskPayload := by
    intro m k
    cases m with
    | sensorWitness => exact sensorWitnessVerify_padded k p
    | thirdPartyWitness => exact thirdPartyWitnessVerify_padded k p
    | cryptographicPresence => exact cryptographicPresenceVerify_padded k p taskPayload
    | ownerSignOff => exact ownerSignoffVerify_padded k p taskPayload
  simp only [verifySingle, hdispatch]

/-! ## Headers -/

/-- What a worker signs about an evidence item, with the signature. -/
structure EvidenceHeader where
  mode : Json
  kind : Json
  payloadHash : Json
  collectedAt : Json
  sig : Json

namespace EvidenceHeader

variable (h : EvidenceHeader)

/-- An item has this header and this payload, as the evidence loop reads them. -/
structure Carries (ev payload : Json) : Prop where
  mode : ev.get "mode" = (.ok h.mode : Except Err Json)
  kind : ev.get "kind" = (.ok h.kind : Except Err Json)
  payload : ev.getD "payload" (.obj []) = (.ok payload : Except Err Json)
  payloadHash : ev.get "payload_hash" = (.ok h.payloadHash : Except Err Json)
  collectedAt : ev.get "collected_at" = (.ok h.collectedAt : Except Err Json)
  sig : ev.getD "sig" (.str "") = (.ok h.sig : Except Err Json)

/-- An item with this header and a payload. -/
def item (payload : Json) : Json := .obj [
  ("mode", h.mode),
  ("kind", h.kind),
  ("payload", payload),
  ("payload_hash", h.payloadHash),
  ("collected_at", h.collectedAt),
  ("sig", h.sig)]

theorem carries_item (payload : Json) : h.Carries (h.item payload) payload :=
  ⟨rfl, rfl, rfl, rfl, rfl, rfl⟩

/-- The signature verifies over the header, under the key of the claim's worker. -/
def Signed (env : Env) (plan : AttestPlan) (claimId : Json) : Prop :=
  verify env plan.resolved (evidenceBody h.mode h.kind h.payloadHash plan.claim.workerId claimId
    h.collectedAt) h.sig = .ok ()

/-- The verifier of the header's mode and kind passes a payload. -/
def Passing (env : Env) (plan : AttestPlan) (payload : Json) : Prop :=
  ∃ outcome, verifySingle env h.mode h.kind payload plan.taskPayload = .ok outcome ∧
    outcome.decision = .pass

variable {h}

theorem Passing.padded {plan : AttestPlan} {payload : Json} (hp : h.Passing env plan payload) :
    h.Passing env plan payload.padded := by
  obtain ⟨outcome, hv, hpass⟩ := hp
  exact ⟨outcome, by rw [verifySingle_padded, hv], hpass⟩

theorem Passing.ofValue {plan : AttestPlan} {payload : Json} (hp : h.Passing env plan payload) :
    ∃ m, AttestationMode.ofValue h.mode = some m := by
  obtain ⟨outcome, hv, hpass⟩ := hp
  unfold verifySingle at hv
  split at hv
  · cases hv
  · split at hv
    · cases hv
      cases hpass
    · next m hm => exact ⟨m, hm⟩

theorem Carries.unique {h' : EvidenceHeader} {ev payload payload' : Json}
    (hev : h.Carries ev payload) (hev' : h'.Carries ev payload') : h = h' ∧ payload = payload' := by
  obtain ⟨mode, kind, payloadHash, collectedAt, sig⟩ := h
  obtain ⟨hmode, hkind, hpayload, hhash, htime, hsig⟩ := hev
  cases hmode.symm.trans hev'.mode
  cases hkind.symm.trans hev'.kind
  cases hpayload.symm.trans hev'.payload
  cases hhash.symm.trans hev'.payloadHash
  cases htime.symm.trans hev'.collectedAt
  cases hsig.symm.trans hev'.sig
  exact ⟨rfl, rfl⟩

theorem get_of_item {v x : Json} {key : String} (hx : v.item key = (.ok x : Except Err Json)) :
    v.get key = (.ok x : Except Err Json) := by
  unfold Json.item at hx
  split at hx
  · next ms =>
      split at hx
      · next y hy =>
          cases hx
          rw [Json.get, Json.getD, hy]
          rfl
      · cases hx
  · cases hx

theorem evidenceRow_eq_ok {ev claimId mode kind sig payload : Json} {row : EvidenceRow}
    (hrow : evidenceRow env ev claimId mode kind sig payload = .ok row) :
    ∃ c, ev.item "collected_at" = (.ok c : Except Err Json) ∧ ∃ t, parseIso env c = .ok t := by
  unfold evidenceRow at hrow
  split at hrow
  · simp only [bind_eq_ok] at hrow
    obtain ⟨-, -, -, -, c, hc, t, ht, -⟩ := hrow
    exact ⟨c, hc, t, ht⟩
  · cases hrow

/-- What an item with a row has gone through: its signature verified, its verifier returned the
outcome, and its time parses. -/
theorem exists_of_judge_row {plan : AttestPlan} {claimId ev : Json} {v : EvidenceVerdict}
    (hv : plan.judge env claimId ev = .ok v) (hsome : v.row.isSome = true) :
    ∃ h payload, Carries h ev payload ∧ v.mode = h.mode ∧ h.Signed env plan claimId ∧
      (∃ t, parseIso env h.collectedAt = .ok t) ∧
      verifySingle env h.mode h.kind payload plan.taskPayload = .ok v.outcome := by
  unfold AttestPlan.judge judgeEvidence judgeEvidenceWith at hv
  simp only [bind_eq_ok] at hv
  obtain ⟨mode, hmode, kind, hkind, payload, hpayload, payloadHash, hhash, collectedAt, htime, sig,
    hsig, hv⟩ := hv
  split at hv
  · cases hv
    cases hsome
  · cases hv
  · next hsigned =>
      obtain ⟨outcome, houtcome, row, hrow, hv⟩ := by simpa only [bind_eq_ok] using hv
      cases hv
      obtain ⟨c, hc, t, ht⟩ := evidenceRow_eq_ok hrow
      cases htime.symm.trans (get_of_item hc)
      exact ⟨⟨mode, kind, payloadHash, collectedAt, sig⟩, payload,
        ⟨hmode, hkind, hpayload, hhash, htime, hsig⟩, rfl, hsigned, ⟨t, ht⟩, houtcome⟩

theorem row_isSome_of_judge_pass {plan : AttestPlan} {claimId ev : Json} {v : EvidenceVerdict}
    (hv : plan.judge env claimId ev = .ok v) (hpass : v.outcome.decision = .pass) :
    v.row.isSome = true := by
  unfold AttestPlan.judge judgeEvidence judgeEvidenceWith at hv
  simp only [bind_eq_ok] at hv
  obtain ⟨_, -, _, -, _, -, _, -, _, -, _, -, hv⟩ := hv
  split at hv
  · cases hv
    cases hpass
  · cases hv
  · obtain ⟨_, -, _, -, hv⟩ := by simpa only [bind_eq_ok] using hv
    cases hv
    rfl

/-- When an item counts as passing: its signature verifies, its time parses, and its payload
passes. -/
theorem exists_of_judge_pass {plan : AttestPlan} {claimId ev : Json} {v : EvidenceVerdict}
    (hv : plan.judge env claimId ev = .ok v) (hpass : v.outcome.decision = .pass) :
    ∃ h payload, Carries h ev payload ∧ v.mode = h.mode ∧ h.Signed env plan claimId ∧
      (∃ t, parseIso env h.collectedAt = .ok t) ∧ h.Passing env plan payload := by
  obtain ⟨h, payload, hcarries, hmode, hsigned, htime, houtcome⟩ :=
    exists_of_judge_row hv (row_isSome_of_judge_pass hv hpass)
  exact ⟨h, payload, hcarries, hmode, hsigned, htime, v.outcome, houtcome, hpass⟩

/-- The verdict on a signed item of one of the four modes whose time parses. -/
theorem judge_item_eq {plan : AttestPlan} {claimId payload : Json}
    (hsigned : h.Signed env plan claimId) {t : DateTime}
    (ht : parseIso env h.collectedAt = .ok t) {m : AttestationMode}
    (hm : AttestationMode.ofValue h.mode = some m) {outcome : VerificationOutcome}
    (houtcome : verifySingle env h.mode h.kind payload plan.taskPayload = .ok outcome) :
    plan.judge env claimId (h.item payload) =
      .ok ⟨h.mode, outcome, some ⟨claimId, m, h.kind, h.payloadHash, h.sig, t, payload⟩⟩ := by
  have hrow : evidenceRow env (h.item payload) claimId h.mode h.kind h.sig payload =
      .ok ⟨claimId, m, h.kind, h.payloadHash, h.sig, t, payload⟩ := by
    unfold evidenceRow
    rw [hm]
    exact bind_eq_ok.2 ⟨m, rfl, bind_eq_ok.2 ⟨h.payloadHash, rfl,
      bind_eq_ok.2 ⟨h.collectedAt, rfl, bind_eq_ok.2 ⟨t, ht, rfl⟩⟩⟩⟩
  have hev := h.carries_item payload
  unfold AttestPlan.judge judgeEvidence judgeEvidenceWith
  simp only [bind_eq_ok]
  refine ⟨_, hev.mode, _, hev.kind, _, hev.payload, _, hev.payloadHash, _, hev.collectedAt, _,
    hev.sig, ?_⟩
  rw [show verify env plan.resolved (evidenceBody h.mode h.kind h.payloadHash plan.claim.workerId
    claimId h.collectedAt) h.sig = .ok () from hsigned]
  simp only [bind_eq_ok]
  exact ⟨outcome, houtcome, _, hrow, rfl⟩

theorem judge_item {plan : AttestPlan} {claimId payload : Json}
    (hsigned : h.Signed env plan claimId) {t : DateTime}
    (ht : parseIso env h.collectedAt = .ok t) (hpass : h.Passing env plan payload) :
    ∃ v, plan.judge env claimId (h.item payload) = .ok v ∧ v.outcome.decision = .pass := by
  obtain ⟨m, hm⟩ := hpass.ofValue
  obtain ⟨outcome, houtcome, hdec⟩ := hpass
  exact ⟨_, judge_item_eq hsigned ht hm houtcome, hdec⟩

end EvidenceHeader

/-! ## Binding -/

open EvidenceHeader (judge_item exists_of_judge_pass)

/-- An evidence item of some attestation on a state counts as passing. -/
def CountsAsPass (env : Env) (db : Db) (claimId ev : Json) : Prop :=
  ∃ attestations plan v, attestPlan env db claimId attestations = .ok plan ∧ ev ∈ plan.items ∧
    plan.judge env claimId ev = .ok v ∧ v.outcome.decision = .pass

/-- A header under which no payload counts: the signature does not verify, or the time does not
parse, or the verifier of the mode and the kind passes nothing. -/
def EvidenceHeader.Inert (h : EvidenceHeader) (env : Env) (db : Db) (claimId : Json) : Prop :=
  ∀ plan, attestPlan env db claimId (.arr []) = .ok plan →
    ¬ h.Signed env plan claimId ∨ (∀ t, parseIso env h.collectedAt ≠ .ok t) ∨
      ∀ payload, payload.parsed = true → ¬ h.Passing env plan payload

section Binding

variable {db : Db} {claimId : Json} {h : EvidenceHeader}

theorem EvidenceHeader.Inert.not_countsAsPass {ev payload : Json} (hinert : h.Inert env db claimId)
    (hparsed : payload.parsed = true) (hev : h.Carries ev payload) :
    ¬ CountsAsPass env db claimId ev := by
  rintro ⟨attestations, plan, v, hplan, -, hv, hpass⟩
  obtain ⟨h', payload', hev', -, hsigned, ⟨t, ht⟩, hpassing⟩ := exists_of_judge_pass hv hpass
  obtain ⟨rfl, rfl⟩ := hev.unique hev'
  rcases hinert _ (attestPlan_items hplan []) with hunsigned | htime | hnone
  · exact hunsigned hsigned
  · exact htime t ht
  · exact hnone payload hparsed hpassing

theorem EvidenceHeader.exists_two_of_not_inert (hlive : ¬ h.Inert env db claimId) :
    ∃ payload : Json, payload.parsed = true ∧ CountsAsPass env db claimId (h.item payload) ∧
      CountsAsPass env db claimId (h.item payload.padded) := by
  unfold EvidenceHeader.Inert at hlive
  push Not at hlive
  obtain ⟨plan, hplan, hsigned, ⟨t, ht⟩, payload, hparsed, hpassing⟩ := hlive
  have hcounts : ∀ p, h.Passing env plan p → CountsAsPass env db claimId (h.item p) := by
    intro p hp
    obtain ⟨v, hv, hpass⟩ := judge_item hsigned ht hp
    exact ⟨_, _, v, attestPlan_items hplan [h.item p], List.mem_singleton_self _, hv, hpass⟩
  exact ⟨payload, hparsed, hcounts payload hpassing, hcounts _ hpassing.padded⟩

/-- A signed hash binds the payload of a passing item exactly under inert headers, and so does
the signature: otherwise a second payload passes with the same header. -/
theorem payload_bound_iff_inert (hsha : Function.Injective env.sha256Hex) (db : Db)
    (claimId : Json) (h : EvidenceHeader) :
    ((∀ ev payload, payload.parsed = true → h.Carries ev payload →
        CountsAsPass env db claimId ev →
        h.payloadHash = .str (env.sha256Hex (canonical payload))) ↔ h.Inert env db claimId) ∧
      ((∀ ev ev' payload payload', payload.parsed = true → payload'.parsed = true →
        h.Carries ev payload → h.Carries ev' payload' → ¬ payload.SameValue payload' →
        ¬ (CountsAsPass env db claimId ev ∧ CountsAsPass env db claimId ev')) ↔
        h.Inert env db claimId) := by
  refine ⟨⟨?_, ?_⟩, ⟨?_, ?_⟩⟩
  · intro hbound
    by_contra hlive
    obtain ⟨payload, hparsed, hp, hq⟩ := h.exists_two_of_not_inert hlive
    have hhash := hbound _ _ hparsed (h.carries_item payload) hp
    have hhash' := hbound _ _ (Json.parsed_padded hparsed) (h.carries_item payload.padded) hq
    have htext := hsha (Json.str.inj (hhash.symm.trans hhash'))
    exact Json.not_sameValue_padded payload (canonical_inj.1 htext)
  · intro hinert ev payload hparsed hev hcounts
    exact absurd hcounts (hinert.not_countsAsPass hparsed hev)
  · intro hone
    by_contra hlive
    obtain ⟨payload, hparsed, hp, hq⟩ := h.exists_two_of_not_inert hlive
    exact hone _ _ _ _ hparsed (Json.parsed_padded hparsed) (h.carries_item payload)
      (h.carries_item payload.padded) (Json.not_sameValue_padded payload) ⟨hp, hq⟩
  · intro hinert ev ev' payload payload' hparsed _ hev _ _ hcounts
    exact hinert.not_countsAsPass hparsed hev hcounts.1

end Binding

/-- The header of the local coverage evidence, with some signature. -/
def coverageHeader (sig : Json) : EvidenceHeader where
  mode := .str "sensor-witness"
  kind := .str "coverage_map"
  payloadHash := .str "h"
  collectedAt := localDate
  sig := sig

/-- Under a signature of another key nothing passes, so what passes is bound. -/
theorem payload_bound_iff_inert_forged :
    (coverageHeader oneSig).Inert localEnv
        (reach localEnv [zeroWorker] (localStart anySensor)).db localClaimId ∧
      ∀ ev payload, payload.parsed = true → (coverageHeader oneSig).Carries ev payload →
        CountsAsPass localEnv (reach localEnv [zeroWorker] (localStart anySensor)).db localClaimId
          ev →
        (coverageHeader oneSig).payloadHash = .str (localEnv.sha256Hex (canonical payload)) := by
  rw [(payload_bound_iff_inert localEnv_sha256Hex_injective _ _ _).1, and_self]
  intro plan hplan
  left
  have hcheck : ((attestPlan localEnv
      (reach localEnv [zeroWorker] (localStart anySensor)).db localClaimId
      (.arr [])).toOption.any fun plan =>
        (verify localEnv plan.resolved (evidenceBody (.str "sensor-witness") (.str "coverage_map")
          (.str "h") plan.claim.workerId localClaimId localDate)
          oneSig).toOption.isNone) = true := by
    decide +kernel
  intro hsigned
  have hsigned : verify localEnv plan.resolved (evidenceBody (.str "sensor-witness")
      (.str "coverage_map") (.str "h") plan.claim.workerId localClaimId localDate) oneSig =
      .ok () := hsigned
  simp only [hplan, hsigned, Except.toOption, Option.any_some] at hcheck
  cases hcheck

/-- Two maps under one signed header: both pass, and the signed hash is that of neither. -/
theorem coverage_payload_exchanged :
    ∃ payload payload', (coverageHeader zeroSig).Carries coverageEvidence payload ∧
      (coverageHeader zeroSig).Carries otherCoverage payload' ∧ ¬ payload.SameValue payload' ∧
      (∀ ev ∈ [coverageEvidence, otherCoverage],
        CountsAsPass localEnv (reach localEnv [zeroWorker] (localStart anySensor)).db localClaimId
          ev) ∧
      (coverageHeader zeroSig).payloadHash ≠ .str (localEnv.sha256Hex (canonical payload)) := by
  refine ⟨_, _, ⟨rfl, rfl, rfl, rfl, rfl, rfl⟩, ⟨rfl, rfl, rfl, rfl, rfl, rfl⟩, ?_, ?_, ?_⟩
  · intro h
    cases h
  · have hcheck : ((attestPlan localEnv
        (reach localEnv [zeroWorker] (localStart anySensor)).db localClaimId
        (.arr [coverageEvidence, otherCoverage])).toOption.any fun plan =>
          [coverageEvidence, otherCoverage].all fun ev =>
            (plan.judge localEnv localClaimId ev).toOption.any fun v =>
              decide (v.outcome.decision = .pass)) = true := by decide +kernel
    intro ev hev
    obtain ⟨plan, hplan, hjudged⟩ := toOption_any.1 hcheck
    have hitems := (attestPlan_eq_ok.1 hplan).2.2.2.2.2.2
    obtain ⟨v, hv, hpass⟩ := toOption_any.1 (List.all_eq_true.1 hjudged ev hev)
    exact ⟨_, plan, v, hplan, Except.ok.inj hitems ▸ hev, hv, of_decide_eq_true hpass⟩
  · decide +kernel

end Wcp.Coordinator
