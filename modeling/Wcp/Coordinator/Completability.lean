import Wcp.Coordinator.Authorship
import Wcp.Coordinator.Completion
import Wcp.Coordinator.Entries
import Wcp.Coordinator.Thresholds
/-!
# Which tasks can be completed

`post` accepts a requirement whose schema lists registered kinds.  A registered
kind need not have a handler, a presence proof reads the descriptor's payload, and
`attest` converts a member that `post` never looked at.  `Completable` is the exact
condition on a posted task under which its worker has evidence of the listed kinds
that passes (`completable_iff`).
-/

namespace Wcp.Coordinator

open Wcp.Base
open Wcp.Base.Exec

variable {env : Env} {taskPayload : Json}

/-! ## What the verifiers can pass -/

/-- The kinds that the verifier of a mode has a branch for. -/
def handledKinds : AttestationMode → List String
  | .sensorWitness => ["gps_track", "indoor_pose_track", "weight_delta", "photo_with_exif",
      "signed_sensor_recording", "coverage_map", "gps_stamped_checkpoint_coverage"]
  | .thirdPartyWitness => ["customer_signature", "phone_app_attestation", "iot_beacon_proximity"]
  | .cryptographicPresence => ["pose_bounded_presence_proof", "geofence_check_in_out"]
  | .ownerSignOff => ["whatsapp_business_signed_link", "self_attestation_with_waiver"]

/-- Two times whose distance satisfies the duration that a descriptor's payload asks for. -/
def Presentable (env : Env) (taskPayload : Json) : Prop :=
  ∃ checkIn checkOut tIn tOut t required, parseIso env checkIn = .ok tIn ∧
    parseIso env checkOut = .ok tOut ∧
    (DateTime.difference tOut tIn : Except Err Int) = .ok t ∧ 0 < t ∧
    taskPayload.get "duration_minutes" = (.ok required : Except Err Json) ∧
    ∀ minutes, required.asInt = some minutes → belowNinetyPercent t minutes = .ok false

/-- A descriptor's payload permits self-attestation. -/
def PermitsSelf (taskPayload : Json) : Prop :=
  ∃ allowed, taskPayload.get "self_attestation_explicitly_allowed" =
    (.ok allowed : Except Err Json) ∧ allowed.truthy = true

/-- A payload of the kind passes under the mode. -/
structure CanPass (env : Env) (taskPayload : Json) (m : AttestationMode) (kind : String) :
    Prop where
  handled : kind ∈ handledKinds m
  presence : m = .cryptographicPresence → Presentable env taskPayload
  self : kind = "self_attestation_with_waiver" → PermitsSelf taskPayload

/-- Evidence that no sensor kind finds anything missing in. -/
def sensorPayload : Json := .obj [
  ("track", .arr [.obj [("t", .int 0), ("x", .int 0), ("y", .int 0)]]),
  ("before_kg", .int 1),
  ("after_kg", .int 1),
  ("photo_hash", .str "h"),
  ("exif", .obj [("datetime", .str "now")]),
  ("recording_hash", .str "h"),
  ("duration_seconds", .int 1),
  ("covered_polygon", .arr [])]

/-- Evidence that no witness kind finds anything missing in, given a text that is not blank. -/
def witnessPayload (text : String) : Json := .obj [
  ("signed_text", .str text),
  ("signature_image_hash", .str "h"),
  ("attesting_app_did", .str "d"),
  ("attestation_payload_hash", .str "h"),
  ("beacon_id", .str "b"),
  ("rssi", .int 1),
  ("observed_at", .str "now")]

/-- Evidence of a presence between two times. -/
def presencePayload (checkIn checkOut : Json) : Json := .obj [
  ("check_in_at", checkIn),
  ("check_out_at", checkOut),
  ("region", .null)]

/-- Evidence that no kind of sign-off finds anything missing in. -/
def signoffPayload : Json := .obj [
  ("signing_party_did", .str "d"),
  ("signed_token", .str "s"),
  ("issued_at", .str "now"),
  ("waiver_text", .str "w"),
  ("signed_by_worker", .str "s")]

theorem sensorWitnessVerify_passes :
    ∀ k ∈ handledKinds .sensorWitness, sensorWitnessVerify k sensorPayload = .ok .pass := by
  simp only [handledKinds, List.forall_mem_cons]
  exact ⟨rfl, rfl, rfl, rfl, rfl, rfl, rfl, nofun⟩

theorem thirdPartyWitnessVerify_passes {text : String} (h : env.unicode.strip text.toList ≠ []) :
    ∀ k ∈ handledKinds .thirdPartyWitness,
      thirdPartyWitnessVerify env k (witnessPayload text) = .ok .pass := by
  simp only [handledKinds, List.forall_mem_cons]
  refine ⟨?_, rfl, rfl, nofun⟩
  show (if env.unicode.strip text.toList = [] then
    pure (VerificationOutcome.fail ["signed_text is empty"])
    else pure .pass : Except Err VerificationOutcome) = .ok .pass
  rw [if_neg h]
  rfl

theorem ownerSignoffVerify_passes {k : String} (hk : k ∈ handledKinds .ownerSignOff)
    (hself : k = "self_attestation_with_waiver" → PermitsSelf taskPayload) :
    ownerSignoffVerify k signoffPayload taskPayload = .ok .pass := by
  simp only [handledKinds, List.mem_cons, List.not_mem_nil, or_false] at hk
  rcases hk with rfl | rfl
  · rfl
  · obtain ⟨allowed, hallowed, htruthy⟩ := hself rfl
    rw [ownerSignoffVerify, if_neg (by decide), if_pos rfl, bind_eq_ok]
    refine ⟨allowed, hallowed, ?_⟩
    rw [if_pos htruthy]
    rfl

theorem cryptographicPresenceVerify_passes {k : String}
    (hk : k ∈ handledKinds .cryptographicPresence) (h : Presentable env taskPayload) :
    ∃ payload, cryptographicPresenceVerify env k payload taskPayload = .ok .pass := by
  obtain ⟨checkIn, checkOut, tIn, tOut, t, required, hin, hout, ht, hpos, hrequired, henough⟩ := h
  simp only [handledKinds, List.mem_cons, List.not_mem_nil, or_false] at hk
  refine ⟨presencePayload checkIn checkOut, ?_⟩
  have hfields : firstMissing (presencePayload checkIn checkOut)
      ["check_in_at", "check_out_at", "region"] = .ok none := rfl
  have hparse : parsePresence env (presencePayload checkIn checkOut) = .ok (.ok (tIn, tOut)) := by
    have hitems : (do
        let tIn ← parseIso env (← (presencePayload checkIn checkOut).item "check_in_at")
        let tOut ← parseIso env (← (presencePayload checkIn checkOut).item "check_out_at")
        return (tIn, tOut) : Except Err (DateTime × DateTime)) = .ok (tIn, tOut) := by
      simp only [bind_eq_ok]
      exact ⟨checkIn, rfl, tIn, hin, checkOut, rfl, tOut, hout, rfl⟩
    unfold parsePresence
    rw [hitems]
  rw [cryptographicPresenceVerify, if_pos hk, bind_eq_ok]
  refine ⟨none, hfields, ?_⟩
  dsimp only
  rw [bind_eq_ok]
  refine ⟨.ok (tIn, tOut), hparse, ?_⟩
  dsimp only
  rw [bind_eq_ok]
  refine ⟨t, ht, ?_⟩
  rw [if_neg (by omega), bind_eq_ok]
  refine ⟨required, hrequired, ?_⟩
  cases hminutes : required.asInt with
  | none => rfl
  | some minutes =>
      dsimp only
      rw [henough minutes hminutes]
      rfl

theorem CanPass.exists_payload {m : AttestationMode} {k text : String}
    (h : CanPass env taskPayload m k) (htext : env.unicode.strip text.toList ≠ []) :
    ∃ payload, dispatchMode env m k payload taskPayload = .ok .pass := by
  cases m with
  | sensorWitness => exact ⟨sensorPayload, sensorWitnessVerify_passes k h.handled⟩
  | thirdPartyWitness =>
      exact ⟨witnessPayload text, thirdPartyWitnessVerify_passes htext k h.handled⟩
  | cryptographicPresence => exact cryptographicPresenceVerify_passes h.handled (h.presence rfl)
  | ownerSignOff => exact ⟨signoffPayload, ownerSignoffVerify_passes h.handled h.self⟩

theorem parsePresence_eq_ok {payload : Json} {tIn tOut : DateTime}
    (h : parsePresence env payload = .ok (.ok (tIn, tOut))) :
    ∃ checkIn checkOut, parseIso env checkIn = .ok tIn ∧ parseIso env checkOut = .ok tOut := by
  unfold parsePresence at h
  dsimp only at h
  split at h
  · next hparsed =>
      cases h
      simp only [bind_eq_ok] at hparsed
      obtain ⟨checkIn, -, _, hin, checkOut, -, _, hout, hpair⟩ := hparsed
      cases hpair
      exact ⟨checkIn, checkOut, hin, hout⟩
  · cases h
  · cases h

theorem Presentable.of_pass {k : String} {payload : Json} {outcome : VerificationOutcome}
    (h : cryptographicPresenceVerify env k payload taskPayload = .ok outcome)
    (hpass : outcome.decision = .pass) : Presentable env taskPayload := by
  unfold cryptographicPresenceVerify at h
  split at h
  · obtain ⟨missing, -, h⟩ := bind_eq_ok.1 h
    cases missing with
    | some r =>
        cases h
        cases hpass
    | none =>
        obtain ⟨parsed, hparsed, h⟩ := bind_eq_ok.1 h
        cases parsed with
        | error message =>
            cases h
            cases hpass
        | ok times =>
            obtain ⟨checkIn, checkOut, hin, hout⟩ := parsePresence_eq_ok hparsed
            obtain ⟨t, ht, h⟩ := bind_eq_ok.1 h
            split at h
            · cases h
              cases hpass
            · next hpos =>
                obtain ⟨required, hrequired, h⟩ := bind_eq_ok.1 h
                refine ⟨checkIn, checkOut, times.1, times.2, t, required, hin, hout, ht, by omega,
                  hrequired, fun minutes hminutes => ?_⟩
                rw [hminutes] at h
                obtain ⟨below, hbelow, h⟩ := bind_eq_ok.1 h
                cases below with
                | false => exact hbelow
                | true =>
                    cases h
                    cases hpass
  · cases h
    cases hpass

theorem dispatchMode_unhandled {m : AttestationMode} {k : String} (hk : k ∉ handledKinds m)
    (payload : Json) :
    ∃ reasons, dispatchMode env m k payload taskPayload = .ok (.fail reasons) := by
  cases m with
  | sensorWitness =>
      simp only [handledKinds, List.mem_cons, List.not_mem_nil, or_false, not_or] at hk
      simp only [dispatchMode, sensorWitnessVerify, hk, or_self, if_false]
      exact ⟨_, rfl⟩
  | thirdPartyWitness =>
      simp only [handledKinds, List.mem_cons, List.not_mem_nil, or_false, not_or] at hk
      simp only [dispatchMode, thirdPartyWitnessVerify, hk, if_false]
      exact ⟨_, rfl⟩
  | cryptographicPresence =>
      simp only [handledKinds, List.mem_cons, List.not_mem_nil, or_false, not_or] at hk
      simp only [dispatchMode, cryptographicPresenceVerify, hk, or_self, if_false]
      exact ⟨_, rfl⟩
  | ownerSignOff =>
      simp only [handledKinds, List.mem_cons, List.not_mem_nil, or_false, not_or] at hk
      simp only [dispatchMode, ownerSignoffVerify, hk, if_false]
      exact ⟨_, rfl⟩

theorem PermitsSelf.of_pass {payload : Json} {outcome : VerificationOutcome}
    (h : ownerSignoffVerify "self_attestation_with_waiver" payload taskPayload = .ok outcome)
    (hpass : outcome.decision = .pass) : PermitsSelf taskPayload := by
  rw [ownerSignoffVerify, if_neg (by decide), if_pos rfl, bind_eq_ok] at h
  obtain ⟨allowed, hallowed, h⟩ := h
  split at h
  · next htruthy => exact ⟨allowed, hallowed, htruthy⟩
  · cases h
    cases hpass

theorem CanPass.of_pass {m : AttestationMode} {k : String} {payload : Json}
    {outcome : VerificationOutcome} (h : dispatchMode env m k payload taskPayload = .ok outcome)
    (hpass : outcome.decision = .pass) : CanPass env taskPayload m k := by
  have hhandled : k ∈ handledKinds m := by
    by_contra hk
    obtain ⟨reasons, hfail⟩ := @dispatchMode_unhandled env taskPayload m k hk payload
    cases h.symm.trans hfail
    cases hpass
  refine ⟨hhandled, ?_, ?_⟩
  · rintro rfl
    exact Presentable.of_pass h hpass
  · rintro rfl
    cases m with
    | ownerSignOff => exact PermitsSelf.of_pass h hpass
    | sensorWitness => simp [handledKinds] at hhandled
    | thirdPartyWitness => simp [handledKinds] at hhandled
    | cryptographicPresence => simp [handledKinds] at hhandled

theorem handledKinds_registered (hregistry : env.registry = defaultRegistry) (m : AttestationMode) :
    ∀ k ∈ handledKinds m, k ∈ env.kindsOf m.value := by
  unfold Env.kindsOf
  rw [hregistry]
  cases m <;> decide +kernel

theorem AttestationMode.ofValue_value (m : AttestationMode) :
    AttestationMode.ofValue (.str m.value) = some m := by
  cases m <;> decide +kernel

theorem AttestationMode.eq_of_ofValue {mode : Json} {m : AttestationMode}
    (h : AttestationMode.ofValue mode = some m) : mode = .str m.value := by
  unfold AttestationMode.ofValue at h
  simpa using List.find?_some h

theorem verifySingle_pass {mode kind payload : Json} {outcome : VerificationOutcome}
    (h : verifySingle env mode kind payload taskPayload = .ok outcome)
    (hpass : outcome.decision = .pass) :
    ∃ (m : AttestationMode) (k : String), mode = .str m.value ∧ kind = .str k ∧
      CanPass env taskPayload m k := by
  unfold verifySingle at h
  split at h
  · cases h
  · split at h
    · cases h
      cases hpass
    · next m hm =>
        split at h
        · cases h
        · split at h
          · next k _ =>
              split at h
              · exact ⟨m, k, AttestationMode.eq_of_ofValue hm, rfl, CanPass.of_pass h hpass⟩
              · cases h
                cases hpass
          · cases h
            cases hpass

theorem CanPass.exists_verifySingle {m : AttestationMode} {k text : String}
    (h : CanPass env taskPayload m k) (hregistry : env.registry = defaultRegistry)
    (htext : env.unicode.strip text.toList ≠ []) :
    ∃ payload, verifySingle env (.str m.value) (.str k) payload taskPayload = .ok .pass := by
  obtain ⟨payload, hpayload⟩ := h.exists_payload htext
  refine ⟨payload, ?_⟩
  have hregistered := handledKinds_registered hregistry m k h.handled
  rw [verifySingle, if_neg (by simp [Json.hashable]), AttestationMode.ofValue_value]
  dsimp only
  rw [if_neg (by simp [Json.hashable]), if_pos hregistered]
  exact hpayload

/-! ## What a requirement asks for -/

/-- The kinds that the evidence schema of a requirement lists for a mode. -/
def schemaKinds (requirement mode : Json) : List Json :=
  ((listed requirement "evidence_schema").filter (entryFor mode)).flatMap fun entry =>
    listed entry "kinds"

/-- An item is of a mode of the requirement, and of a kind listed for it. -/
def AskedFor (requirement ev : Json) : Prop :=
  ∃ mode kind, ev.get "mode" = (.ok mode : Except Err Json) ∧
    ev.get "kind" = (.ok kind : Except Err Json) ∧ mode ∈ listed requirement "modes" ∧
    kind ∈ schemaKinds requirement mode

/-- The schema lists a kind that can pass under a mode. -/
def Satisfiable (env : Env) (requirement taskPayload mode : Json) : Prop :=
  ∃ (m : AttestationMode) (k : String), mode = .str m.value ∧
    .str k ∈ schemaKinds requirement mode ∧ CanPass env taskPayload m k

/-- The thresholds, and what each of them needs. -/
inductive Reachable (env : Env) (requirement taskPayload : Json) : Prop
  | any (hthreshold : requirement.get "threshold" = (.ok (.str "any") : Except Err Json))
      (hmode : ∃ mode ∈ listed requirement "modes", Satisfiable env requirement taskPayload mode)
  | all (hthreshold : requirement.get "threshold" = (.ok (.str "all") : Except Err Json))
      (hmodes : listed requirement "modes" ≠ [])
      (hmode : ∀ mode ∈ listed requirement "modes", Satisfiable env requirement taskPayload mode)
  | quorum (hthreshold : requirement.get "threshold" = (.ok (.str "M-of-N") : Except Err Json))
      (bound : Json) (m : Int) (hbound : requirement.get "M" = (.ok bound : Except Err Json))
      (hm : bound.asInt = some m)
      (hmode : m ≤ 0 ∨
        ∃ mode ∈ listed requirement "modes", Satisfiable env requirement taskPayload mode)

/-- The data of a task's descriptor that the attestation reads. -/
structure Completable (env : Env) (taskJson : Json) : Prop where
  limit : ∃ limit, maxAttempts env taskJson = .ok limit
  reachable : ∀ requirement taskPayload,
    taskJson.getD "attestation_requirement" (.obj []) = (.ok requirement : Except Err Json) →
    taskJson.getD "descriptor_payload" (.obj []) = (.ok taskPayload : Except Err Json) →
    Reachable env requirement taskPayload

/-! ## What a passing decision needs -/

theorem evaluateAll_pass_ne_nil {requirement : Json} {o : Outcomes} {a : VerificationOutcome}
    (h : evaluateAll env requirement o = .ok a) (ha : a.decision = .pass) :
    listed requirement "modes" ≠ [] := by
  simp only [evaluateAll, bind_eq_ok] at h
  obtain ⟨modes, hmodes, required, hrequired, passing, hpassing, h⟩ := h
  have hrequiredModes : required ≠ [] := by
    split_ifs at h with hall hmissing
    · exact hall.1
    · obtain ⟨missing, -, h⟩ := bind_eq_ok.1 h
      cases h
      cases ha
    · cases h
      cases ha
  obtain ⟨xs, hxs, rfl⟩ := Json.toSet_eq_ok hrequired
  rw [listed, bind_eq_ok.2 ⟨modes, hmodes, hxs⟩]
  rintro rfl
  exact hrequiredModes rfl

section Plan

variable {plan : AttestPlan} {claimId : Json}

/-- An item that passes and is asked for shows that its mode can be satisfied. -/
theorem AttestPlan.satisfiable_of_passes {ev : Json} (h : plan.passes env claimId ev = true)
    (hasked : AskedFor plan.requirement ev) :
    ∃ mode ∈ listed plan.requirement "modes", ev.get "mode" = (.ok mode : Except Err Json) ∧
      Satisfiable env plan.requirement plan.taskPayload mode := by
  unfold AttestPlan.passes at h
  split at h
  · next v hv =>
      obtain ⟨header, payload, hcarries, -, -, -, outcome, houtcome, hpass⟩ :=
        EvidenceHeader.exists_of_judge_pass hv (of_decide_eq_true h)
      obtain ⟨mode, kind, hmode, hkind, hlisted, hschema⟩ := hasked
      obtain rfl := Except.ok.inj (hmode.symm.trans hcarries.mode)
      obtain rfl := Except.ok.inj (hkind.symm.trans hcarries.kind)
      obtain ⟨m, k, hm, hk, hcan⟩ := verifySingle_pass houtcome hpass
      exact ⟨_, hlisted, hmode, m, k, hm, hk ▸ hschema, hcan⟩
  · cases h

/-- What a passing decision says about a valid requirement whose items were asked for. -/
theorem AttestPlan.reachable {aggregate : VerificationOutcome}
    (hagg : plan.aggregate env claimId = .ok aggregate) (hpass : aggregate.decision = .pass)
    (hvalid : validateAttestationRequirement env plan.requirement = .ok ())
    (hasked : ∀ ev ∈ plan.items, AskedFor plan.requirement ev) :
    Reachable env plan.requirement plan.taskPayload := by
  obtain ⟨verdicts, hverdicts, hthreshold⟩ := bind_eq_ok.1 hagg
  have : Nonempty EvidenceVerdict := ⟨⟨.null, .pass, none⟩⟩
  obtain ⟨g, hg, rfl⟩ := exists_map_of_mapM hverdicts
  rw [List.map_map] at hthreshold
  have hcount : 1 ≤ countDecision .pass (plan.items.map (EvidenceVerdict.pair ∘ g)) →
      ∃ mode ∈ listed plan.requirement "modes",
        Satisfiable env plan.requirement plan.taskPayload mode := by
    intro hone
    rw [countDecision, List.one_le_countP_iff] at hone
    obtain ⟨p, hp, hdec⟩ := hone
    obtain ⟨ev, hev, rfl⟩ := List.mem_map.1 hp
    have hpasses : plan.passes env claimId ev = true := by
      rw [AttestPlan.passes, hg ev hev]
      exact hdec
    obtain ⟨mode, hmode, -, hsat⟩ := AttestPlan.satisfiable_of_passes hpasses (hasked ev hev)
    exact ⟨mode, hmode, hsat⟩
  obtain ⟨s, hs, hth, hbound⟩ := validateAttestationRequirement_eq_ok hvalid
  obtain ⟨hany, hall, hmn⟩ := evaluateThreshold_pass hth hthreshold hpass
  simp only [List.mem_cons, List.not_mem_nil, or_false] at hs
  rcases hs with rfl | rfl | rfl
  · exact .any hth (hcount (hany rfl))
  · refine .all hth (evaluateAll_pass_ne_nil (hall rfl) hpass) fun mode hmode => ?_
    obtain ⟨ev, hev, hpasses, hof⟩ := AttestPlan.all_covered hagg hpass hth mode hmode
    obtain ⟨mode', -, hof', hsat⟩ := AttestPlan.satisfiable_of_passes hpasses (hasked ev hev)
    obtain rfl := Except.ok.inj (hof.symm.trans hof')
    exact hsat
  · obtain ⟨bound, m, hM, hm⟩ := hbound rfl
    obtain ⟨m', n', hbounds, hmany⟩ := hmn rfl
    cases thresholdBounds_eq hM hm hbounds
    refine .quorum hth bound m hM hm ?_
    by_cases hzero : m ≤ 0
    · exact .inl hzero
    · exact .inr (hcount (by omega))

end Plan

/-! ## What passing evidence adds up to -/

/-- Nothing but passing outcomes. -/
def AllPass (o : Outcomes) : Prop := ∀ p ∈ o, p.2.decision = .pass

theorem AllPass.countDecision {o : Outcomes} (h : AllPass o) (d : VerifierDecision) :
    countDecision d o = if d = .pass then o.length else 0 := by
  unfold Coordinator.countDecision
  split
  · next hd =>
      rw [List.countP_eq_length]
      exact fun p hp => decide_eq_true ((h p hp).trans hd.symm)
  · next hd =>
      rw [List.countP_eq_zero]
      intro p hp hdec
      exact hd ((of_decide_eq_true hdec).symm.trans (h p hp))

theorem AllPass.evaluateAny {o : Outcomes} (h : AllPass o) (hne : o ≠ []) :
    evaluateAny o = .pass := by
  unfold Coordinator.evaluateAny
  rw [if_pos]
  rw [h.countDecision, if_pos rfl]
  exact List.length_pos_iff.2 hne

theorem AllPass.evaluateMofN {o : Outcomes} (h : AllPass o) {m n : Int} (hmn : m ≤ n)
    (hlength : m ≤ o.length) : evaluateMofN m n o = .pass := by
  unfold Coordinator.evaluateMofN
  dsimp only
  rw [if_neg (by omega), if_pos]
  rw [h.countDecision, if_pos rfl]
  exact hlength

theorem AllPass.evaluateAll {requirement : Json} {o : Outcomes} (h : AllPass o)
    (hne : listed requirement "modes" ≠ []) (hnamed : Named o)
    (hcover : ∀ mode ∈ listed requirement "modes", ∃ p ∈ o, p.1 = mode) :
    evaluateAll env requirement o = .ok .pass := by
  obtain ⟨modes, hmodes, hiter⟩ := exists_modes hne
  have hpassing : (ballot o).Covers (listed requirement "modes") := by
    intro mode hmode
    obtain ⟨p, hp, rfl⟩ := hcover mode hmode
    exact mem_ballot.2 ⟨p, hp, rfl, h p hp⟩
  have hhashable : (listed requirement "modes").all Json.hashable = true :=
    List.all_eq_true.2 fun mode hmode =>
      passingModes_hashable hnamed mode (mem_passingModes.2 (hpassing mode hmode))
  have hfail : (ballot o).count .fail = 0 :=
    (count_ballot .fail o).trans (by rw [h.countDecision, if_neg nofun])
  rw [evaluateAll_eq hmodes hiter hhashable hnamed, if_pos ⟨hne, hpassing, hfail⟩]

/-! ## Building the evidence -/

/-- What is documented of the driver and the interpreter, with the registry that is used by
default. -/
structure Env.Serves (env : Env) : Prop where
  registry : env.registry = defaultRegistry
  /-- The driver binds every text without a NUL. -/
  bindsPlain : ∀ s : String, Char.ofNat 0 ∉ s.toList → env.bindText (.str s) = some s
  /-- What is stored can be bound again. -/
  bindsStored : ∀ v s, env.bindText v = some s → env.bindText (.str s) = some s
  /-- Some text is a date. -/
  date : ∃ s d, parseIso env (.str s) = .ok d
  /-- Some text is not blank. -/
  letter : ∃ text : String, env.unicode.strip text.toList ≠ []

/-- The worker can sign every text, under the key of its DID. -/
def HoldsKey (env : Env) (worker : String) : Prop :=
  ∀ resolved, resolve env (.str worker) = .ok resolved → ∀ body,
    ∃ sig : String, Char.ofNat 0 ∉ sig.toList ∧ verify env resolved body (.str sig) = .ok ()

/-- An item carries a signature of a worker over its header. -/
def SignedBy (env : Env) (worker : String) (claimId ev : Json) : Prop :=
  ∃ (header : EvidenceHeader) (payload : Json) (resolved : ResolvedDID), header.Carries ev payload ∧
    resolve env (.str worker) = .ok resolved ∧
    verify env resolved (evidenceBody header.mode header.kind header.payloadHash worker claimId
      header.collectedAt) header.sig = .ok ()

theorem Env.Serves.bindColumn (h : env.Serves) {s : String} (hs : Char.ofNat 0 ∉ s.toList) :
    env.bindColumn (.str s) = some s := by
  rw [Driver.bindColumn, if_neg (fun hnull => by cases hnull)]
  exact h.bindsPlain s hs

theorem handledKinds_plain (m : AttestationMode) :
    ∀ k ∈ handledKinds m, Char.ofNat 0 ∉ k.toList := by
  cases m <;> decide +kernel

section Building

variable {plan : AttestPlan} {claimId : Json}

/-- An item that passes under a mode and leaves a row that the driver accepts. -/
def AttestPlan.Certain (env : Env) (plan : AttestPlan) (claimId mode ev : Json) : Prop :=
  ∃ outcome row, plan.judge env claimId ev = .ok ⟨mode, outcome, some row⟩ ∧
    outcome.decision = .pass ∧ row.binds env = true

/-- A worker can make such an item for every mode that can be satisfied. -/
theorem Satisfiable.exists_item {requirement mode : Json} (hserves : env.Serves)
    (hkey : HoldsKey env plan.claim.workerId)
    (hresolved : resolve env (.str plan.claim.workerId) = .ok plan.resolved)
    (hid : (env.bindColumn claimId).isSome = true)
    (hmode : mode ∈ listed requirement "modes")
    (h : Satisfiable env requirement plan.taskPayload mode) :
    ∃ ev, (AskedFor requirement ev ∧ SignedBy env plan.claim.workerId claimId ev) ∧
      plan.Certain env claimId mode ev := by
  obtain ⟨m, k, rfl, hk, hcan⟩ := h
  obtain ⟨text, htext⟩ := hserves.letter
  obtain ⟨payload, hpayload⟩ := hcan.exists_verifySingle hserves.registry htext
  obtain ⟨date, t, ht⟩ := hserves.date
  obtain ⟨sig, hsig, hverify⟩ := hkey plan.resolved hresolved
    (evidenceBody (.str m.value) (.str k) (.str "h") plan.claim.workerId claimId (.str date))
  let header : EvidenceHeader := ⟨.str m.value, .str k, .str "h", .str date, .str sig⟩
  refine ⟨header.item payload, ⟨⟨.str m.value, .str k, rfl, rfl, hmode, hk⟩, ?_⟩, ?_⟩
  · exact ⟨header, payload, plan.resolved, header.carries_item payload, hresolved, hverify⟩
  · refine ⟨.pass, _, EvidenceHeader.judge_item_eq (h := header) hverify ht
      (AttestationMode.ofValue_value m) hpayload, rfl, ?_⟩
    have hplain := handledKinds_plain m k hcan.handled
    simp only [EvidenceRow.binds, hid, header, hserves.bindColumn hplain, hserves.bindColumn hsig,
      hserves.bindColumn (s := "h") (by decide), Option.isSome_some, Bool.and_self]

theorem AttestPlan.verdicts_certain
    (h : ∀ ev ∈ plan.items, ∃ m : AttestationMode, plan.Certain env claimId (.str m.value) ev) :
    ∃ g : Json → EvidenceVerdict, (∀ ev ∈ plan.items, plan.judge env claimId ev = .ok (g ev)) ∧
      AllPass (plan.items.map (EvidenceVerdict.pair ∘ g)) ∧
      ∀ p ∈ plan.items.map (EvidenceVerdict.pair ∘ g), ∃ s, p.1 = .str s := by
  have : Nonempty EvidenceVerdict := ⟨⟨.null, .pass, none⟩⟩
  have hjudged : ∀ ev ∈ plan.items, ∃ v : EvidenceVerdict, plan.judge env claimId ev = .ok v ∧
      v.outcome.decision = .pass ∧ ∃ s, v.mode = .str s := by
    intro ev hev
    obtain ⟨m, outcome, row, hjudge, hdec, -⟩ := h ev hev
    exact ⟨_, hjudge, hdec, _, rfl⟩
  choose! g hg using hjudged
  refine ⟨g, fun ev hev => (hg ev hev).1, ?_, ?_⟩
  · intro p hp
    obtain ⟨ev, hev, rfl⟩ := List.mem_map.1 hp
    exact (hg ev hev).2.1
  · intro p hp
    obtain ⟨ev, hev, rfl⟩ := List.mem_map.1 hp
    exact (hg ev hev).2.2

theorem AttestPlan.rows_certain {items : List Json}
    (h : ∀ ev ∈ items, ∃ m : AttestationMode, plan.Certain env claimId (.str m.value) ev) :
    ((rowsOf (judgedBefore (plan.judge env claimId) items)).all fun r => r.binds env) = true := by
  induction items with
  | nil => rfl
  | cons ev items ih =>
      obtain ⟨⟨m, outcome, row, hjudge, -, hbinds⟩, hrest⟩ := List.forall_mem_cons.1 h
      rw [judgedBefore, hjudge]
      simp only [rowsOf, List.filterMap_cons, List.all_cons, hbinds, Bool.true_and]
      exact ih hrest

theorem AttestPlan.aggregate_certain
    (h : ∀ ev ∈ plan.items, ∃ m : AttestationMode, plan.Certain env claimId (.str m.value) ev)
    (henough : ∀ o : Outcomes, AllPass o → (∀ p ∈ o, ∃ s, p.1 = .str s) →
      o.length = plan.items.length →
      (∀ ev ∈ plan.items, ∀ mode, plan.Certain env claimId mode ev → ∃ p ∈ o, p.1 = mode) →
      evaluateThreshold env plan.requirement o = .ok .pass) :
    plan.aggregate env claimId = .ok .pass := by
  obtain ⟨g, hg, hpass, hstr⟩ := AttestPlan.verdicts_certain h
  unfold AttestPlan.aggregate AttestPlan.verdicts
  rw [mapM_of_forall hg]
  show evaluateThreshold env plan.requirement ((plan.items.map g).map EvidenceVerdict.pair) = _
  rw [List.map_map]
  refine henough _ hpass hstr (List.length_map _) ?_
  rintro ev hev mode ⟨outcome, row, hjudge, -, -⟩
  refine ⟨_, List.mem_map_of_mem hev, ?_⟩
  rw [hg ev hev] at hjudge
  exact congrArg EvidenceVerdict.mode (Except.ok.inj hjudge)

theorem Reachable.exists_items (hserves : env.Serves) (hkey : HoldsKey env plan.claim.workerId)
    (hresolved : resolve env (.str plan.claim.workerId) = .ok plan.resolved)
    (hid : (env.bindColumn claimId).isSome = true)
    (hvalid : validateAttestationRequirement env plan.requirement = .ok ())
    (h : Reachable env plan.requirement plan.taskPayload) :
    ∃ items : List Json,
      (∀ ev ∈ items, AskedFor plan.requirement ev ∧ SignedBy env plan.claim.workerId claimId ev) ∧
      (∀ ev ∈ items, ∃ m : AttestationMode, plan.Certain env claimId (.str m.value) ev) ∧
      ({ plan with items := items } : AttestPlan).aggregate env claimId = .ok .pass := by
  have hitem : ∀ mode ∈ listed plan.requirement "modes",
      Satisfiable env plan.requirement plan.taskPayload mode → ∃ ev,
        (AskedFor plan.requirement ev ∧ SignedBy env plan.claim.workerId claimId ev) ∧
        plan.Certain env claimId mode ev ∧
        ∃ m : AttestationMode, plan.Certain env claimId (.str m.value) ev := by
    rintro mode hmode hsat
    obtain ⟨m, k, rfl, hk, hcan⟩ := id hsat
    obtain ⟨ev, hasked, hcertain⟩ := hsat.exists_item hserves hkey hresolved hid hmode
    exact ⟨ev, hasked, hcertain, m, hcertain⟩
  cases h with
  | any hth hmode =>
      obtain ⟨mode, hmode, hsat⟩ := hmode
      obtain ⟨ev, hasked, -, hcertain⟩ := hitem mode hmode hsat
      have hall : ∀ x ∈ [ev], ∃ m : AttestationMode, plan.Certain env claimId (.str m.value) x :=
        List.forall_mem_singleton.2 hcertain
      refine ⟨[ev], List.forall_mem_singleton.2 hasked, hall, AttestPlan.aggregate_certain hall ?_⟩
      rintro o hpass - hlength -
      have hne : o ≠ [] := List.ne_nil_of_length_pos (by rw [hlength]; exact Nat.one_pos)
      rw [evaluateThreshold_any hth, hpass.evaluateAny hne]
  | all hth hmodes hmode =>
      have : Nonempty Json := ⟨.null⟩
      choose! f hf using fun mode hmem => hitem mode hmem (hmode mode hmem)
      have hmap : ∀ ev ∈ (listed plan.requirement "modes").map f,
          ∃ mode ∈ listed plan.requirement "modes", f mode = ev := fun ev => List.mem_map.1
      refine ⟨(listed plan.requirement "modes").map f, ?_, ?_, ?_⟩
      · intro ev hev
        obtain ⟨mode, hmode, rfl⟩ := hmap ev hev
        exact (hf mode hmode).1
      · intro ev hev
        obtain ⟨mode, hmode, rfl⟩ := hmap ev hev
        exact (hf mode hmode).2.2
      · refine AttestPlan.aggregate_certain ?_ ?_
        · intro ev hev
          obtain ⟨mode, hmode, rfl⟩ := hmap ev hev
          exact (hf mode hmode).2.2
        · rintro o hpass hstr - hcover
          rw [evaluateThreshold_all hth]
          refine hpass.evaluateAll hmodes hstr fun mode hmode => ?_
          exact hcover (f mode) (List.mem_map_of_mem hmode) mode (hf mode hmode).2.1
  | quorum hth bound m hbound hm hmode =>
      obtain ⟨n, hmn, hbounds⟩ := thresholdBounds_of_valid hvalid hth hbound hm
      rcases hmode with hzero | ⟨mode, hmode, hsat⟩
      · refine ⟨[], nofun, nofun, AttestPlan.aggregate_certain nofun ?_⟩
        rintro o hpass - hlength -
        rw [evaluateThreshold_mOfN hth hbounds, hpass.evaluateMofN hmn (by omega)]
      · obtain ⟨ev, hasked, -, hcertain⟩ := hitem mode hmode hsat
        have hall : ∀ x ∈ List.replicate m.toNat ev,
            ∃ m : AttestationMode, plan.Certain env claimId (.str m.value) x := by
          intro x hx
          rw [List.eq_of_mem_replicate hx]
          exact hcertain
        refine ⟨List.replicate m.toNat ev, ?_, hall, AttestPlan.aggregate_certain hall ?_⟩
        · intro x hx
          rw [List.eq_of_mem_replicate hx]
          exact hasked
        · rintro o hpass - hlength -
          rw [List.length_replicate] at hlength
          rw [evaluateThreshold_mOfN hth hbounds, hpass.evaluateMofN hmn (by omega)]

end Building

/-! ## Runs -/

/-- Every task is named by an entry. -/
def Db.Logged (db : Db) : Prop := ∀ t ∈ db.tasks, ∃ e ∈ db.audit, e.taskId = some t.taskId

theorem Change.logged {call : Call} {db db' : Db} (h : Change env call db db') (hdb : db.Logged) :
    db'.Logged := by
  have hgrown : ∀ entries, db'.audit = db.audit ++ entries → ∀ t ∈ db'.tasks,
      (∃ old ∈ db.tasks, old.taskId = t.taskId) → ∃ e ∈ db'.audit, e.taskId = some t.taskId := by
    rintro entries haudit t - ⟨old, hold, hid⟩
    obtain ⟨e, he, htask⟩ := hdb old hold
    exact ⟨e, haudit ▸ List.mem_append_left entries he, hid ▸ htask⟩
  have hprogressed : ∀ id p entries, db'.tasks = db.progressed id p →
      db'.audit = db.audit ++ entries → db'.Logged := by
    intro id p entries htasks haudit t ht
    refine hgrown _ haudit t ht ?_
    rw [htasks] at ht
    rcases mem_progressed.1 ht with ⟨old, hold, -, rfl⟩ | ⟨hold, -⟩
    · exact ⟨old, hold, rfl⟩
    · exact ⟨t, hold, rfl⟩
  cases h with
  | quiet htasks hclaims haudit =>
      exact fun t ht => hgrown [] (by rw [haudit, List.append_nil]) t ht ⟨t, htasks ▸ ht, rfl⟩
  | posted row entry hchecked hprogress hfresh hentry htasks hclaims haudit hauthor =>
      intro t ht
      have hmem := ht
      rw [htasks, List.mem_append, List.mem_singleton] at hmem
      rcases hmem with hold | rfl
      · exact hgrown _ haudit t ht ⟨t, hold, rfl⟩
      · exact ⟨entry, by rw [haudit]; simp, hauthor.2.taskId⟩
  | claimed t c entry ht hposted hfresh hsame haccepted hid hbinds htype hentry htasks hclaims
      haudit hauthor =>
      exact hprogressed _ _ _ htasks haudit
  | moved c t p entry hholds hmove hreplay hpayload hentry hcall htasks hclaims haudit hauthor =>
      exact hprogressed _ _ _ htasks haudit
  | event c t beat entry eventType hcall htype hholds hstate hentry htasks hclaims haudit hauthor =>
      exact fun t ht => hgrown _ haudit t ht ⟨t, htasks ▸ ht, rfl⟩
  | unrecorded c t p name hholds hmove hname hcall htasks hclaims haudit =>
      exact hprogressed _ _ [] htasks (by rw [haudit, List.append_nil])
  | unheard c t beat hcall hholds hstate htasks hclaims haudit =>
      exact fun t ht => hgrown [] (by rw [haudit, List.append_nil]) t ht ⟨t, htasks ▸ ht, rfl⟩

theorem reach_taskId_bound (env : Env) (workers : List WcpWorker) (calls : List Call) {t : WcpTask}
    (ht : t ∈ (reach env workers calls).db.tasks) : ∃ v, env.bindText v = some t.taskId := by
  obtain ⟨-, hlogged⟩ := @run_changes_invariant env Db.Logged (fun _ => True)
    (fun _ _ _ _ _ hchange => hchange.logged) (initial workers) calls (initial_wellFormed workers)
    (fun _ ht => absurd ht List.not_mem_nil) fun _ _ => trivial
  obtain ⟨e, he, hid⟩ := hlogged t ht
  have hbound := @reach_entries env
    (fun e => ∀ id, e.taskId = some id → ∃ v, env.bindText v = some id)
    (fun _ => True) ?_ workers calls (fun _ _ => trivial) e he
  · exact hbound t.taskId hid
  · rintro call e - ⟨eventType, payload, claimId, taskId, storedType, actorDid, claim, task, micros,
      prev, id, -, -, -, htask, rfl⟩ id' hid'
    have htask' : env.bindNullable taskId = some (some id') := by
      rw [htask, show task = some id' from hid']
    unfold Driver.bindNullable at htask'
    split at htask'
    · cases htask'
    · obtain ⟨s, hs, heq⟩ := Option.map_eq_some_iff.1 htask'
      cases heq
      exact ⟨taskId, hs⟩

section Executing

variable {workers : List WcpWorker} {calls : List Call} {claimId requirement : Json} {c : WcpClaim}
  {t : WcpTask}

theorem reach_requirement_valid (env : Env) (workers : List WcpWorker) (calls : List Call)
    (ht : t ∈ (reach env workers calls).db.tasks)
    (hreq : t.taskJson.getD "attestation_requirement" (.obj []) =
      (.ok requirement : Except Err Json)) :
    validateAttestationRequirement env requirement = .ok () := by
  obtain ⟨-, hvalid⟩ := @run_changes_invariant env (Db.Valid env) (fun _ => True)
    (fun _ _ _ _ _ hchange => hchange.valid) (initial workers) calls (initial_wellFormed workers)
    (fun _ ht => absurd ht List.not_mem_nil) fun _ _ => trivial
  obtain ⟨ms, hobj, hchecked⟩ := hvalid t ht
  rw [hobj] at hreq
  exact Except.ok.inj hreq ▸ hchecked

/-- Where evidence of the listed kinds passes, the claim is named by a scalar and the task is
completable. -/
theorem completable_of_pass {items : List Json} {result : AttestResult}
    (hct : claimAndTask env (reach env workers calls).db claimId = .ok (c, t))
    (hreq : t.taskJson.getD "attestation_requirement" (.obj []) =
      (.ok requirement : Except Err Json))
    (hasked : ∀ ev ∈ items, AskedFor requirement ev)
    (hattest : (attest env claimId (.arr items) (reach env workers calls)).1 = .ok result)
    (hpass : result.verifierDecision = .pass) :
    claimId.hashable = true ∧ Completable env t.taskJson := by
  obtain ⟨-, plan, aggregate, hplan, hagg, -, hstorable, rfl⟩ := attest_eq_ok.1 hattest
  rw [AttestPlan.storable, Bool.and_eq_true] at hstorable
  obtain ⟨_, _, _, -, hbound, -⟩ := stores_eq_true hstorable.1
  refine ⟨hashable_of_bindNullable hbound, ?_⟩
  obtain ⟨hct', -, hreq', hpayload', hlimit, -, hitems⟩ := attestPlan_eq_ok.1 hplan
  obtain ⟨rfl, rfl⟩ := Prod.mk.inj (Except.ok.inj (hct.symm.trans hct'))
  obtain rfl := Except.ok.inj (hreq.symm.trans hreq')
  obtain rfl := Except.ok.inj hitems
  have ht := (claimAndTask_holds hct).1.task
  refine ⟨⟨_, hlimit⟩, fun requirement taskPayload hreq'' hpayload => ?_⟩
  obtain rfl := Except.ok.inj (hreq.symm.trans hreq'')
  obtain rfl := Except.ok.inj (hpayload'.symm.trans hpayload)
  exact AttestPlan.reachable hagg hpass (reach_requirement_valid env workers calls ht hreq) hasked

/-- The worker of a completable task that is executing has evidence that passes, for a call that
names the claim by a scalar. -/
theorem pass_of_completable (hserves : env.Serves) (hkey : HoldsKey env c.workerId)
    (hct : claimAndTask env (reach env workers calls).db claimId = .ok (c, t))
    (hstate : t.state = .executing) (hscalar : claimId.hashable = true)
    (h : Completable env t.taskJson) :
    ∃ items result requirement,
      t.taskJson.getD "attestation_requirement" (.obj []) = (.ok requirement : Except Err Json) ∧
      (∀ ev ∈ items, AskedFor requirement ev ∧ SignedBy env c.workerId claimId ev) ∧
      (attest env claimId (.arr items) (reach env workers calls)).1 = .ok result ∧
      result.verifierDecision = .pass := by
  obtain ⟨hholds, hlookup⟩ := claimAndTask_key hct
  have hbound := bindColumn_of_lookupKey hlookup hscalar
  obtain ⟨ms, hobj⟩ := (reach_lifecycle env workers calls).1.descriptors t hholds.task
  obtain ⟨limit, hlimit⟩ := h.limit
  obtain ⟨resolved, hresolved⟩ := (reach_authorship env workers calls).workers c hholds.claim
  have hreq : t.taskJson.getD "attestation_requirement" (.obj []) =
      (.ok ((ms.lookup "attestation_requirement").getD (.obj [])) : Except Err Json) := by
    rw [hobj]
    rfl
  have hpayload : t.taskJson.getD "descriptor_payload" (.obj []) =
      (.ok ((ms.lookup "descriptor_payload").getD (.obj [])) : Except Err Json) := by
    rw [hobj]
    rfl
  let plan : AttestPlan := ⟨c, t, (ms.lookup "attestation_requirement").getD (.obj []),
    (ms.lookup "descriptor_payload").getD (.obj []), limit, resolved, []⟩
  obtain ⟨items, hasked, hcertain, hagg⟩ := @Reachable.exists_items env plan claimId hserves hkey
    hresolved (by rw [hbound]; rfl) (reach_requirement_valid env workers calls hholds.task hreq)
    (h.reachable _ _ hreq hpayload)
  have hopen : attestCheckState t = .ok () := by
    unfold attestCheckState
    rw [hstate]
    rfl
  have hplan : attestPlan env (reach env workers calls).db claimId (.arr items) =
      .ok { plan with items := items } :=
    attestPlan_eq_ok.2 ⟨hct, hopen, hreq, hpayload, hlimit, hresolved, rfl⟩
  have hstores : ∀ name : String, Char.ofNat 0 ∉ name.toList →
      env.stores (.str name) claimId (.str t.taskId) = true := by
    intro name hname
    obtain ⟨v, hv⟩ := reach_taskId_bound env workers calls hholds.task
    have htask : env.bindNullable (.str t.taskId) = some (some t.taskId) := by
      rw [Driver.bindNullable, if_neg (by simp), hserves.bindsStored v _ hv]
      rfl
    rw [Env.stores, hserves.bindColumn hname, bindNullable_of_bindColumn hbound, htask]
    rfl
  have hstorable :
      ({ plan with items := items } : AttestPlan).storable env claimId .pass = true := by
    simp only [AttestPlan.storable, routeEvent, Option.all_some, plan]
    rw [hstores "attestation_attempt" (by decide +kernel),
      hstores "task_completed" (by decide +kernel)]
    rfl
  exact ⟨items, _, _, hreq, hasked, attest_eq_ok.2 ⟨reach_clean env workers calls, _, _, hplan,
    hagg,
    AttestPlan.rows_certain hcertain, hstorable, rfl⟩, rfl⟩

end Executing

/-- The worker of an executing claim on a posted task has a list of signed items, each of a mode of
the requirement and of a kind listed for it, with which `attest` returns pass, exactly if the call
names the claim by a scalar and the task is completable. -/
theorem completable_iff (env : Env) (workers : List WcpWorker) (calls : List Call) (claimId : Json)
    (c : WcpClaim) (t : WcpTask) (hserves : env.Serves) (hkey : HoldsKey env c.workerId)
    (hct : claimAndTask env (reach env workers calls).db claimId = .ok (c, t))
    (hstate : t.state = .executing) :
    (∃ items result requirement,
      t.taskJson.getD "attestation_requirement" (.obj []) = (.ok requirement : Except Err Json) ∧
      (∀ ev ∈ items, AskedFor requirement ev ∧ SignedBy env c.workerId claimId ev) ∧
      (attest env claimId (.arr items) (reach env workers calls)).1 = .ok result ∧
      result.verifierDecision = .pass) ↔
      claimId.hashable = true ∧ Completable env t.taskJson := by
  constructor
  · rintro ⟨items, result, requirement, hreq, hitems, hattest, hpass⟩
    exact completable_of_pass hct hreq (fun ev hev => (hitems ev hev).1) hattest hpass
  · rintro ⟨hscalar, hcompletable⟩
    exact pass_of_completable hserves hkey hct hstate hscalar hcompletable

/-- One passing item of sensor evidence is enough, of the kinds that are listed. -/
def sensorOf (kinds : List String) : List (String × Json) := anySensor ++ [
  ("evidence_schema", .arr [.obj [
    ("mode", .str "sensor-witness"),
    ("kinds", .arr (kinds.map Json.str))]])]

theorem localEnv_serves : localEnv.Serves where
  registry := rfl
  bindsPlain _ _ := rfl
  bindsStored v s h := by
    cases v with
    | str text =>
        cases h
        rfl
    | _ => cases h
  date := ⟨"2030-01-01T00:00:00Z", .utc newYear2030, by decide +kernel⟩
  letter := ⟨"x", by decide⟩

theorem localEnv_holdsKey : HoldsKey localEnv zeroDid := by
  intro resolved hresolved body
  refine ⟨"ed25519:AAAAAAAAAAAAAAAAAAAAAAAAAAAAAAAAAAAAAAAAAAA", by decide, ?_⟩
  have hkey : ((resolve localEnv (.str zeroDid)).toOption.any fun resolved =>
      decide (verify localEnv resolved "" zeroSig = .ok ())) = true := by decide +kernel
  rw [hresolved] at hkey
  exact (of_decide_eq_true hkey : verify localEnv resolved "" zeroSig = .ok ())

/-- The coverage map of the local run is listed, and so it completes. -/
theorem completable_iff_coverage :
    ∃ c t, claimAndTask localEnv
        (reach localEnv [zeroWorker] (localStart (sensorOf ["coverage_map"]))).db localClaimId =
          .ok (c, t) ∧
      ((∃ items result requirement,
        t.taskJson.getD "attestation_requirement" (.obj []) = (.ok requirement : Except Err Json) ∧
        (∀ ev ∈ items, AskedFor requirement ev ∧ SignedBy localEnv c.workerId localClaimId ev) ∧
        (attest localEnv localClaimId (.arr items)
          (reach localEnv [zeroWorker] (localStart (sensorOf ["coverage_map"])))).1 = .ok result ∧
        result.verifierDecision = .pass) ↔
          localClaimId.hashable = true ∧ Completable localEnv t.taskJson) := by
  have hcheck : ((claimAndTask localEnv
      (reach localEnv [zeroWorker] (localStart (sensorOf ["coverage_map"]))).db
      localClaimId).toOption.any fun ct =>
        decide (ct.1.workerId = zeroDid ∧ ct.2.state = .executing)) = true := by decide +kernel
  obtain ⟨⟨c, t⟩, hct, hchecked⟩ := toOption_any.1 hcheck
  obtain ⟨hworker, hstate⟩ := of_decide_eq_true hchecked
  have hkey : HoldsKey localEnv c.workerId := hworker ▸ localEnv_holdsKey
  exact ⟨c, t, hct, completable_iff localEnv _ _ _ c t localEnv_serves hkey hct hstate⟩

/-- A kind that is registered for the mode, for which the verifier has no branch. -/
def poseTrack : List (String × Json) := sensorOf ["manipulator_pose_track"]

theorem poseTrack_unsatisfiable : ¬ ∃ mode ∈ listed (.obj poseTrack) "modes",
    Satisfiable localEnv (.obj poseTrack) taskPayload mode := by
  rintro ⟨mode, hmode, m, k, hm, hk, hcan⟩
  obtain rfl : mode = .str "sensor-witness" := List.mem_singleton.1 hmode
  have hkinds : schemaKinds (.obj poseTrack) (.str "sensor-witness") =
      [.str "manipulator_pose_track"] := by decide +kernel
  rw [hkinds, List.mem_singleton] at hk
  obtain rfl : k = "manipulator_pose_track" := Json.str.inj hk
  have hunhandled : ∀ m : AttestationMode, "manipulator_pose_track" ∉ handledKinds m := by
    intro m
    cases m <;> decide
  exact hunhandled m hcan.handled

/-- A task whose schema lists a registered kind for its mode is posted, claimed and executed, and
no evidence of that kind ever passes. -/
theorem pose_track_never_passes :
    ∃ c t, claimAndTask localEnv (reach localEnv [zeroWorker] (localStart poseTrack)).db
        localClaimId = .ok (c, t) ∧
      t.state = .executing ∧
      t.taskJson.getD "attestation_requirement" (.obj []) =
        (.ok (.obj poseTrack) : Except Err Json) ∧
      (∀ mode ∈ listed (.obj poseTrack) "modes", schemaKinds (.obj poseTrack) mode ≠ []) ∧
      ∀ items result, (∀ ev ∈ items, AskedFor (.obj poseTrack) ev) →
        (attest localEnv localClaimId (.arr items)
          (reach localEnv [zeroWorker] (localStart poseTrack))).1 = .ok result →
        result.verifierDecision ≠ .pass := by
  have hcheck : ((claimAndTask localEnv (reach localEnv [zeroWorker] (localStart poseTrack)).db
      localClaimId).toOption.any fun ct => decide (ct.2.state = .executing ∧
        ct.2.taskJson.getD "attestation_requirement" (.obj []) =
          (.ok (.obj poseTrack) : Except Err Json) ∧
        ct.2.taskJson.getD "descriptor_payload" (.obj []) = (.ok (.obj []) : Except Err Json))) =
      true := by decide +kernel
  obtain ⟨⟨c, t⟩, hct, hchecked⟩ := toOption_any.1 hcheck
  obtain ⟨hstate, hreq, hpayload⟩ := of_decide_eq_true hchecked
  refine ⟨c, t, hct, hstate, hreq, ?_, fun items result hasked hattest hpass => ?_⟩
  · show ∀ mode ∈ [Json.str "sensor-witness"], _
    simp only [List.forall_mem_singleton]
    decide +kernel
  · obtain ⟨-, hcompletable⟩ := completable_of_pass hct hreq hasked hattest hpass
    have hreachable := hcompletable.reachable _ _ hreq hpayload
    have hthreshold : (Json.obj poseTrack).get "threshold" = (.ok (.str "any") : Except Err Json) :=
      rfl
    cases hreachable with
    | any hth hmode => exact poseTrack_unsatisfiable hmode
    | all hth hmodes hmode =>
        have hall := hthreshold.symm.trans hth
        simp at hall
    | quorum hth bound m hbound hm hmode =>
        have hmn := hthreshold.symm.trans hth
        simp at hmn

end Wcp.Coordinator
