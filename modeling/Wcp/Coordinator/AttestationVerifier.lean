import Wcp.Coordinator.Environment
/-!
# The attestation verifier

`verifySingle` judges one evidence item by its mode and kind; `evaluateThreshold`
aggregates the outcomes of a submission against the task's requirement.  Payloads
arrive unchecked, so a field test on a list or a string is a membership test
there, and a missing method raises.
-/

namespace Wcp.Coordinator

open Wcp.Base

structure VerificationOutcome where
  decision : VerifierDecision
  residual : List (String × Json)
  reasons : List String
deriving DecidableEq

namespace VerificationOutcome

def pass : VerificationOutcome := ⟨.pass, [], []⟩

def fail (reasons : List String) : VerificationOutcome := ⟨.fail, [], reasons⟩

def review (reasons : List String) : VerificationOutcome := ⟨.review, [], reasons⟩

end VerificationOutcome

open VerificationOutcome (pass fail review)

variable (env : Env)

/-- The first of `fields` that is not in `payload`. -/
def firstMissing (payload : Json) : List String → Except Err (Option String)
  | [] => .ok none
  | r :: rs => do
      if ← payload.contains r then firstMissing payload rs else return some r

/-- Evidence that only has to carry some fields. -/
def requireFields (label : String) (payload : Json) (fields : List String) :
    Except Err VerificationOutcome := do
  match ← firstMissing payload fields with
  | some r => return fail [label ++ " missing field: " ++ r]
  | none => return pass

/-! ## sensor-witness -/

/-- Every sample of a track is an object with `t`, `x` and `y`. -/
def checkTrack : List Json → Except Err VerificationOutcome
  | [] => .ok pass
  | .obj ms :: samples => do
      match ← firstMissing (.obj ms) ["t", "x", "y"] with
      | some r => return fail ["track sample missing field: " ++ r]
      | none => checkTrack samples
  | _ :: _ => .ok (fail ["track sample must be an object"])

def sensorWitnessVerify (kind : String) (payload : Json) : Except Err VerificationOutcome :=
  if kind = "gps_track" ∨ kind = "indoor_pose_track" then do
    match ← payload.get "track" with
    | .arr (sample :: samples) => checkTrack (sample :: samples)
    | _ => return fail ["empty or missing track"]
  else if kind = "weight_delta" then do
    let before ← payload.get "before_kg"
    let after ← payload.get "after_kg"
    if before = .null ∨ after = .null then
      return fail ["weight_delta requires before_kg and after_kg"]
    else if before.numeric.isNone ∨ after.numeric.isNone then
      return fail ["before_kg and after_kg must be numeric"]
    else return pass
  else if kind = "photo_with_exif" then do
    let hashHex ← payload.get "photo_hash"
    let exif ← payload.get "exif"
    if hashHex.truthy = false ∨ exif.truthy = false then
      return fail ["photo_with_exif requires photo_hash and exif"]
    else if ← exif.contains "datetime" then return pass
    else return review ["exif missing datetime"]
  else if kind = "signed_sensor_recording" then do
    match ← firstMissing payload ["recording_hash", "duration_seconds"] with
    | some _ =>
        return fail ["signed_sensor_recording requires recording_hash and duration_seconds"]
    | none => return pass
  else if kind = "coverage_map" ∨ kind = "gps_stamped_checkpoint_coverage" then do
    if ← payload.contains "covered_polygon" then return pass
    else if ← payload.contains "checkpoints" then return pass
    else return fail ["coverage evidence requires covered_polygon or checkpoints"]
  else .ok (fail ["sensor-witness verifier: unknown kind " ++ kind])

/-! ## third-party-witness -/

def thirdPartyWitnessVerify (kind : String) (payload : Json) : Except Err VerificationOutcome :=
  if kind = "customer_signature" then do
    match ← firstMissing payload ["signed_text", "signature_image_hash"] with
    | some r => return fail ["customer_signature missing field: " ++ r]
    | none =>
        let text ← (← payload.item "signed_text").asStr
        if env.unicode.strip text.toList = [] then return fail ["signed_text is empty"]
        else return pass
  else if kind = "phone_app_attestation" then
    requireFields "phone_app_attestation" payload
      ["attesting_app_did", "attestation_payload_hash"]
  else if kind = "iot_beacon_proximity" then
    requireFields "iot_beacon_proximity" payload ["beacon_id", "rssi", "observed_at"]
  else .ok (fail ["third-party-witness verifier: unknown kind " ++ kind])

/-! ## cryptographic-presence -/

/-- The double nearest to an integer; too large an integer has none. -/
def intToFloat (i : Int) : Except Err Rat :=
  let r := roundDouble i
  if r.num.natAbs < 2 ^ 1024 * r.den then .ok r else .error .overflowError

/-- `(t_out - t_in).total_seconds() / 60.0`, for a difference in microseconds. -/
def actualMinutes (t : Int) : Rat :=
  roundDouble (roundDouble (mkRat t 1000000) / 60)

/-- `actual_minutes + 1e-6 < required_minutes * 0.9`, in doubles. -/
def belowNinetyPercent (t required : Int) : Except Err Bool := do
  let r ← intToFloat required
  let slack := roundDouble (actualMinutes t + roundDouble (mkRat 1 1000000))
  return decide (slack < roundDouble (r * roundDouble (mkRat 9 10)))

/-- A non-negative number with one decimal. -/
def oneDecimal (q : Rat) : String :=
  let tenths := roundHalfEven (10 * q.num.natAbs) q.den
  Nat.repr (tenths / 10) ++ "." ++ Nat.repr (tenths % 10)

/-- The two timestamps of a presence proof; only a parse error is caught. -/
def parsePresence (payload : Json) : Except Err (Except String (DateTime × DateTime)) :=
  let parsed : Except Err (DateTime × DateTime) := do
    let tIn ← parseIso env (← payload.item "check_in_at")
    let tOut ← parseIso env (← payload.item "check_out_at")
    return (tIn, tOut)
  match parsed with
  | .ok ts => .ok (.ok ts)
  | .error (.valueError message) => .ok (.error message)
  | .error e => .error e

def cryptographicPresenceVerify (kind : String) (payload taskPayload : Json) :
    Except Err VerificationOutcome :=
  if kind = "pose_bounded_presence_proof" ∨ kind = "geofence_check_in_out" then do
    match ← firstMissing payload ["check_in_at", "check_out_at", "region"] with
    | some r => return fail [kind ++ " missing field: " ++ r]
    | none =>
        match ← parsePresence env payload with
        | .error message => return fail ["check_in/out timestamp parse: " ++ message]
        | .ok (tIn, tOut) =>
            let t ← DateTime.difference tOut tIn
            if t ≤ 0 then return fail ["check_out_at must be strictly after check_in_at"]
            else
              let required ← taskPayload.get "duration_minutes"
              match required.asInt with
              | none => return pass
              | some minutes =>
                  if ← belowNinetyPercent t minutes then
                    return review ["presence duration " ++ oneDecimal (actualMinutes t) ++
                      " minutes is below 90% of required " ++ env.str required]
                  else return pass
  else .ok (fail ["cryptographic-presence verifier: unknown kind " ++ kind])

/-! ## owner-sign-off -/

def ownerSignoffVerify (kind : String) (payload taskPayload : Json) :
    Except Err VerificationOutcome :=
  if kind = "whatsapp_business_signed_link" then
    requireFields "whatsapp_business_signed_link" payload
      ["signing_party_did", "signed_token", "issued_at"]
  else if kind = "self_attestation_with_waiver" then do
    let allowed ← taskPayload.get "self_attestation_explicitly_allowed"
    if allowed.truthy then
      requireFields "self_attestation_with_waiver" payload ["waiver_text", "signed_by_worker"]
    else
      return fail ["self_attestation_with_waiver requires explicit " ++
        "self_attestation_explicitly_allowed flag in task_payload"]
  else .ok (fail ["owner-sign-off verifier: unknown kind " ++ kind])

/-! ## Dispatch -/

def dispatchMode (mode : AttestationMode) (kind : String) (payload taskPayload : Json) :
    Except Err VerificationOutcome :=
  match mode with
  | .sensorWitness => sensorWitnessVerify kind payload
  | .thirdPartyWitness => thirdPartyWitnessVerify env kind payload
  | .cryptographicPresence => cryptographicPresenceVerify env kind payload taskPayload
  | .ownerSignOff => ownerSignoffVerify kind payload taskPayload

/-- The kinds registered for a mode. -/
def Env.kindsOf (mode : String) : List String := (env.registry.lookup mode).getD []

def verifySingle (mode kind payload taskPayload : Json) : Except Err VerificationOutcome :=
  if mode.hashable = false then .error .typeError
  else
    match AttestationMode.ofValue mode with
    | none => .ok (fail ["unknown mode: " ++ env.str mode])
    | some m =>
        if kind.hashable = false then .error .typeError
        else
          let unregistered := fail ["kind " ++ env.repr kind ++ " not registered for mode " ++
            env.repr mode]
          match kind with
          | .str k =>
              if k ∈ env.kindsOf m.value then dispatchMode env m k payload taskPayload
              else .ok unregistered
          | _ => .ok unregistered

/-! ## Aggregation -/

/-- Outcomes under their modes, in submission order. -/
abbrev Outcomes := List (Json × VerificationOutcome)

/-- The number of outcomes with a decision. -/
def countDecision (d : VerifierDecision) (outcomes : Outcomes) : Nat :=
  outcomes.countP fun o => o.2.decision = d

def allReasons (outcomes : Outcomes) : List String :=
  outcomes.flatMap fun o => o.2.reasons

/-- Threshold `any`. -/
def evaluateAny (outcomes : Outcomes) : VerificationOutcome :=
  if countDecision .pass outcomes ≥ 1 then pass
  else if countDecision .review outcomes ≥ 1 ∧ countDecision .fail outcomes = 0 then
    review (allReasons outcomes)
  else fail (allReasons outcomes)

/-- Threshold `all`: every required mode has passing evidence, and nothing failed. -/
def evaluateAll (requirement : Json) (outcomes : Outcomes) :
    Except Err VerificationOutcome := do
  let modes ← requirement.get "modes"
  let requiredModes ← (modes.or (.arr [])).toSet
  let passingModes ←
    (Json.arr ((outcomes.filter fun o => o.2.decision = .pass).map (·.1))).toSet
  let failCount := countDecision .fail outcomes
  let missing := Json.difference requiredModes passingModes
  if requiredModes ≠ [] ∧ Json.subset requiredModes passingModes ∧ failCount = 0 then
    return pass
  else if failCount > 0 ∨ missing ≠ [] then
    let missing ← Json.sorted missing
    return fail (allReasons outcomes ++
      if missing ≠ [] then
        ["required mode(s) without passing evidence: " ++ env.repr (.arr missing)]
      else [])
  else return review (allReasons outcomes)

/-- `int(requirement["M"]), int(requirement["N"])`; overflow is the one error not caught. -/
def thresholdBounds (requirement : Json) : Except Err (Option (Int × Int)) :=
  let bounds : Except Err (Int × Int) := do
    let m ← (← requirement.item "M").toInt env.unicode
    let n ← (← requirement.item "N").toInt env.unicode
    return (m, n)
  match bounds with
  | .ok b => .ok (some b)
  | .error .keyError => .ok none
  | .error (.valueError _) => .ok none
  | .error .typeError => .ok none
  | .error e => .error e

/-- Threshold `M-of-N` with integer bounds. -/
def evaluateMofN (m n : Int) (outcomes : Outcomes) :
    VerificationOutcome :=
  let passCount := countDecision .pass outcomes
  if m > n then
    fail ["M > N (" ++ toString m ++ " > " ++ toString n ++ ")"]
  else if passCount ≥ m then pass
  else if passCount + countDecision .review outcomes ≥ m ∧ countDecision .fail outcomes = 0 then
    review (allReasons outcomes)
  else fail (allReasons outcomes)

def evaluateThreshold (requirement : Json) (outcomes : Outcomes) :
    Except Err VerificationOutcome := do
  let threshold ← requirement.getD "threshold" (.str "all")
  if threshold = .str "any" then return evaluateAny outcomes
  else if threshold = .str "all" then evaluateAll env requirement outcomes
  else if threshold = .str "M-of-N" then
    match ← thresholdBounds env requirement with
    | none => return fail ["M-of-N threshold requires integer M and N"]
    | some (m, n) => return evaluateMofN m n outcomes
  else return fail ["unknown threshold: " ++ env.str threshold]

def defaultRegistry : Registry := [
  ("sensor-witness", ["gps_track", "indoor_pose_track", "manipulator_pose_track", "weight_delta",
    "photo_with_exif", "signed_sensor_recording", "coverage_map",
    "gps_stamped_checkpoint_coverage", "thermal_image_capture_manifest"]),
  ("third-party-witness", ["customer_signature", "phone_app_attestation", "iot_beacon_proximity",
    "inspection_checklist_signed"]),
  ("cryptographic-presence", ["pose_bounded_presence_proof", "geofence_check_in_out",
    "cryptographic_nonce_exchange"]),
  ("owner-sign-off", ["self_attestation_with_waiver", "whatsapp_business_signed_link"])]

end Wcp.Coordinator
