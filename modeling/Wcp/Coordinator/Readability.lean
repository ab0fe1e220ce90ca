import Wcp.Base.JsonShapes
import Wcp.Coordinator.Completability
/-!
# Which payloads the verifiers can read

The verifiers test and convert members of a payload that may be any JSON value.  Where a
value has not the shape that a step expects, the step raises.  `Readable` is the exact
shape under which the verifier of a kind returns an outcome (`verifySingle_returns_iff`).
-/

namespace Wcp.Coordinator

open Wcp.Base
open Wcp.Base.Exec

variable {env : Env} {payload taskPayload : Json}

/-- An integer that a double is near to. -/
def FitsDouble (i : Int) : Prop :=
  (roundDouble i).num.natAbs < 2 ^ 1024 * (roundDouble i).den

instance (i : Int) : Decidable (FitsDouble i) := inferInstanceAs (Decidable (_ < _))

/-- Two timestamps that can be parsed in turn, compared and measured against a duration: a text
that is no timestamp ends it with a failure, a value that is no text with an exception. -/
def ReadableTimes (env : Env) (checkIn checkOut duration : Json) : Prop :=
  (∃ text, checkIn = .str text) ∧ ∀ tIn, parseIso env checkIn = .ok tIn →
    (∃ text, checkOut = .str text) ∧ ∀ tOut, parseIso env checkOut = .ok tOut →
      tOut.offset.isSome = tIn.offset.isSome ∧ (tIn.instant < tOut.instant →
        ∀ minutes, duration.asInt = some minutes → FitsDouble minutes)

/-- A payload of the shape that the verifier of a handled kind expects. -/
def Readable (env : Env) (kind : String) (payload taskPayload : Json) : Prop :=
  if kind ∈ ["gps_track", "indoor_pose_track", "weight_delta"] then payload.isObject = true
  else if kind = "photo_with_exif" then
    payload.isObject = true ∧ ((payload.member "photo_hash").truthy = true →
      (payload.member "exif").truthy = true → (payload.member "exif").searchable = true)
  else if kind = "customer_signature" then
    payload.searchable = true ∧
      (payload.has "signed_text" = true → payload.has "signature_image_hash" = true →
        payload.isObject = true ∧ ∃ text, payload.member "signed_text" = .str text)
  else if kind ∈ handledKinds .cryptographicPresence then
    payload.searchable = true ∧
      (payload.has "check_in_at" = true → payload.has "check_out_at" = true →
        payload.has "region" = true → payload.isObject = true ∧
          ReadableTimes env (payload.member "check_in_at") (payload.member "check_out_at")
            (taskPayload.member "duration_minutes"))
  else if kind = "self_attestation_with_waiver" then
    (taskPayload.member "self_attestation_explicitly_allowed").truthy = true →
      payload.searchable = true
  else payload.searchable = true

/-- The verifier of the kind comes to read the payload of the task. -/
def AsksTask (env : Env) (kind : String) (payload : Json) : Prop :=
  kind = "self_attestation_with_waiver" ∨
    kind ∈ handledKinds .cryptographicPresence ∧ payload.has "check_in_at" = true ∧
      payload.has "check_out_at" = true ∧ payload.has "region" = true ∧
      ∃ tIn tOut, parseIso env (payload.member "check_in_at") = .ok tIn ∧
        parseIso env (payload.member "check_out_at") = .ok tOut ∧ tIn.instant < tOut.instant

theorem not_asksTask {kind : String} (hself : kind ≠ "self_attestation_with_waiver")
    (hpresence : kind ∉ handledKinds .cryptographicPresence) : ¬ AsksTask env kind payload := by
  rintro (h | ⟨h, -⟩)
  · exact hself h
  · exact hpresence h

/-! ## Missing fields -/

theorem firstMissing_eq (h : payload.searchable = true) (fields : List String) :
    firstMissing payload fields = .ok (fields.find? fun r => !payload.has r) := by
  induction fields with
  | nil => rfl
  | cons r rs ih =>
      have hcontains : payload.contains r = (.ok (payload.has r) : Except Err Bool) :=
        Json.contains_eq_ok.2 ⟨h, rfl⟩
      rw [firstMissing, hcontains]
      cases hr : payload.has r with
      | true =>
          rw [List.find?_cons_of_neg (by simp [hr])]
          exact ih
      | false =>
          rw [List.find?_cons_of_pos (by simp [hr])]
          rfl

theorem searchable_of_firstMissing {r : String} {rs : List String} {missing : Option String}
    (h : firstMissing payload (r :: rs) = .ok missing) : payload.searchable = true := by
  obtain ⟨found, hfound, -⟩ := bind_eq_ok.1 h
  exact (Json.contains_eq_ok.1 hfound).1

theorem firstMissing_eq_ok {r : String} {rs : List String} {missing : Option String} :
    firstMissing payload (r :: rs) = .ok missing ↔ payload.searchable = true ∧
      (r :: rs).find? (fun r => !payload.has r) = missing := by
  constructor
  · intro h
    have hsearchable := searchable_of_firstMissing h
    exact ⟨hsearchable, Except.ok.inj ((firstMissing_eq hsearchable _).symm.trans h)⟩
  · rintro ⟨hsearchable, hmissing⟩
    rw [firstMissing_eq hsearchable, hmissing]

/-- After a check for missing fields, what follows it has to return where none is. -/
theorem returns_firstMissing {r : String} {rs : List String} {fail : String → VerificationOutcome}
    {next : Except Err VerificationOutcome} :
    Returns (do
      match ← firstMissing payload (r :: rs) with
      | some r => return fail r
      | none => next) ↔
    payload.searchable = true ∧
      ((∀ field ∈ r :: rs, payload.has field = true) → Returns next) := by
  rw [returns_bind]
  constructor
  · rintro ⟨missing, hmissing, hrest⟩
    obtain ⟨hsearchable, hfind⟩ := firstMissing_eq_ok.1 hmissing
    refine ⟨hsearchable, fun hall => ?_⟩
    have hnone : missing = none := by
      rw [← hfind, List.find?_eq_none]
      exact fun field hfield => by simp [hall field hfield]
    rwa [hnone] at hrest
  · rintro ⟨hsearchable, hnext⟩
    refine ⟨_, firstMissing_eq hsearchable _, ?_⟩
    cases hfind : (r :: rs).find? fun r => !payload.has r with
    | some field => exact returns_pure _
    | none =>
        refine hnext fun field hfield => ?_
        simpa using List.find?_eq_none.1 hfind field hfield

theorem returns_requireFields {label r : String} {rs : List String} :
    Returns (requireFields label payload (r :: rs)) ↔ payload.searchable = true :=
  returns_firstMissing.trans (and_iff_left fun _ => returns_pure _)

/-! ## One kind after the other -/

theorem returns_checkTrack (samples : List Json) : Returns (checkTrack samples) := by
  induction samples with
  | nil => exact returns_ok _
  | cons sample samples ih =>
      cases sample with
      | obj ms => exact returns_firstMissing.2 ⟨rfl, fun _ => ih⟩
      | _ => exact returns_ok _

theorem returns_track {kind : String} (hkind : kind = "gps_track" ∨ kind = "indoor_pose_track") :
    Returns (sensorWitnessVerify kind payload) ↔ payload.isObject = true := by
  rw [sensorWitnessVerify, if_pos hkind, returns_bind]
  constructor
  · rintro ⟨track, htrack, -⟩
    exact (Json.get_eq_ok.1 htrack).1
  · intro hobject
    refine ⟨_, Json.get_eq_ok.2 ⟨hobject, rfl⟩, ?_⟩
    split
    · exact returns_checkTrack _
    · exact returns_pure _

theorem returns_weightDelta :
    Returns (sensorWitnessVerify "weight_delta" payload) ↔ payload.isObject = true := by
  rw [sensorWitnessVerify, if_neg (by decide), if_pos rfl, returns_bind]
  constructor
  · rintro ⟨before, hbefore, -⟩
    exact (Json.get_eq_ok.1 hbefore).1
  · intro hobject
    refine ⟨_, Json.get_eq_ok.2 ⟨hobject, rfl⟩,
      returns_bind.2 ⟨_, Json.get_eq_ok.2 ⟨hobject, rfl⟩, ?_⟩⟩
    split
    · exact returns_pure _
    · split
      · exact returns_pure _
      · exact returns_pure _

theorem returns_photo :
    Returns (sensorWitnessVerify "photo_with_exif" payload) ↔
      payload.isObject = true ∧ ((payload.member "photo_hash").truthy = true →
        (payload.member "exif").truthy = true → (payload.member "exif").searchable = true) := by
  rw [sensorWitnessVerify, if_neg (by decide), if_neg (by decide), if_pos rfl, returns_bind]
  constructor
  · rintro ⟨hashHex, hhash, h⟩
    obtain ⟨exif, hexif, h⟩ := returns_bind.1 h
    obtain ⟨hobject, rfl⟩ := Json.get_eq_ok.1 hhash
    obtain ⟨-, rfl⟩ := Json.get_eq_ok.1 hexif
    refine ⟨hobject, fun hhash hexif => ?_⟩
    rw [if_neg (by simp [hhash, hexif])] at h
    obtain ⟨found, hfound, -⟩ := returns_bind.1 h
    exact (Json.contains_eq_ok.1 hfound).1
  · rintro ⟨hobject, hexif⟩
    refine ⟨_, Json.get_eq_ok.2 ⟨hobject, rfl⟩,
      returns_bind.2 ⟨_, Json.get_eq_ok.2 ⟨hobject, rfl⟩, ?_⟩⟩
    split
    · exact returns_pure _
    · next hboth =>
        simp only [not_or, Bool.not_eq_false] at hboth
        refine returns_bind.2 ⟨_, Json.contains_eq_ok.2 ⟨hexif hboth.1 hboth.2, rfl⟩, ?_⟩
        split
        · exact returns_pure _
        · exact returns_pure _

theorem returns_coverage {kind : String}
    (hkind : kind = "coverage_map" ∨ kind = "gps_stamped_checkpoint_coverage") :
    Returns (sensorWitnessVerify kind payload) ↔ payload.searchable = true := by
  have hothers : sensorWitnessVerify kind payload = (do
      if ← payload.contains "covered_polygon" then return .pass
      else if ← payload.contains "checkpoints" then return .pass
      else return .fail ["coverage evidence requires covered_polygon or checkpoints"]) := by
    rcases hkind with rfl | rfl <;> rfl
  rw [hothers, returns_bind]
  constructor
  · rintro ⟨found, hfound, -⟩
    exact (Json.contains_eq_ok.1 hfound).1
  · intro hsearchable
    refine ⟨_, Json.contains_eq_ok.2 ⟨hsearchable, rfl⟩, ?_⟩
    split
    · exact returns_pure _
    · refine returns_bind.2 ⟨_, Json.contains_eq_ok.2 ⟨hsearchable, rfl⟩, ?_⟩
      split
      · exact returns_pure _
      · exact returns_pure _

theorem returns_customerSignature :
    Returns (thirdPartyWitnessVerify env "customer_signature" payload) ↔
      payload.searchable = true ∧
        (payload.has "signed_text" = true → payload.has "signature_image_hash" = true →
          payload.isObject = true ∧ ∃ text, payload.member "signed_text" = .str text) := by
  rw [thirdPartyWitnessVerify, if_pos rfl]
  refine returns_firstMissing.trans (and_congr_right fun _ => ?_)
  simp only [List.forall_mem_cons, List.not_mem_nil, false_imp_iff, implies_true, and_true, and_imp]
  refine forall_congr' fun htext => forall_congr' fun _ => ?_
  rw [returns_bind]
  constructor
  · rintro ⟨v, hv, h⟩
    obtain ⟨hobject, -, rfl⟩ := Json.item_eq_ok.1 hv
    obtain ⟨text, htext, -⟩ := returns_bind.1 h
    exact ⟨hobject, text, Json.asStr_eq_ok.1 htext⟩
  · rintro ⟨hobject, text, hstr⟩
    refine ⟨_, Json.item_eq_ok.2 ⟨hobject, htext, rfl⟩,
      returns_bind.2 ⟨text, Json.asStr_eq_ok.2 hstr, ?_⟩⟩
    split
    · exact returns_pure _
    · exact returns_pure _

theorem returns_selfAttestation :
    Returns (ownerSignoffVerify "self_attestation_with_waiver" payload taskPayload) ↔
      taskPayload.isObject = true ∧
        ((taskPayload.member "self_attestation_explicitly_allowed").truthy = true →
          payload.searchable = true) := by
  rw [ownerSignoffVerify, if_neg (by decide), if_pos rfl, returns_bind]
  constructor
  · rintro ⟨allowed, hallowed, h⟩
    obtain ⟨hobject, rfl⟩ := Json.get_eq_ok.1 hallowed
    refine ⟨hobject, fun htruthy => ?_⟩
    rw [if_pos htruthy] at h
    exact returns_requireFields.1 h
  · rintro ⟨hobject, hsearchable⟩
    refine ⟨_, Json.get_eq_ok.2 ⟨hobject, rfl⟩, ?_⟩
    split
    · next htruthy => exact returns_requireFields.2 (hsearchable htruthy)
    · exact returns_pure _

/-! ## Presence -/

/-- A text is a timestamp or no timestamp; parsing anything else raises. -/
theorem parseIso_cases (env : Env) (v : Json) :
    (∃ text d, v = .str text ∧ parseIso env v = .ok d) ∨
    (∃ text message, v = .str text ∧ parseIso env v = .error (.valueError message)) ∨
    (∀ text, v ≠ .str text) ∧ parseIso env v = .error .attributeError := by
  cases v with
  | str text =>
      have hparse : parseIso env (.str text) =
          (env.fromisoformat (String.ofList (text.toList.flatMap fun c =>
            if c = 'Z' then "+00:00".toList else [c]))).mapError .valueError := by
        simp only [parseIso, Json.asStr, bind, Except.bind]
        split
        · next d hd =>
            rw [hd]
            rfl
        · next message herror =>
            rw [herror]
            rfl
      rw [hparse]
      cases env.fromisoformat (String.ofList (text.toList.flatMap fun c =>
        if c = 'Z' then "+00:00".toList else [c])) with
      | ok d => exact .inl ⟨text, d, rfl, rfl⟩
      | error message => exact .inr (.inl ⟨text, message, rfl, rfl⟩)
  | _ => exact .inr (.inr ⟨by simp, rfl⟩)

theorem returns_belowNinetyPercent {t required : Int} :
    Returns (belowNinetyPercent t required) ↔ FitsDouble required := by
  have hfloat : intToFloat required =
      if FitsDouble required then .ok (roundDouble required) else .error .overflowError := rfl
  rw [belowNinetyPercent, returns_bind, hfloat]
  by_cases hfits : FitsDouble required
  · rw [if_pos hfits]
    exact ⟨fun _ => hfits, fun _ => ⟨_, rfl, returns_pure _⟩⟩
  · rw [if_neg hfits]
    simp [hfits]

theorem returns_measured {tIn tOut : DateTime} :
    Returns (do
      let t ← DateTime.difference tOut tIn
      if t ≤ 0 then return .fail ["check_out_at must be strictly after check_in_at"]
      else
        let required ← taskPayload.get "duration_minutes"
        match required.asInt with
        | none => return .pass
        | some minutes =>
            if ← belowNinetyPercent t minutes then
              return .review ["presence duration " ++ oneDecimal (actualMinutes t) ++
                " minutes is below 90% of required " ++ env.str required]
            else return .pass : Except Err VerificationOutcome) ↔
    tOut.offset.isSome = tIn.offset.isSome ∧ (tIn.instant < tOut.instant →
      taskPayload.isObject = true ∧
        ∀ minutes, (taskPayload.member "duration_minutes").asInt = some minutes →
          FitsDouble minutes) := by
  rw [returns_bind, DateTime.difference]
  by_cases hcomparable : tOut.offset.isSome = tIn.offset.isSome
  · rw [if_pos hcomparable, and_iff_right hcomparable]
    simp only [Except.ok.injEq, exists_eq_left']
    by_cases hlater : tIn.instant < tOut.instant
    · rw [if_neg (by omega), imp_iff_right hlater, returns_bind]
      constructor
      · rintro ⟨required, hrequired, h⟩
        obtain ⟨hobject, rfl⟩ := Json.get_eq_ok.1 hrequired
        refine ⟨hobject, fun minutes hminutes => ?_⟩
        rw [hminutes] at h
        obtain ⟨below, hbelow, -⟩ := returns_bind.1 h
        exact returns_belowNinetyPercent.1 ⟨below, hbelow⟩
      · rintro ⟨hobject, hfits⟩
        refine ⟨_, Json.get_eq_ok.2 ⟨hobject, rfl⟩, ?_⟩
        cases hminutes : (taskPayload.member "duration_minutes").asInt with
        | none => exact returns_pure _
        | some minutes =>
            obtain ⟨below, hbelow⟩ := returns_belowNinetyPercent.2 (hfits minutes hminutes)
            refine returns_bind.2 ⟨below, hbelow, ?_⟩
            split
            · exact returns_pure _
            · exact returns_pure _
    · rw [if_pos (by omega)]
      exact ⟨fun _ h => absurd h hlater, fun _ => returns_pure _⟩
  · rw [if_neg hcomparable]
    simp [hcomparable]

theorem parsePresence_of_object (hobject : payload.isObject = true)
    (hin : payload.has "check_in_at" = true) (hout : payload.has "check_out_at" = true) :
    parsePresence env payload =
      match (do
        let tIn ← parseIso env (payload.member "check_in_at")
        let tOut ← parseIso env (payload.member "check_out_at")
        return (tIn, tOut) : Except Err (DateTime × DateTime)) with
      | .ok ts => .ok (.ok ts)
      | .error (.valueError message) => .ok (.error message)
      | .error e => .error e := by
  have hcheckIn :
      payload.item "check_in_at" = (.ok (payload.member "check_in_at") : Except Err _) :=
    Json.item_eq_ok.2 ⟨hobject, hin, rfl⟩
  have hcheckOut :
      payload.item "check_out_at" = (.ok (payload.member "check_out_at") : Except Err _) :=
    Json.item_eq_ok.2 ⟨hobject, hout, rfl⟩
  rw [parsePresence, hcheckIn, hcheckOut]
  rfl

/-- What follows the parsing has to return for the times that are found. -/
theorem returns_parsePresence {fail : String → VerificationOutcome}
    {next : DateTime → DateTime → Except Err VerificationOutcome}
    (hin : payload.has "check_in_at" = true) (hout : payload.has "check_out_at" = true) :
    Returns (do
      match ← parsePresence env payload with
      | .error message => return fail message
      | .ok (tIn, tOut) => next tIn tOut) ↔
    payload.isObject = true ∧
      (∃ text, payload.member "check_in_at" = .str text) ∧
      ∀ tIn, parseIso env (payload.member "check_in_at") = .ok tIn →
        (∃ text, payload.member "check_out_at" = .str text) ∧
        ∀ tOut, parseIso env (payload.member "check_out_at") = .ok tOut →
          Returns (next tIn tOut) := by
  by_cases hobject : payload.isObject = true
  · rw [parsePresence_of_object hobject hin hout, and_iff_right hobject]
    rcases parseIso_cases env (payload.member "check_in_at") with
      ⟨text, tIn, htext, htime⟩ | ⟨text, message, htext, htime⟩ | ⟨htext, htime⟩
    · rw [htime, and_iff_right ⟨text, htext⟩]
      simp only [Except.ok.injEq, forall_eq']
      rcases parseIso_cases env (payload.member "check_out_at") with
        ⟨text', tOut, htext', htime'⟩ | ⟨text', message, htext', htime'⟩ | ⟨htext', htime'⟩
      · rw [htime', and_iff_right ⟨text', htext'⟩]
        simp only [Except.ok.injEq, forall_eq']
        exact Iff.rfl
      · rw [htime', and_iff_right ⟨text', htext'⟩]
        exact ⟨fun _ _ h => (nomatch h), fun _ => returns_pure _⟩
      · rw [htime']
        refine iff_of_false ?_ fun h => h.1.elim fun text' h' => htext' text' h'
        exact not_returns_error _
    · rw [htime, and_iff_right ⟨text, htext⟩]
      exact ⟨fun _ _ h => (nomatch h), fun _ => returns_pure _⟩
    · rw [htime]
      refine iff_of_false ?_ fun h => h.1.elim fun text h' => htext text h'
      exact not_returns_error _
  · have hitem : payload.item "check_in_at" = (.error .typeError : Except Err Json) := by
      cases payload with
      | obj ms => exact absurd rfl hobject
      | _ => rfl
    rw [parsePresence, hitem]
    exact iff_of_false (not_returns_error _) fun h => hobject h.1

theorem returns_presence {kind : String} (hkind : kind ∈ handledKinds .cryptographicPresence) :
    Returns (cryptographicPresenceVerify env kind payload taskPayload) ↔
      (payload.searchable = true ∧
        (payload.has "check_in_at" = true → payload.has "check_out_at" = true →
          payload.has "region" = true → payload.isObject = true ∧
            ReadableTimes env (payload.member "check_in_at") (payload.member "check_out_at")
              (taskPayload.member "duration_minutes"))) ∧
      (AsksTask env kind payload → taskPayload.isObject = true) := by
  have hself : kind ≠ "self_attestation_with_waiver" := by
    rintro rfl
    exact absurd hkind (by decide)
  have hasks : AsksTask env kind payload ↔ payload.has "check_in_at" = true ∧
      payload.has "check_out_at" = true ∧ payload.has "region" = true ∧
      ∃ tIn tOut, parseIso env (payload.member "check_in_at") = .ok tIn ∧
        parseIso env (payload.member "check_out_at") = .ok tOut ∧ tIn.instant < tOut.instant := by
    rw [AsksTask, or_iff_right hself, and_iff_right hkind]
  simp only [handledKinds, List.mem_cons, List.not_mem_nil, or_false] at hkind
  rw [cryptographicPresenceVerify, if_pos hkind, hasks]
  refine returns_firstMissing.trans ?_
  simp only [List.forall_mem_cons, List.not_mem_nil, false_imp_iff, implies_true, and_true, and_imp]
  constructor
  · rintro ⟨hsearchable, h⟩
    refine ⟨⟨hsearchable, fun hin hout hregion => ?_⟩, ?_⟩
    · obtain ⟨hobject, htext, htimes⟩ := (returns_parsePresence hin hout).1 (h hin hout hregion)
      refine ⟨hobject, htext, fun tIn hIn => ⟨(htimes tIn hIn).1, fun tOut hOut => ?_⟩⟩
      have hmeasured := returns_measured.1 ((htimes tIn hIn).2 tOut hOut)
      exact ⟨hmeasured.1, fun hlater => (hmeasured.2 hlater).2⟩
    · rintro hin hout hregion ⟨tIn, tOut, hIn, hOut, hlater⟩
      obtain ⟨-, -, htimes⟩ := (returns_parsePresence hin hout).1 (h hin hout hregion)
      exact ((returns_measured.1 ((htimes tIn hIn).2 tOut hOut)).2 hlater).1
  · rintro ⟨⟨hsearchable, h⟩, htask⟩
    refine ⟨hsearchable, fun hin hout hregion => (returns_parsePresence hin hout).2 ?_⟩
    obtain ⟨hobject, htext, htimes⟩ := h hin hout hregion
    refine ⟨hobject, htext, fun tIn hIn => ⟨(htimes tIn hIn).1, fun tOut hOut => ?_⟩⟩
    obtain ⟨hcomparable, hfits⟩ := (htimes tIn hIn).2 tOut hOut
    exact returns_measured.2 ⟨hcomparable, fun hlater =>
      ⟨htask hin hout hregion ⟨tIn, tOut, hIn, hOut, hlater⟩, hfits hlater⟩⟩

/-! ## Every kind -/

/-- The verifier of a mode returns for a handled kind exactly if the payload is readable, and that
of the task is an object where it is asked. -/
theorem returns_dispatchMode {m : AttestationMode} {kind : String}
    (hkind : kind ∈ handledKinds m) :
    Returns (dispatchMode env m kind payload taskPayload) ↔
      Readable env kind payload taskPayload ∧
        (AsksTask env kind payload → taskPayload.isObject = true) := by
  have hquiet : ∀ {verified : Prop}, kind ≠ "self_attestation_with_waiver" →
      kind ∉ handledKinds .cryptographicPresence →
      (verified ↔ Readable env kind payload taskPayload) →
      (verified ↔ Readable env kind payload taskPayload ∧
        (AsksTask env kind payload → taskPayload.isObject = true)) :=
    fun hself hpresence h => h.trans
      (and_iff_left fun hasks => absurd hasks (not_asksTask hself hpresence)).symm
  cases m with
  | sensorWitness =>
      simp only [handledKinds, List.mem_cons, List.not_mem_nil, or_false] at hkind
      rcases hkind with rfl | rfl | rfl | rfl | rfl | rfl | rfl
      · exact hquiet (by decide) (by decide) (returns_track (.inl rfl))
      · exact hquiet (by decide) (by decide) (returns_track (.inr rfl))
      · exact hquiet (by decide) (by decide) returns_weightDelta
      · exact hquiet (by decide) (by decide) returns_photo
      · exact hquiet (by decide) (by decide)
          (returns_firstMissing.trans (and_iff_left fun _ => returns_pure _))
      · exact hquiet (by decide) (by decide) (returns_coverage (.inl rfl))
      · exact hquiet (by decide) (by decide) (returns_coverage (.inr rfl))
  | thirdPartyWitness =>
      simp only [handledKinds, List.mem_cons, List.not_mem_nil, or_false] at hkind
      rcases hkind with rfl | rfl | rfl
      · exact hquiet (by decide) (by decide) returns_customerSignature
      · exact hquiet (by decide) (by decide) returns_requireFields
      · exact hquiet (by decide) (by decide) returns_requireFields
  | cryptographicPresence =>
      have hpresence := @returns_presence env payload taskPayload kind hkind
      simp only [handledKinds, List.mem_cons, List.not_mem_nil, or_false] at hkind
      rcases hkind with rfl | rfl
      · exact hpresence
      · exact hpresence
  | ownerSignOff =>
      simp only [handledKinds, List.mem_cons, List.not_mem_nil, or_false] at hkind
      rcases hkind with rfl | rfl
      · exact hquiet (by decide) (by decide) returns_requireFields
      · refine returns_selfAttestation.trans ⟨?_, ?_⟩
        · rintro ⟨hobject, hsearchable⟩
          exact ⟨hsearchable, fun _ => hobject⟩
        · rintro ⟨hsearchable, hobject⟩
          exact ⟨hobject (.inl rfl), hsearchable⟩

/-- With the default registry an item of evidence is judged, and nothing raised, exactly if its
payload is readable wherever its kind has a verifier. -/
theorem verifySingle_returns_iff (hregistry : env.registry = defaultRegistry) (mode kind : String)
    (payload : Json) (members : List (String × Json)) :
    Returns (verifySingle env (.str mode) (.str kind) payload (.obj members)) ↔
      ∀ m : AttestationMode, m.value = mode → kind ∈ handledKinds m →
        Readable env kind payload (.obj members) := by
  rw [verifySingle, if_neg (by simp [Json.hashable])]
  cases hmode : AttestationMode.ofValue (.str mode) with
  | none =>
      refine iff_of_true (returns_ok _) ?_
      rintro m rfl -
      rw [AttestationMode.ofValue_value] at hmode
      cases hmode
  | some m =>
      have hvalue : mode = m.value := Json.str.inj (AttestationMode.eq_of_ofValue hmode)
      have honly : ∀ m' : AttestationMode, m'.value = mode ↔ m' = m := by
        intro m'
        constructor
        · intro h
          rw [← h, AttestationMode.ofValue_value] at hmode
          exact Option.some.inj hmode
        · rintro rfl
          exact hvalue.symm
      simp only [honly, forall_eq]
      rw [if_neg (by simp [Json.hashable])]
      by_cases hhandled : kind ∈ handledKinds m
      · rw [if_pos (handledKinds_registered hregistry m kind hhandled),
          returns_dispatchMode hhandled, imp_iff_right hhandled]
        exact and_iff_left fun _ => rfl
      · refine iff_of_true ?_ fun h => absurd h hhandled
        split
        · obtain ⟨reasons, hfail⟩ :=
            @dispatchMode_unhandled env (.obj members) m kind hhandled payload
          rw [hfail]
          exact returns_ok _
        · exact returns_ok _

/-- An interpreter that knows two times with a zone and one without. -/
def zonesEnv : Env := { localEnv with
  fromisoformat := fun s =>
    if s = "2030-01-01T00:00:00+00:00" then .ok (.utc newYear2030)
    else if s = "2030-01-01T01:00:00+00:00" then .ok (.utc (newYear2030 + 3600000000))
    else if s = "2030-01-01T01:00:00" then .ok ⟨newYear2030 + 3600000000, none⟩
    else .error "Invalid isoformat string" }

/-- An hour between two times with a zone is judged; with a time that has none it is not. -/
theorem verifySingle_returns_iff_zones :
    Returns (verifySingle zonesEnv (.str "cryptographic-presence") (.str "geofence_check_in_out")
      (presencePayload (.str "2030-01-01T00:00:00Z") (.str "2030-01-01T01:00:00Z"))
      (.obj [("duration_minutes", .int 60)])) ∧
    ¬ Returns (verifySingle zonesEnv (.str "cryptographic-presence") (.str "geofence_check_in_out")
      (presencePayload (.str "2030-01-01T00:00:00Z") (.str "2030-01-01T01:00:00"))
      (.obj [("duration_minutes", .int 60)])) := by
  have hstart : parseIso zonesEnv (.str "2030-01-01T00:00:00Z") = .ok (.utc newYear2030) := by
    decide +kernel
  have haware : parseIso zonesEnv (.str "2030-01-01T01:00:00Z") =
      .ok (.utc (newYear2030 + 3600000000)) := by decide +kernel
  have hnaive : parseIso zonesEnv (.str "2030-01-01T01:00:00") =
      .ok ⟨newYear2030 + 3600000000, none⟩ := by decide +kernel
  have hreadable : ∀ checkIn checkOut,
      Readable zonesEnv "geofence_check_in_out" (presencePayload checkIn checkOut)
        (.obj [("duration_minutes", .int 60)]) ↔
      ReadableTimes zonesEnv checkIn checkOut (.int 60) := by
    intro checkIn checkOut
    unfold Readable
    rw [if_neg (by decide), if_neg (by decide), if_neg (by decide), if_pos (by decide)]
    exact ⟨fun h => (h.2 rfl rfl rfl).2, fun h => ⟨rfl, fun _ _ _ => ⟨rfl, h⟩⟩⟩
  constructor
  · refine (verifySingle_returns_iff rfl _ _ _ _).2 fun _ _ _ => (hreadable _ _).2 ?_
    refine ⟨⟨_, rfl⟩, fun tIn hIn => ⟨⟨_, rfl⟩, fun tOut hOut => ?_⟩⟩
    obtain rfl := Except.ok.inj (hstart.symm.trans hIn)
    obtain rfl := Except.ok.inj (haware.symm.trans hOut)
    refine ⟨rfl, fun _ minutes hminutes => ?_⟩
    obtain rfl : 60 = minutes := Option.some.inj hminutes
    decide +kernel
  · intro hreturns
    have hread := (verifySingle_returns_iff rfl _ _ _ _).1 hreturns .cryptographicPresence rfl
      (by decide)
    obtain ⟨-, htimes⟩ := (hreadable _ _).1 hread
    obtain ⟨-, hout⟩ := htimes _ hstart
    exact absurd (hout _ hnaive).1 (by decide)

/-- A payload that is null has no members to read. -/
theorem null_weight_raises :
    ¬ Returns (verifySingle localEnv (.str "sensor-witness") (.str "weight_delta") .null
      (.obj [])) := by
  have hraises : verifySingle localEnv (.str "sensor-witness") (.str "weight_delta") .null
      (.obj []) = .error .attributeError := by decide +kernel
  rw [hraises]
  exact not_returns_error _

end Wcp.Coordinator
