import Wcp.Coordinator.AttestationVerifier
import Wcp.Coordinator.AuditChain
import Wcp.Coordinator.CapabilitiesService
/-!
# The task lifecycle

The methods of `TasksService`, statement by statement.  The parts that only read
or compute are `Except` functions, in the order of the source; the writes are
`Action`s, so a raise keeps what was written before it.
-/

namespace Wcp.Coordinator

open Wcp.Base
open Wcp.Base.Exec (ensure)

def heartbeatSeconds : Nat := 15

def missedHeartbeats : Nat := 3

variable (env : Env)

/-! ## tasks/post -/

/-- The bounds of an M-of-N requirement are integers with `M ≤ N`. -/
def validateBounds (req : Json) : Except Err Unit := do
  let m ← req.get "M"
  let n ← req.get "N"
  match m.asInt, n.asInt with
  | some i, some j =>
      ensure (i ≤ j) (.valueError ("INVALID_ATTESTATION_REQUIREMENT: M > N (" ++ env.str m ++
        " > " ++ env.str n ++ ")"))
  | _, _ => throw (.valueError "INVALID_ATTESTATION_REQUIREMENT: M and N must be integers")

/-- Every listed kind is registered for its mode. -/
def validateKinds (mode : Json) (allowed : List String) : List Json → Except Err Unit
  | [] => .ok ()
  | k :: ks =>
      if k.hashable = false then .error .typeError
      else if k ∈ allowed.map Json.str then validateKinds mode allowed ks
      else .error (.valueError ("INVALID_ATTESTATION_REQUIREMENT: kind " ++ env.repr k ++
        " not registered for mode " ++ env.repr mode))

/-- `self._registry.get(mode, set())`. -/
def registeredKinds (mode : Json) : Except Err (List String) :=
  if mode.hashable = false then .error .typeError
  else
    match mode with
    | .str s => .ok (env.kindsOf s)
    | _ => .ok []

/-- Every entry of an evidence schema lists registered kinds. -/
def validateSchema : List Json → Except Err Unit
  | [] => .ok ()
  | entry :: entries => do
      let mode ← entry.get "mode"
      let kinds ← entry.get "kinds"
      let allowed ← registeredKinds env mode
      validateKinds env mode allowed (← (kinds.or (.arr [])).iter)
      validateSchema entries

def validateAttestationRequirement (req : Json) : Except Err Unit := do
  ensure (req.truthy = true)
    (.valueError "INVALID_ATTESTATION_REQUIREMENT: attestation_requirement missing")
  let modes ← req.get "modes"
  ensure ((modes.or (.arr [])).truthy = true)
    (.valueError "INVALID_ATTESTATION_REQUIREMENT: modes empty")
  let threshold ← req.get "threshold"
  ensure (threshold = .str "any" ∨ threshold = .str "all" ∨ threshold = .str "M-of-N")
    (.valueError ("INVALID_ATTESTATION_REQUIREMENT: unknown threshold " ++ env.repr threshold))
  if threshold = .str "M-of-N" then validateBounds env req else Except.ok ()
  let schema ← req.get "evidence_schema"
  validateSchema env (← (schema.or (.arr [])).iter)

/-- Descriptor types the reference coordinator refuses. -/
def outOfScope : List String := ["medical", "defense", "minor_involving", "hazmat_above_consumer"]

/-- Legacy fields refused in an attestation requirement. -/
def legacyFields : List String :=
  ["override_authority", "override_audit_required", "override_allowed"]

/-- No legacy field is in the requirement. -/
def refuseLegacy (req : Json) : List String → Except Err Unit
  | [] => .ok ()
  | legacy :: rest => do
      let present ← req.contains legacy
      ensure (present = false) (.valueError ("INVALID_DESCRIPTOR: attestation_requirement." ++
        legacy ++ " removed at v0.955"))
      refuseLegacy req rest

/-- What `post` has established when it comes to insert the task. -/
structure PostPlan where
  taskId : Json
  task : Json
  postedBy : String
  descriptorType : Json
  expiry : DateTime

/-- The checks of `post`; `fresh` is the id for a task that names none. -/
def postChecks (fresh : String) (task expiry : Json) : Except Err PostPlan := do
  let settlement ← task.contains "settlement"
  ensure (settlement = false)
    (.valueError ("INVALID_DESCRIPTOR: task.settlement removed at v0.955 " ++
    "(settlement is no longer a protocol concern)"))
  let req ← task.getD "attestation_requirement" (.obj [])
  refuseLegacy req legacyFields
  validateAttestationRequirement env req
  let descriptorType ← task.getD "descriptor_type" (.str "")
  ensure (descriptorType ∉ outOfScope.map Json.str)
    (.valueError ("OUT_OF_SCOPE_TASK_CLASS: reference coordinator refuses descriptor_type=" ++
      env.repr descriptorType))
  let subcontract ← task.get "x-subcontract-allowed"
  ensure (subcontract ≠ .bool true)
    (.valueError ("SUBCONTRACT_FORBIDDEN: x-subcontract-allowed=true not " ++
      "WCP-conformant at v0.1"))
  let named ← task.get "task_id"
  let taskId := named.or (.str fresh)
  let task := match task with
    | .obj ms => Json.obj (Json.setItem ms "task_id" taskId)
    | v => v
  let postedBy ← task.get "posted_by"
  ensure (postedBy.truthy = true) (.valueError "INVALID_PARAMS: task.posted_by required")
  let resolved ← resolveOrRefuse env "DID_NOT_RESOLVED: posted_by: " postedBy
  let expiry ← parseIso env expiry
  return ⟨taskId, task, resolved.did, descriptorType, expiry⟩

/-- `list(modes)` under its key in the query, when there are modes. -/
def queryMethods (modes : Json) : Except Err (List (String × Json)) :=
  if modes.truthy then do
    let listed ← modes.iter
    return [("attestation_methods", .arr listed)]
  else .ok []

/-- A member of the query, when its value is truthy. -/
def queryMember (key : String) (tested value : Json) : List (String × Json) :=
  if tested.truthy then [(key, value)] else []

/-- The venue of the constraints, or else that of the payload. -/
def queryVenue (task constraints : Json) : Except Err Json := do
  let location ← constraints.get "location"
  let constrained ← (location.or (.obj [])).get "venue_id"
  if constrained.truthy then return constrained
  else
    let payload ← task.get "descriptor_payload"
    (payload.or (.obj [])).get "venue_id"

/-- The capability query that `_count_eligible` derives from a task. -/
def capabilityQuery (task constraints : Json) : Except Err Json := do
  let attestationReq ← task.get "attestation_requirement"
  let modes ← (attestationReq.or (.obj [])).get "modes"
  let methods ← queryMethods modes
  let descriptorType ← task.get "descriptor_type"
  let venue ← queryVenue task constraints
  let required ← constraints.get "required_certifications"
  return .obj (methods ++ queryMember "descriptor_types" descriptorType (.arr [descriptorType]) ++
    queryMember "location_venue_id" venue venue ++ queryMember "certifications" required required)

def countEligible (db : Db) (task : Json) : Except Err Nat := do
  let constraints ← task.getD "constraints" (.obj [])
  let constraints := constraints.or (.obj [])
  let filter ← constraints.get "worker_class_filter"
  let allowed ← (filter.or (.obj [])).get "allowed"
  let query ← capabilityQuery task constraints
  let workers ← matchingWorkers env db query (allowed.or (.arr []))
  return workers.length

/-- Insert the row of a posted task; the database refuses a value it cannot bind and an id
that is taken. -/
def insertTask (plan : PostPlan) (postedAt : DateTime) : Action Unit := fun w =>
  match env.bindColumn plan.taskId, env.bindColumn (.str plan.postedBy),
      env.bindColumn (plan.descriptorType.or (.str "unknown")) with
  | some taskId, some _, some descriptorType =>
      if (w.db.findTask taskId).isSome then (.error (.raised .database), w)
      else
        (.ok (), { w with db := { w.db with
          tasks := w.db.tasks ++ [{
            taskId := taskId
            postedBy := plan.postedBy
            descriptorType := descriptorType
            taskJson := plan.task
            expiry := env.storeTime plan.expiry
            state := .posted
            attestationAttemptsUsed := 0
            postedAt := env.storeTime postedAt }] } })
  | _, _, _ => (.error (.raised .database), w)

def postedPayload (plan : PostPlan) (accountingRef informational : Json) : Json :=
  .obj ([("task_id", plan.taskId), ("accounting_ref", accountingRef)] ++
    (if informational.truthy then [("informational", informational)] else []) ++
    match plan.task with
    | .obj ms =>
        match ms.lookup "continuation_of" with
        | some v => [("continuation_of", v)]
        | none => []
    | _ => [])

def post (task expiry informational : Json) : Action Json := do
  let fresh ← uuid4 env
  let plan ← Exec.lift (postChecks env fresh task expiry)
  let postedAt ← utcnow env
  insertTask env plan postedAt
  let accountingRef ← Exec.lift (plan.task.get "accounting_ref")
  let _ ← append env (.str "task_posted") plan.postedBy
    (postedPayload plan accountingRef informational) .null plan.taskId none
  let eligible ← readDb fun db => countEligible env db plan.task
  return .obj [
    ("task_id", plan.taskId),
    ("eligible_workers_count", .int eligible),
    ("posted_at", .str postedAt.isoformat)]

/-! ## tasks/claim -/

def claimLoadTask (db : Db) (taskId : Json) : Except Err WcpTask := do
  match ← db.getTask env taskId with
  | none => throw (.raised (.taskNotFound (env.str taskId)))
  | some task => do
      ensure (task.state = .posted)
        (if task.state = .claimed then .raised (.taskPreempted
          ("task " ++ env.str taskId ++ " already claimed by another worker"))
        else .raised (.taskStateInvalid
          ("task " ++ env.str taskId ++ " state is " ++ task.state.value ++ ", not posted")))
      return task

def claimCheckExpiry (taskId : Json) (task : WcpTask) (now : DateTime) : Except Err Unit := do
  let expired ← task.expiry.assumeUtc.less now
  ensure (expired = false)
    (.raised (.taskStateInvalid ("task " ++ env.str taskId ++ " expired")))

/-- The worker of a claim request is registered and does not deal with itself. -/
def claimLoadWorker (db : Db) (task : WcpTask) (workerId : Json) : Except Err WcpWorker := do
  match ← db.getWorker env workerId with
  | none => throw (.valueError ("DID_NOT_RESOLVED: worker " ++ env.repr workerId))
  | some worker => do
      if task.postedBy = worker.principalId then
        let req ← task.taskJson.getD "attestation_requirement" (.obj [])
        let modes ← req.get "modes"
        let witnessed ← (modes.or (.arr [])).contains "third-party-witness"
        ensure (witnessed = true)
          (.valueError ("POLICY_VIOLATION: self-dealing detected " ++
            "(posted_by == worker.principal_id) and " ++
            "attestation_requirement lacks third-party-witness"))
      else Except.ok ()
      return worker

/-- The body a worker signs to accept a task. -/
def claimBody (taskId workerId eta bid payloadHash signedAt : Json) : String :=
  canonical (.obj [
    ("task_id", taskId),
    ("worker_id", workerId),
    ("eta", eta),
    ("bid", bid),
    ("payload_hash", payloadHash),
    ("signed_at", signedAt)])

/-- The acceptance of a claim request is signed by the worker it names. -/
def claimVerifyAcceptance (taskId workerId eta acceptanceAttestation bid : Json) :
    Except Err ResolvedDID := do
  let sig ← acceptanceAttestation.get "sig"
  let payloadHash ← acceptanceAttestation.get "payload_hash"
  let signedAt ← acceptanceAttestation.get "signed_at"
  ensure (sig.truthy = true ∧ payloadHash.truthy = true ∧ signedAt.truthy = true)
    (.valueError "UNAUTHENTICATED: acceptance_attestation incomplete")
  let checked : Except Err ResolvedDID := do
    let resolved ← resolve env workerId
    verify env resolved (claimBody taskId workerId eta bid payloadHash signedAt) sig
    return resolved
  match checked with
  | .error (.raised (.didResolution message)) =>
      throw (.valueError ("UNAUTHENTICATED: " ++ message))
  | .error (.raised (.signatureVerification message)) =>
      throw (.valueError ("UNAUTHENTICATED: " ++ message))
  | r => r

def claimCheckExisting (db : Db) (taskId : Json) : Except Err Unit := do
  let key ← env.comparedText taskId
  let existing := db.claims.any fun c => decide (some c.taskId = key) && c.accepted
  ensure (existing = false) (.raised (.taskPreempted "another worker already claimed"))

/-- Insert the accepted claim and move the task to `claimed`. -/
def claimWrite (task : WcpTask) (worker : WcpWorker) (eta : DateTime)
    (acceptanceAttestation bid : Json) (now : DateTime) (claimId : String) : Action Unit := fun w =>
  match env.bindNullable bid with
  | none => (.error (.raised .database), w)
  | some bidAmount =>
      if (w.db.findClaim claimId).isSome then (.error (.raised .database), w)
      else
        (.ok (), { w with db := { w.db.updateTask task.taskId fun t => { t with state := .claimed }
          with claims := w.db.claims ++ [{
            claimId := claimId
            taskId := task.taskId
            workerId := worker.workerId
            bidAmount := bidAmount
            eta := env.storeTime eta
            acceptanceAttestationJson := acceptanceAttestation
            accepted := true
            lastHeartbeatAt := some (env.storeTime now) }] } })

def claim (taskId workerId eta acceptanceAttestation bid : Json) : Action Json := do
  let task ← readDb fun db => claimLoadTask env db taskId
  let now ← utcnow env
  Exec.lift (claimCheckExpiry env taskId task now)
  let worker ← readDb fun db => claimLoadWorker env db task workerId
  let resolved ← Exec.lift
    (claimVerifyAcceptance env taskId workerId eta acceptanceAttestation bid)
  readDb fun db => claimCheckExisting env db taskId
  let etaTime ← Exec.lift (parseIso env eta)
  let heartbeat ← utcnow env
  let claimId ← uuid4 env
  claimWrite env task worker etaTime acceptanceAttestation bid heartbeat claimId
  let _ ← append env (.str "task_claimed") resolved.did
    (.obj [("task_id", taskId), ("claim_id", .str claimId), ("bid", bid)])
    (.str claimId) taskId none
  return .obj [
    ("claim_id", .str claimId),
    ("accepted", .bool true),
    ("counter", .null),
    ("reason", .null)]

/-! ## tasks/execute -/

def claimAndTask (db : Db) (claimId : Json) : Except Err (WcpClaim × WcpTask) := do
  match ← db.getClaim env claimId with
  | none => throw (.raised (.taskNotFound ("claim " ++ env.str claimId ++ " not found")))
  | some claim =>
      match db.findTask claim.taskId with
      | none => throw (.raised (.taskNotFound ("task " ++ claim.taskId ++ " not found")))
      | some task => return (claim, task)

def setState (task : WcpTask) (state : TaskState) : Action Unit :=
  writeDb fun db => db.updateTask task.taskId fun t => { t with state := state }

/-- Add the row of a session; an id that the driver cannot bind surfaces at the next flush. -/
def insertSession (sessionId : String) (claimId : Json) : Action Unit :=
  match env.bindColumn claimId with
  | some claim => writeDb fun db => { db with sessions := db.sessions ++ [⟨sessionId, claim⟩] }
  | none => doom

def executeOpen (claimId : Json) : Action Json := do
  let (claim, task) ← readDb fun db => claimAndTask env db claimId
  Exec.require (task.state = .claimed ∨ task.state = .supervising)
    (.raised (.taskStateInvalid ("task state is " ++ task.state.value ++ ", cannot open execute")))
  let sessionId ← uuid4 env
  insertSession env sessionId claimId
  setState task .executing
  flush
  let _ ← append env (.str "execution_started") claim.workerId
    (.obj [("claim_id", claimId), ("session_id", .str sessionId)])
    claimId (.str task.taskId) none
  return .obj [("session_id", .str sessionId), ("state", .str TaskState.executing.value)]

def eventBody (claimId eventType timestamp payload : Json) : String :=
  canonical (.obj [
    ("claim_id", claimId),
    ("event_type", eventType),
    ("timestamp", timestamp),
    ("payload", payload)])

/-- The event is signed by the worker of the claim. -/
def eventVerify (claim : WcpClaim) (claimId eventType timestamp payload sig : Json) :
    Except Err Unit := do
  let resolved ← resolve env (.str claim.workerId)
  match verify env resolved (eventBody claimId eventType timestamp payload) sig with
  | .error (.raised (.signatureVerification message)) =>
      throw (.valueError ("UNAUTHENTICATED: " ++ message))
  | r => r

/-- Record the time a heartbeat claims to have been sent at. -/
def recordHeartbeat (claim : WcpClaim) (eventType timestamp : Json) : Action Unit :=
  if eventType = .str "heartbeat" then do
    let sentAt ← Exec.lift (parseIso env timestamp)
    writeDb fun db => db.updateClaim claim.claimId fun c =>
      { c with lastHeartbeatAt := some (env.storeTime sentAt) }
    flush
  else pure ()

def executeEvent (claimId eventType timestamp payload sig : Json) : Action Json := do
  let (claim, task) ← readDb fun db => claimAndTask env db claimId
  Exec.require (task.state = .executing)
    (.raised (.taskStateInvalid ("cannot accept execute event in state " ++ task.state.value)))
  Exec.lift (eventVerify env claim claimId eventType timestamp payload sig)
  recordHeartbeat env claim eventType timestamp
  let _ ← append env eventType claim.workerId payload claimId (.str task.taskId) none
  return .obj [("accepted", .bool true)]

/-- The claims whose task is executing, with the task. -/
def Db.executingRows (db : Db) : List (WcpClaim × WcpTask) :=
  db.claims.filterMap fun c =>
    match db.findTask c.taskId with
    | some t => if t.state = .executing then some (c, t) else none
    | none => none

def coordinatorDid : String := "did:wcp:coordinator"

/-- The body of the loop of `check_heartbeats`: promote a claim whose last heartbeat lies
before the cutoff. -/
def promoteStale (cutoff : DateTime) : List (WcpClaim × WcpTask) → Action (List String)
  | [] => pure []
  | (claim, task) :: rows => do
      match claim.lastHeartbeatAt with
      | none => promoteStale cutoff rows
      | some hb => do
          let stale ← Exec.lift (hb.assumeUtc.less cutoff)
          if stale then do
            setState task .supervising
            let _ ← append env (.str "heartbeat_timeout") coordinatorDid
              (.obj [
                ("claim_id", .str claim.claimId),
                ("last_heartbeat_at", .str hb.isoformat),
                ("handoff_reason", .str "connectivity_lost")])
              (.str claim.claimId) (.str task.taskId) none
            let promoted ← promoteStale cutoff rows
            return claim.claimId :: promoted
          else promoteStale cutoff rows

def checkHeartbeats (now : Option DateTime) : Action (List String) := do
  let now ← match now with
    | some now => pure now
    | none => utcnow env
  let cutoff ← Exec.lift (now.minus (heartbeatSeconds * missedHeartbeats * 1000000))
  let staleRows ← readDb fun db => Except.ok db.executingRows
  promoteStale env cutoff staleRows

/-! ## tasks/attest -/

/-- The body a worker signs for an evidence item. -/
def evidenceBody (mode kind payloadHash : Json) (workerId : String) (claimId collectedAt : Json) :
    String :=
  canonical (.obj [
    ("mode", mode),
    ("kind", kind),
    ("payload_hash", payloadHash),
    ("worker_id", .str workerId),
    ("claim_id", claimId),
    ("collected_at", collectedAt)])

/-- The attestation row that goes with an evidence item, values as submitted. -/
structure EvidenceRow where
  claimId : Json
  mode : AttestationMode
  kind : Json
  payloadHash : Json
  sig : Json
  collectedAt : DateTime
  payload : Json

/-- What one turn of the evidence loop computes: the outcome under its mode, and the row to
add when the signature verified. -/
structure EvidenceVerdict where
  mode : Json
  outcome : VerificationOutcome
  row : Option EvidenceRow

/-- Build the attestation row of an item whose signature verified. -/
def evidenceRow (ev claimId mode kind sig payload : Json) : Except Err EvidenceRow := do
  let member ← match AttestationMode.ofValue mode with
    | some m => Except.ok m
    | none => Except.error (.valueError (env.repr mode ++ " is not a valid AttestationMode"))
  let payloadHash ← ev.getD "payload_hash" (.str "")
  let collectedAt ← parseIso env (← ev.item "collected_at")
  return ⟨claimId, member, kind, payloadHash, sig, collectedAt, payload⟩

/-- One turn of the evidence loop of `attest`, under some verifiers. -/
def judgeEvidenceWith (verifiers : Json → Json → Json → Except Err VerificationOutcome)
    (workerId : String) (resolved : ResolvedDID) (claimId ev : Json) :
    Except Err EvidenceVerdict := do
  let mode ← ev.get "mode"
  let kind ← ev.get "kind"
  let payload ← ev.getD "payload" (.obj [])
  let payloadHash ← ev.get "payload_hash"
  let collectedAt ← ev.get "collected_at"
  let sig ← ev.getD "sig" (.str "")
  match verify env resolved
      (evidenceBody mode kind payloadHash workerId claimId collectedAt) sig with
  | .error (.raised (.signatureVerification message)) =>
      return ⟨mode.or (.str "?"), .fail ["signature: " ++ message], none⟩
  | .error e => throw e
  | .ok () => do
      let outcome ← verifiers mode kind payload
      let row ← evidenceRow env ev claimId mode kind sig payload
      return ⟨mode, outcome, some row⟩

/-- One turn of the evidence loop of `attest`. -/
def judgeEvidence (workerId : String) (resolved : ResolvedDID) (claimId taskPayload ev : Json) :
    Except Err EvidenceVerdict :=
  judgeEvidenceWith env (fun mode kind payload => verifySingle env mode kind payload taskPayload)
    workerId resolved claimId ev

/-- Add the attestation row of an item; a value the driver cannot bind surfaces at the next
flush. -/
def recordEvidence (claim : WcpClaim) (outcome : VerificationOutcome) (row : EvidenceRow) :
    Action Unit := do
  let attestationId ← uuid4 env
  match env.bindColumn row.claimId, env.bindColumn row.kind, env.bindColumn row.payloadHash,
      env.bindColumn row.sig with
  | some claimId, some kind, some payloadHash, some sig =>
      writeDb fun db => { db with
        attestations := db.attestations ++ [{
          attestationId := attestationId
          claimId := claimId
          mode := row.mode
          kind := kind
          payloadHash := payloadHash
          sig := sig
          workerId := claim.workerId
          collectedAt := env.storeTime row.collectedAt
          payloadJson := row.payload
          verifierDecision := outcome.decision
          verifierReasons := outcome.reasons }] }
  | _, _, _, _ => doom

/-- The evidence loop of `attest`. -/
def collectEvidence (claim : WcpClaim) (resolved : ResolvedDID) (claimId taskPayload : Json) :
    List Json → Action (List (Json × VerificationOutcome))
  | [] => pure []
  | ev :: evs => do
      let verdict ← Exec.lift (judgeEvidence env claim.workerId resolved claimId taskPayload ev)
      match verdict.row with
      | some row => recordEvidence env claim verdict.outcome row
      | none => pure ()
      let rest ← collectEvidence claim resolved claimId taskPayload evs
      return (verdict.mode, verdict.outcome) :: rest

/-- `int(task.task_json.get("max_attestation_attempts", 1) or 1)`. -/
def maxAttempts (taskJson : Json) : Except Err Int := do
  let v ← taskJson.getD "max_attestation_attempts" (.int 1)
  (v.or (.int 1)).toInt env.unicode

def attestCheckState (task : WcpTask) : Except Err Unit := do
  ensure (task.state ≠ .voided)
    (.valueError ("RECHECK_MAX_ATTEMPTS_REACHED: claim is voided; " ++
      "post a new task with continuation_of if work should continue"))
  ensure (task.state = .executing ∨ task.state = .supervising ∨ task.state = .rechecking)
    (.raised (.taskStateInvalid ("cannot attest in state " ++ task.state.value)))

/-- Record the attempt: count it and move the task to `attesting`. -/
def beginAttempt (task : WcpTask) : Action Unit :=
  writeDb fun db => db.updateTask task.taskId fun t =>
    { t with attestationAttemptsUsed := t.attestationAttemptsUsed + 1, state := .attesting }

def textsJson (texts : List String) : Json := .arr (texts.map Json.str)

/-- Move the task on according to the decision and the attempts left. -/
def routeDecision (task : WcpTask) (claimId : Json) (attempt : Nat)
    (remaining : Int) (accountingRef : Json) (aggregate : VerificationOutcome) : Action Unit :=
  match aggregate.decision with
  | .pass => do
      setState task .completed
      let _ ← append env (.str "task_completed") coordinatorDid
        (.obj [
          ("claim_id", claimId),
          ("task_id", .str task.taskId),
          ("accounting_ref", accountingRef)])
        claimId (.str task.taskId) none
  | .fail =>
      if remaining > 0 then do
        setState task .rechecking
        let _ ← append env (.str "recheck_requested") coordinatorDid
          (.obj [
            ("claim_id", claimId),
            ("attempt_number_just_failed", .int attempt),
            ("attempts_remaining", .int remaining),
            ("verifier_reasons", textsJson aggregate.reasons)])
          claimId (.str task.taskId) none
      else do
        setState task .voided
        let _ ← append env (.str "task_voided") coordinatorDid
          (.obj [
            ("claim_id", claimId),
            ("task_id", .str task.taskId),
            ("attempts_used", .int attempt),
            ("verifier_reasons", textsJson aggregate.reasons),
            ("accounting_ref", accountingRef)])
          claimId (.str task.taskId) none
  -- a review leaves the task in `attesting`
  | .review => pure ()

/-- The answer of `attest`. -/
structure AttestResult where
  verifierDecision : VerifierDecision
  residual : List (String × Json)
  reasons : List String
  attemptNumber : Nat
  attemptsRemaining : Int
deriving DecidableEq

def AttestResult.toJson (r : AttestResult) : Json :=
  .obj [
    ("verifier_decision", .str r.verifierDecision.value),
    ("residual", .obj r.residual),
    ("reasons", textsJson r.reasons),
    ("attempt_number", .int r.attemptNumber),
    ("attempts_remaining", .int r.attemptsRemaining)]

def attest (claimId attestations : Json) : Action AttestResult := do
  let (claim, task) ← readDb fun db => claimAndTask env db claimId
  Exec.lift (attestCheckState task)
  let req ← Exec.lift (task.taskJson.getD "attestation_requirement" (.obj []))
  let taskPayload ← Exec.lift (task.taskJson.getD "descriptor_payload" (.obj []))
  let limit ← Exec.lift (maxAttempts env task.taskJson)
  let resolved ← Exec.lift (resolve env (.str claim.workerId))
  let items ← Exec.lift attestations.iter
  let outcomes ← collectEvidence env claim resolved claimId taskPayload items
  let aggregate ← Exec.lift (evaluateThreshold env req outcomes)
  let attempt := task.attestationAttemptsUsed + 1
  let remaining := max 0 (limit - attempt)
  beginAttempt task
  let _ ← append env (.str "attestation_attempt") claim.workerId
    (.obj [
      ("claim_id", claimId),
      ("attempt_number", .int attempt),
      ("decision", .str aggregate.decision.value)])
    claimId (.str task.taskId) none
  let accountingRef ← Exec.lift (task.taskJson.get "accounting_ref")
  routeDecision env task claimId attempt remaining accountingRef aggregate
  flush
  return ⟨aggregate.decision, aggregate.residual, aggregate.reasons, attempt, remaining⟩

/-! ## tasks/supervise and tasks/abort -/

/-- The state that `supervise` moves a task to: a handover, or a release back to the worker. -/
def supervisedState (state : TaskState) : TaskState :=
  if state = .executing then .supervising else .executing

def supervise (claimId handoffReason urgency : Json) : Action Json := do
  let (claim, task) ← readDb fun db => claimAndTask env db claimId
  Exec.require (task.state = .executing ∨ task.state = .supervising)
    (.raised (.taskStateInvalid ("cannot supervise from state " ++ task.state.value)))
  setState task (supervisedState task.state)
  flush
  let sessionKey ← uuid4 env
  let _ ← append env (.str "supervision_handoff") claim.workerId
    (.obj [
      ("claim_id", claimId),
      ("handoff_reason", handoffReason),
      ("urgency", urgency),
      ("new_state", .str (supervisedState task.state).value)])
    claimId (.str task.taskId) none
  return .obj [
    ("supervisor_id", .str "did:wcp:rentably-ops"),
    ("session_url", .str ("wss://localhost/wcp/sup/" ++ sessionKey)),
    ("takeover_authority", .str "full")]

def TaskState.isTerminal : TaskState → Bool
  | completed | voided | aborted => true
  | _ => false

def abort (claimId reason stateSnapshot : Json) : Action Json := do
  let (claim, task) ← readDb fun db => claimAndTask env db claimId
  Exec.require (task.state.isTerminal = false)
    (.raised (.taskStateInvalid ("cannot abort from terminal state " ++ task.state.value)))
  setState task .aborted
  let accountingRef ← Exec.lift (task.taskJson.get "accounting_ref")
  flush
  let _ ← append env (.str "task_aborted") claim.workerId
    (.obj [
      ("claim_id", claimId),
      ("task_id", .str task.taskId),
      ("reason", reason),
      ("state_snapshot", stateSnapshot.or (.obj [])),
      ("accounting_ref", accountingRef)])
    claimId (.str task.taskId) none
  let abortId ← uuid4 env
  return .obj [("abort_id", .str abortId)]

/-! ## audit/observe -/

/-- An entry as `observe_audit` shows it. -/
def entryJson (e : WcpAudit) : Json :=
  let text (t : Option String) : Json := match t with
    | some s => .str s
    | none => .null
  .obj [
    ("event_type", .str e.eventType),
    ("actor_did", .str e.actorDid),
    ("timestamp", .str (isoformatNaive e.timestamp)),
    ("payload", e.payloadJson),
    ("payload_hash", .str e.payloadHash),
    ("prev_hash", text e.prevHash),
    ("this_hash", .str e.thisHash),
    ("claim_id", text e.claimId),
    ("task_id", text e.taskId)]

structure ObservedAudit where
  entries : List WcpAudit
  eventTypes : List String
  verifyChainOk : Option Bool
  taskCompletedPayload : Json
  taskVoidedPayload : Json
  taskAbortedPayload : Json
  attestationAttempts : Nat
  attemptVerifierDecisions : List Json

/-- The payload of the first entry of a type, null if there is none. -/
def firstPayload (entries : List WcpAudit) (eventType : String) : Json :=
  match entries.find? fun e => e.eventType = eventType with
  | some e => e.payloadJson
  | none => .null

/-- The decision that an attempt entry carries, when its payload is an object. -/
def attemptDecision (e : WcpAudit) : Option Json :=
  match e.payloadJson with
  | .obj ms => some ((ms.lookup "decision").getD .null)
  | _ => none

/-- The answer drawn from some entries. -/
def observed (rows : List WcpAudit) (verifyOk : Option Bool) : ObservedAudit :=
  let attempts := rows.filter fun e => e.eventType = "attestation_attempt"
  { entries := rows
    eventTypes := rows.map (·.eventType)
    verifyChainOk := verifyOk
    taskCompletedPayload := firstPayload rows "task_completed"
    taskVoidedPayload := firstPayload rows "task_voided"
    taskAbortedPayload := firstPayload rows "task_aborted"
    attestationAttempts := attempts.length
    attemptVerifierDecisions := attempts.filterMap attemptDecision }

def observeAudit (query : Nat) (db : Db) (claimId taskId : Json) : Except Err ObservedAudit := do
  ensure (claimId.truthy = true ∨ taskId.truthy = true)
    (.valueError "INVALID_PARAMS: claim_id or task_id required")
  let key ← env.comparedText (if claimId.truthy then claimId else taskId)
  let rows := env.ascending query (db.audit.filter fun e =>
    key.isSome && decide ((if claimId.truthy then e.claimId else e.taskId) = key))
  let verifyOk := if claimId.truthy then key.map (verifyChain env (query + 1) db) else none
  return observed rows verifyOk

def ObservedAudit.toJson (o : ObservedAudit) : Json :=
  .obj [
    ("entries", .arr (o.entries.map entryJson)),
    ("event_types", textsJson o.eventTypes),
    ("verify_chain_ok", match o.verifyChainOk with
      | some b => .bool b
      | none => .null),
    ("task_completed_payload", o.taskCompletedPayload),
    ("task_voided_payload", o.taskVoidedPayload),
    ("task_aborted_payload", o.taskAbortedPayload),
    ("attestation_attempts", .int o.attestationAttempts),
    ("attempt_verifier_decisions", .arr o.attemptVerifierDecisions)]

end Wcp.Coordinator
