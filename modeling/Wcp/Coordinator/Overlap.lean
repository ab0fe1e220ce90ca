import Wcp.Base.Interleaving
import Wcp.Coordinator.Chains
import Wcp.Coordinator.Journal
import Wcp.Coordinator.LocalEnvironment
import Wcp.Coordinator.Persistence
/-!
# Calls that overlap on one claim

`attest`, `execute_event`, `supervise` and `abort` as transactions that others may
come between: each query sees what is committed then, the attributes of the
loaded rows are written back as they were set, and everything is published at
commit.  The code takes no lock; the locks of the `UPDATE` statements only make a
writer wait.

Run alone, the stages are the methods (`stages_run`).  Where a transaction that has
written something commits only while no other one is under way, what is committed
is what the methods do one after the other (`overlap_serialisable`).
-/

namespace Wcp.Coordinator

open Wcp.Base
open Wcp.Base.Exec (Ends)

/-! ## Stages -/

/-- What a session keeps to itself: the readings taken, and whether a write is pending that the
next flush will refuse. -/
structure Session where
  tick : Nat
  doomed : Bool

abbrev Stages := Script Err Db Session

namespace Stages

variable {α β : Type} (env : Env)

def query (f : Db → Except Err α) : Stages α := .read fun db => .ret (f db)

/-- A pure computation that may raise. -/
def lift (x : Except Err α) : Stages α := .ret x

/-- Go on only if `c` holds. -/
def require (c : Prop) [Decidable c] (e : Err) : Stages Unit :=
  if c then .ret (.ok ()) else .ret (.error e)

/-- Change rows. -/
def store (f : Db → Db) : Stages Unit := .write f (.ret (.ok ()))

def utcnow : Stages DateTime :=
  .own (fun p => { p with tick := p.tick + 1 }) fun p => .ret (.ok (.utc (env.clock p.tick)))

def uuid4 : Stages String :=
  .own (fun p => { p with tick := p.tick + 1 }) fun p => .ret (.ok (env.uuid p.tick))

def flush : Stages Unit :=
  .own id fun p => .ret (if p.doomed then .error (.raised .database) else .ok ())

def doom : Stages Unit := .own (fun p => { p with doomed := true }) fun _ => .ret (.ok ())

/-- The query for the predecessor of an entry first sends what is pending. -/
def autoflush (claimId : Json) : Stages Unit := if claimId.truthy then flush else pure ()

/-- The query for the predecessor of a new entry. -/
def latestHash (claimId : Json) : Stages (Option String) :=
  .own id fun p => .read fun db => .ret (predecessor env p.tick db claimId)

def append (eventType : Json) (actorDid : String) (payload claimId taskId : Json) :
    Stages AuditAppendResult := do
  let ts ← utcnow env
  let tsUtcNaive ← lift (normalizeTimestamp ts)
  autoflush claimId
  let prevHash ← latestHash env claimId
  let entryId ← uuid4 env
  match env.bindColumn eventType, env.bindNullable claimId, env.bindNullable taskId with
  | some storedType, some claim, some task =>
      let entry := buildEntry env eventType storedType actorDid payload claimId taskId claim task
        tsUtcNaive prevHash entryId
      store fun db => { db with audit := db.audit ++ [entry] }
      flush
      return ⟨entryId, entry.thisHash, prevHash⟩
  | _, _, _ => do
      doom
      flush
      return ⟨entryId, "", prevHash⟩

/-- `_claim_and_task`, two queries. -/
def claimAndTask (claimId : Json) : Stages (WcpClaim × WcpTask) := do
  match ← query fun db => db.getClaim env claimId with
  | none => lift (.error (.raised (.taskNotFound ("claim " ++ env.str claimId ++ " not found"))))
  | some claim =>
      match ← query fun db => Except.ok (db.findTask claim.taskId) with
      | none => lift (.error (.raised (.taskNotFound ("task " ++ claim.taskId ++ " not found"))))
      | some task => return (claim, task)

/-- Write the state of a task back. -/
def setState (task : WcpTask) (state : TaskState) : Stages Unit :=
  store fun db => db.updateTask task.taskId fun t => { t with state := state }

/-! ## The four methods -/

def recordHeartbeat (claim : WcpClaim) (eventType timestamp : Json) : Stages Unit :=
  if eventType = .str "heartbeat" then do
    let sentAt ← lift (parseIso env timestamp)
    store fun db => db.updateClaim claim.claimId fun c =>
      { c with lastHeartbeatAt := some (env.storeTime sentAt) }
    flush
  else pure ()

def executeEvent (claimId eventType timestamp payload sig : Json) : Stages Json := do
  let (claim, task) ← claimAndTask env claimId
  require (task.state = .executing)
    (.raised (.taskStateInvalid ("cannot accept execute event in state " ++ task.state.value)))
  lift (eventVerify env claim claimId eventType timestamp payload sig)
  recordHeartbeat env claim eventType timestamp
  let _ ← append env eventType claim.workerId payload claimId (.str task.taskId)
  return .obj [("accepted", .bool true)]

def recordEvidence (claim : WcpClaim) (outcome : VerificationOutcome) (row : EvidenceRow) :
    Stages Unit := do
  let attestationId ← uuid4 env
  match env.bindColumn row.claimId, env.bindColumn row.kind, env.bindColumn row.payloadHash,
      env.bindColumn row.sig with
  | some claimId, some kind, some payloadHash, some sig =>
      store fun db => { db with
        attestations := db.attestations ++ [{
          attestationId := attestationId
          claimId := claimId
          mode := row.mode
          kind := kind
          payloadHash := payloadHash
          sig := sig
          workerId := claim.workerId
          collectedAt := env.storeTime row.collectedAt
          payloadJson := row.payload
          verifierDecision := outcome.decision
          verifierReasons := outcome.reasons }] }
  | _, _, _, _ => doom

def collectEvidence (claim : WcpClaim) (resolved : ResolvedDID) (claimId taskPayload : Json) :
    List Json → Stages (List (Json × VerificationOutcome))
  | [] => pure []
  | ev :: evs => do
      let verdict ← lift (judgeEvidence env claim.workerId resolved claimId taskPayload ev)
      match verdict.row with
      | some row => recordEvidence env claim verdict.outcome row
      | none => pure ()
      let rest ← collectEvidence claim resolved claimId taskPayload evs
      return (verdict.mode, verdict.outcome) :: rest

/-- Write back the attempt counter that was loaded, plus one. -/
def beginAttempt (task : WcpTask) : Stages Unit :=
  store fun db => db.updateTask task.taskId fun t =>
    { t with attestationAttemptsUsed := task.attestationAttemptsUsed + 1, state := .attesting }

def routeDecision (task : WcpTask) (claimId : Json) (attempt : Nat)
    (remaining : Int) (accountingRef : Json) (aggregate : VerificationOutcome) : Stages Unit :=
  match aggregate.decision with
  | .pass => do
      setState task .completed
      let _ ← append env (.str "task_completed") coordinatorDid
        (.obj [
          ("claim_id", claimId),
          ("task_id", .str task.taskId),
          ("accounting_ref", accountingRef)])
        claimId (.str task.taskId)
  | .fail =>
      if remaining > 0 then do
        setState task .rechecking
        let _ ← append env (.str "recheck_requested") coordinatorDid
          (.obj [
            ("claim_id", claimId),
            ("attempt_number_just_failed", .int attempt),
            ("attempts_remaining", .int remaining),
            ("verifier_reasons", textsJson aggregate.reasons)])
          claimId (.str task.taskId)
      else do
        setState task .voided
        let _ ← append env (.str "task_voided") coordinatorDid
          (.obj [
            ("claim_id", claimId),
            ("task_id", .str task.taskId),
            ("attempts_used", .int attempt),
            ("verifier_reasons", textsJson aggregate.reasons),
            ("accounting_ref", accountingRef)])
          claimId (.str task.taskId)
  | .review => pure ()

def attest (claimId attestations : Json) : Stages AttestResult := do
  let (claim, task) ← claimAndTask env claimId
  lift (attestCheckState task)
  let req ← lift (task.taskJson.getD "attestation_requirement" (.obj []))
  let taskPayload ← lift (task.taskJson.getD "descriptor_payload" (.obj []))
  let limit ← lift (maxAttempts env task.taskJson)
  let resolved ← lift (resolve env (.str claim.workerId))
  let items ← lift attestations.iter
  let outcomes ← collectEvidence env claim resolved claimId taskPayload items
  let aggregate ← lift (evaluateThreshold env req outcomes)
  let attempt := task.attestationAttemptsUsed + 1
  let remaining := max 0 (limit - attempt)
  beginAttempt task
  let _ ← append env (.str "attestation_attempt") claim.workerId
    (.obj [
      ("claim_id", claimId),
      ("attempt_number", .int attempt),
      ("decision", .str aggregate.decision.value)])
    claimId (.str task.taskId)
  let accountingRef ← lift (task.taskJson.get "accounting_ref")
  routeDecision env task claimId attempt remaining accountingRef aggregate
  flush
  return ⟨aggregate.decision, aggregate.residual, aggregate.reasons, attempt, remaining⟩

def supervise (claimId handoffReason urgency : Json) : Stages Json := do
  let (claim, task) ← claimAndTask env claimId
  require (task.state = .executing ∨ task.state = .supervising)
    (.raised (.taskStateInvalid ("cannot supervise from state " ++ task.state.value)))
  setState task (supervisedState task.state)
  flush
  let sessionKey ← uuid4 env
  let _ ← append env (.str "supervision_handoff") claim.workerId
    (.obj [
      ("claim_id", claimId),
      ("handoff_reason", handoffReason),
      ("urgency", urgency),
      ("new_state", .str (supervisedState task.state).value)])
    claimId (.str task.taskId)
  return .obj [
    ("supervisor_id", .str "did:wcp:rentably-ops"),
    ("session_url", .str ("wss://localhost/wcp/sup/" ++ sessionKey)),
    ("takeover_authority", .str "full")]

def abort (claimId reason stateSnapshot : Json) : Stages Json := do
  let (claim, task) ← claimAndTask env claimId
  require (task.state.isTerminal = false)
    (.raised (.taskStateInvalid ("cannot abort from terminal state " ++ task.state.value)))
  setState task .aborted
  let accountingRef ← lift (task.taskJson.get "accounting_ref")
  flush
  let _ ← append env (.str "task_aborted") claim.workerId
    (.obj [
      ("claim_id", claimId),
      ("task_id", .str task.taskId),
      ("reason", reason),
      ("state_snapshot", stateSnapshot.or (.obj [])),
      ("accounting_ref", accountingRef)])
    claimId (.str task.taskId)
  let abortId ← uuid4 env
  return .obj [("abort_id", .str abortId)]

/-! ## Stages run alone -/

variable {env}

/-- Stages in one piece. -/
def run (m : Stages α) : Action α := fun w =>
  match m.exec (w.db, ⟨w.tick, w.doomed⟩) with
  | (r, db, p) => (r, ⟨db, p.tick, p.doomed⟩)

theorem run_bind (m : Stages α) (f : α → Stages β) :
    run (m >>= f) = run m >>= fun a => run (f a) := by
  funext w
  rw [Exec.bind_apply]
  unfold run
  rw [Script.exec_bind, Exec.bind_apply]
  rcases m.exec (w.db, ⟨w.tick, w.doomed⟩) with ⟨_ | a, db, p⟩ <;> rfl

theorem run_flush : run flush = Coordinator.flush := by
  funext w
  obtain ⟨db, tick, doomed⟩ := w
  cases doomed <;> rfl

theorem run_require {c : Prop} [Decidable c] (e : Err) : run (require c e) = Exec.require c e := by
  unfold require Exec.require
  split <;> rfl

theorem run_autoflush (claimId : Json) :
    run (autoflush claimId) = Coordinator.autoflush claimId := by
  unfold autoflush Coordinator.autoflush
  split
  · exact run_flush
  · rfl

theorem run_append (eventType : Json) (actorDid : String) (payload claimId taskId : Json) :
    run (append env eventType actorDid payload claimId taskId) =
      Coordinator.append env eventType actorDid payload claimId taskId none := by
  -- what is left once the entry is decided
  have hstored (f : Db → Db) (r : AuditAppendResult) :
      run (do
        store f
        flush
        return r) = (do
        writeDb f
        Coordinator.flush
        return r) := by
    rw [run_bind]
    refine bind_congr fun _ => ?_
    rw [run_bind, run_flush]
    rfl
  have hdoomed (r : AuditAppendResult) :
      run (do
        doom
        flush
        return r) = (do
        Coordinator.doom
        Coordinator.flush
        return r) := by
    rw [run_bind]
    refine bind_congr fun _ => ?_
    rw [run_bind, run_flush]
    rfl
  unfold append
  rw [run_bind]
  refine bind_congr fun ts => ?_
  rw [run_bind]
  refine bind_congr fun tsUtcNaive => ?_
  rw [run_bind, run_autoflush]
  refine bind_congr fun _ => ?_
  rw [run_bind]
  refine bind_congr fun prevHash => ?_
  rw [run_bind]
  refine bind_congr fun entryId => ?_
  cases env.bindColumn eventType with
  | none => exact hdoomed _
  | some storedType =>
      cases env.bindNullable claimId with
      | none => exact hdoomed _
      | some claim =>
          cases env.bindNullable taskId with
          | none => exact hdoomed _
          | some task => exact hstored _ _

theorem run_query_bind (f : Db → Except Err α) (k : α → Stages β) (w : World) :
    run (query f >>= k) w =
      match f w.db with
      | .ok a => run (k a) w
      | .error e => (.error e, w) := by
  have hquery : run (query f) w = (f w.db, w) := rfl
  rw [run_bind, Exec.bind_apply, hquery]
  cases f w.db <;> rfl

theorem run_claimAndTask (claimId : Json) :
    run (claimAndTask env claimId) = readDb fun db => Coordinator.claimAndTask env db claimId := by
  funext w
  show _ = (Coordinator.claimAndTask env w.db claimId, w)
  unfold claimAndTask Coordinator.claimAndTask
  rw [run_query_bind]
  cases w.db.getClaim env claimId with
  | error e => rfl
  | ok found =>
      cases found with
      | none => rfl
      | some c =>
          dsimp only
          rw [run_query_bind]
          show _ = ((match w.db.findTask c.taskId with
            | none => .error (.raised (.taskNotFound ("task " ++ c.taskId ++ " not found")))
            | some task => .ok (c, task) : Except Err (WcpClaim × WcpTask)), w)
          cases w.db.findTask c.taskId <;> rfl

theorem run_recordHeartbeat (c : WcpClaim) (eventType timestamp : Json) :
    run (recordHeartbeat env c eventType timestamp) =
      Coordinator.recordHeartbeat env c eventType timestamp := by
  unfold recordHeartbeat Coordinator.recordHeartbeat
  split
  · rw [run_bind]
    refine bind_congr fun sentAt => ?_
    rw [run_bind]
    exact bind_congr fun _ => run_flush
  · rfl

theorem run_executeEvent (claimId eventType timestamp payload sig : Json) :
    run (executeEvent env claimId eventType timestamp payload sig) =
      Coordinator.executeEvent env claimId eventType timestamp payload sig := by
  unfold executeEvent Coordinator.executeEvent
  rw [run_bind, run_claimAndTask]
  refine bind_congr fun ⟨c, t⟩ => ?_
  rw [run_bind, run_require]
  refine bind_congr fun _ => ?_
  rw [run_bind]
  refine bind_congr fun _ => ?_
  rw [run_bind, run_recordHeartbeat]
  refine bind_congr fun _ => ?_
  rw [run_bind, run_append]
  exact bind_congr fun _ => rfl

theorem run_supervise (claimId handoffReason urgency : Json) :
    run (supervise env claimId handoffReason urgency) =
      Coordinator.supervise env claimId handoffReason urgency := by
  unfold supervise Coordinator.supervise
  rw [run_bind, run_claimAndTask]
  refine bind_congr fun ⟨c, t⟩ => ?_
  rw [run_bind, run_require]
  refine bind_congr fun _ => ?_
  rw [run_bind]
  refine bind_congr fun _ => ?_
  rw [run_bind, run_flush]
  refine bind_congr fun _ => ?_
  rw [run_bind]
  refine bind_congr fun sessionKey => ?_
  rw [run_bind, run_append]
  exact bind_congr fun _ => rfl

theorem run_abort (claimId reason stateSnapshot : Json) :
    run (abort env claimId reason stateSnapshot) =
      Coordinator.abort env claimId reason stateSnapshot := by
  unfold abort Coordinator.abort
  rw [run_bind, run_claimAndTask]
  refine bind_congr fun ⟨c, t⟩ => ?_
  rw [run_bind, run_require]
  refine bind_congr fun _ => ?_
  rw [run_bind]
  refine bind_congr fun _ => ?_
  rw [run_bind]
  refine bind_congr fun accountingRef => ?_
  rw [run_bind, run_flush]
  refine bind_congr fun _ => ?_
  rw [run_bind, run_append]
  refine bind_congr fun _ => ?_
  rw [run_bind]
  exact bind_congr fun _ => rfl

theorem run_recordEvidence (c : WcpClaim) (outcome : VerificationOutcome) (row : EvidenceRow) :
    run (recordEvidence env c outcome row) = Coordinator.recordEvidence env c outcome row := by
  unfold recordEvidence Coordinator.recordEvidence
  rw [run_bind]
  refine bind_congr fun attestationId => ?_
  cases env.bindColumn row.claimId with
  | none => rfl
  | some claimId =>
      cases env.bindColumn row.kind with
      | none => rfl
      | some kind =>
          cases env.bindColumn row.payloadHash with
          | none => rfl
          | some payloadHash => cases env.bindColumn row.sig <;> rfl

theorem run_collectEvidence (c : WcpClaim) (resolved : ResolvedDID) (claimId taskPayload : Json)
    (evs : List Json) :
    run (collectEvidence env c resolved claimId taskPayload evs) =
      Coordinator.collectEvidence env c resolved claimId taskPayload evs := by
  induction evs with
  | nil => rfl
  | cons ev evs ih =>
      unfold collectEvidence Coordinator.collectEvidence
      rw [run_bind]
      refine bind_congr fun verdict => ?_
      cases verdict.row with
      | none =>
          show run (collectEvidence env c resolved claimId taskPayload evs >>= _) = _
          rw [run_bind, ih]
          exact bind_congr fun _ => rfl
      | some row =>
          dsimp only
          rw [run_bind, run_recordEvidence]
          refine bind_congr fun _ => ?_
          rw [run_bind, ih]
          exact bind_congr fun _ => rfl

theorem run_routeDecision (t : WcpTask) (claimId : Json) (attempt : Nat) (remaining : Int)
    (accountingRef : Json) (aggregate : VerificationOutcome) :
    run (routeDecision env t claimId attempt remaining accountingRef aggregate) =
      Coordinator.routeDecision env t claimId attempt remaining accountingRef aggregate := by
  have hmove (state : TaskState) (eventType payload : Json) :
      run (do
        setState t state
        let _ ← append env eventType coordinatorDid payload claimId (.str t.taskId)) = (do
        Coordinator.setState t state
        let _ ← Coordinator.append env eventType coordinatorDid payload claimId
          (.str t.taskId) none) := by
    rw [run_bind]
    refine bind_congr fun _ => ?_
    rw [run_bind, run_append]
    exact bind_congr fun _ => rfl
  unfold routeDecision Coordinator.routeDecision
  cases aggregate.decision with
  | pass => exact hmove _ _ _
  | fail =>
      dsimp only
      split
      · exact hmove _ _ _
      · exact hmove _ _ _
  | review => rfl

/-- The counter that was loaded, plus one, is the counter of the row, plus one. -/
theorem run_beginAttempt {w : World} {t : WcpTask} (hwf : w.db.WellFormed) (ht : t ∈ w.db.tasks)
    {w' : World} (htasks : w'.db.tasks = w.db.tasks) :
    run (beginAttempt t) w' = Coordinator.beginAttempt t w' := by
  have hrows : w'.db.updateTask t.taskId (fun r =>
        { r with attestationAttemptsUsed := t.attestationAttemptsUsed + 1, state := .attesting }) =
      w'.db.updateTask t.taskId fun r =>
        { r with
          attestationAttemptsUsed := r.attestationAttemptsUsed + 1
          state := .attesting } := by
    unfold Db.updateTask
    rw [htasks]
    congr 1
    refine List.map_congr_left fun r hr => ?_
    by_cases hid : r.taskId = t.taskId
    · rw [hwf.task_eq hr ht hid]
    · rw [if_neg hid, if_neg hid]
  exact congrArg (fun db => (Except.ok (), ({ w' with db := db } : World))) hrows

theorem run_attest {w : World} (hwf : w.db.WellFormed) (claimId attestations : Json) :
    run (attest env claimId attestations) w = Coordinator.attest env claimId attestations w := by
  unfold attest Coordinator.attest
  rw [run_bind, run_claimAndTask]
  refine Ends.bind_eq ?_
  rintro ⟨c, t⟩ hct
  obtain ⟨hholds, -⟩ := claimAndTask_key hct
  show run _ w = _
  rw [run_bind]
  refine Ends.bind_eq fun _ _ => ?_
  show run _ w = _
  rw [run_bind]
  refine Ends.bind_eq fun req _ => ?_
  show run _ w = _
  rw [run_bind]
  refine Ends.bind_eq fun taskPayload _ => ?_
  show run _ w = _
  rw [run_bind]
  refine Ends.bind_eq fun limit _ => ?_
  show run _ w = _
  rw [run_bind]
  refine Ends.bind_eq fun resolved _ => ?_
  show run _ w = _
  rw [run_bind]
  refine Ends.bind_eq fun items _ => ?_
  show run _ w = _
  rw [run_bind, run_collectEvidence]
  refine Ends.bind_eq ?_
  -- the loop only adds rows of attestations
  refine Ends.mono
    (collectEvidence_ends ⟨c, t, req, taskPayload, limit, resolved, items⟩ claimId items) ?_
  rintro r w' ⟨-, hrec⟩ outcomes -
  obtain ⟨added, hdb, -⟩ := hrec.db
  rw [run_bind]
  refine Ends.bind_eq fun aggregate _ => ?_
  show run _ w' = _
  rw [run_bind]
  have hbegin := @run_beginAttempt w t hwf hholds.task w' (by rw [hdb])
  rw [Exec.bind_apply, hbegin, ← Exec.bind_apply]
  refine congrFun (bind_congr fun _ => ?_) w'
  rw [run_bind, run_append]
  refine bind_congr fun _ => ?_
  rw [run_bind]
  refine bind_congr fun accountingRef => ?_
  rw [run_bind, run_routeDecision]
  refine bind_congr fun _ => ?_
  rw [run_bind, run_flush]
  exact bind_congr fun _ => rfl

end Stages

/-! ## Transactions on a claim -/

/-- A call of one of the four methods, on a claim. -/
inductive ClaimCall where
  | attest (attestations : Json)
  | executeEvent (eventType timestamp payload sig : Json)
  | supervise (handoffReason urgency : Json)
  | abort (reason stateSnapshot : Json)

namespace ClaimCall

def call (claimId : String) : ClaimCall → Call
  | attest attestations => .attest (.str claimId) attestations
  | executeEvent eventType timestamp payload sig =>
      .executeEvent (.str claimId) eventType timestamp payload sig
  | supervise handoffReason urgency => .supervise (.str claimId) handoffReason urgency
  | abort reason stateSnapshot => .abort (.str claimId) reason stateSnapshot

def stages (env : Env) (claimId : String) : ClaimCall → Stages Json
  | attest attestations => do
      let answer ← Stages.attest env (.str claimId) attestations
      return answer.toJson
  | executeEvent eventType timestamp payload sig =>
      Stages.executeEvent env (.str claimId) eventType timestamp payload sig
  | supervise handoffReason urgency =>
      Stages.supervise env (.str claimId) handoffReason urgency
  | abort reason stateSnapshot => Stages.abort env (.str claimId) reason stateSnapshot

end ClaimCall

variable {env : Env}

theorem stages_run {w : World} (hwf : w.db.WellFormed) (claimId : String) (request : ClaimCall) :
    (request.stages env claimId).run w = serviceMethod env (request.call claimId) w := by
  cases request with
  | attest attestations =>
      rw [ClaimCall.stages, Stages.run_bind, Exec.bind_apply, Stages.run_attest hwf,
        ← Exec.bind_apply]
      rfl
  | executeEvent eventType timestamp payload sig =>
      exact congrFun (Stages.run_executeEvent _ _ _ _ _) w
  | supervise handoffReason urgency => exact congrFun (Stages.run_supervise _ _ _) w
  | abort reason stateSnapshot => exact congrFun (Stages.run_abort _ _ _) w

/-- Everything is committed, unless the database refuses a write. -/
def commits : Except Err Json → Session → Bool
  | .error (.raised .database), _ => false
  | _, p => !p.doomed

theorem settle_commits (w : World) (r : Except Err Json) (db : Db) (p : Session) :
    (w.settle (r, ⟨db, p.tick, p.doomed⟩)).db = if commits r p then db else w.db := by
  have hkeep : (if p.doomed then ({ w with tick := p.tick, doomed := false } : World)
        else ⟨db, p.tick, false⟩).db = if !p.doomed then db else w.db := by
    cases p.doomed <;> rfl
  cases r with
  | ok reply => exact hkeep
  | error e =>
      cases e with
      | raised x =>
          cases x with
          | database => rfl
          | _ => exact hkeep
      | _ => exact hkeep

/-- Calls on a claim as transactions; each takes readings of its own, from a number on. -/
def claimTransactions {ι : Type} (env : Env) (claimId : String) (requests : ι → ClaimCall)
    (starts : ι → Nat) : Transactions Err Db Session Json ι where
  script i := (requests i).stages env claimId
  start i := ⟨starts i, false⟩
  keeps := commits

theorem transact_claim {ι : Type} (claimId : String) (requests : ι → ClaimCall) (starts : ι → Nat)
    {db : Db} (hwf : db.WellFormed) (i : ι) :
    (claimTransactions env claimId requests starts).transact db i =
      ((serviceMethod env ((requests i).call claimId) ⟨db, starts i, false⟩).1,
        (step env ⟨db, starts i, false⟩ ((requests i).call claimId)).db) := by
  have hrun := @stages_run env ⟨db, starts i, false⟩ hwf claimId (requests i)
  rw [step_eq_settle, ← hrun]
  unfold Transactions.transact Stages.run
  show (match ((requests i).stages env claimId).exec (db, ⟨starts i, false⟩) with
    | (r, s', p) => (r, if commits r p then s' else db)) = _
  rcases ((requests i).stages env claimId).exec (db, ⟨starts i, false⟩) with ⟨r, db', p⟩
  exact congrArg (Prod.mk r) (settle_commits ⟨db, starts i, false⟩ r db' p).symm

/-! ## The chain of a claim -/

/-- How many readings of the clock and ids a call takes at most. -/
def ClaimCall.readings : ClaimCall → Nat
  | .attest attestations =>
      match (attestations.iter : Except Err (List Json)) with
      | .ok items => items.length + 4
      | .error _ => 4
  | _ => 4

/-- A call on a claim whose entries form a chain leaves them a chain. -/
theorem step_chain {c : String} {w : World} (request : ClaimCall)
    (hclock : env.Ticking w.tick (w.tick + request.readings)) (hc : c ≠ "")
    (hchain : w.db.Chain env c) (hpast : w.db.Past env c w.tick) :
    (step env w (request.call c)).db.Chain env c := by
  have h : Chained env c w.tick w := ⟨hchain, hpast, Nat.le_refl _⟩
  cases request with
  | attest attestations =>
      refine Links.settle hchain ?_
      rw [ClaimCall.readings] at hclock
      cases hitems : (attestations.iter : Except Err (List Json)) with
      | error e =>
          rw [hitems] at hclock
          refine @attest_chained env c w.tick _ w hclock hc attestations [] ?_ h (Nat.le_refl _)
          exact fun xs hxs => by cases hitems.symm.trans hxs
      | ok items =>
          rw [hitems] at hclock
          refine attest_chained hclock hc ?_ h (Nat.le_refl _)
          exact fun xs hxs => (Except.ok.inj (hitems.symm.trans hxs)).symm
  | executeEvent eventType timestamp payload sig =>
      exact step_executeEvent_chain hclock hc h (Nat.add_le_add_left (show 2 ≤ 4 by decide) _)
  | supervise handoffReason urgency =>
      exact Links.settle hchain
        (supervise_chained hclock hc h (Nat.add_le_add_left (show 3 ≤ 4 by decide) _))
  | abort reason stateSnapshot =>
      exact Links.settle hchain
        (abort_chained hclock hc h (Nat.add_le_add_left (show 2 ≤ 4 by decide) _))

/-! ## One call after the other -/

section Serially

variable {ι : Type} {c : String} {requests : ι → ClaimCall} {starts : ι → Nat} {db : Db}

/-- The committed state after the calls of some transactions, one after the other. -/
def inTurn (env : Env) (c : String) (requests : ι → ClaimCall) (starts : ι → Nat) (db : Db)
    (order : List ι) : Db :=
  run (fun db i => (step env ⟨db, starts i, false⟩ ((requests i).call c)).db) db order

/-- What the entries of a claim have to do with its task, in a state that the record of every
claim agrees with. -/
structure Db.Recorded (env : Env) (db : Db) : Prop where
  lifecycle : db.Lifecycle env
  filed : db.Filed env
  counts : ∀ name ∈ reportedEvents, db.Summarised (countEvent name) 0 (Progress.tally name)

theorem Change.recorded {call : Call} {db' : Db} (h : Change env call db db')
    (hcall : call.honest env) (hwf : db.WellFormed) (hrec : db.Recorded env) :
    db'.Recorded env where
  lifecycle := h.lifecycle hwf hrec.lifecycle
  filed := h.filed hrec.filed
  counts name hname := h.summarised (count_follows env hname) hcall hwf hrec.lifecycle hrec.filed
    (hrec.counts name hname)

theorem reach_recorded {workers : List WcpWorker} {calls : List Call}
    (hcalls : ∀ call ∈ calls, call.honest env) : (reach env workers calls).db.Recorded env where
  lifecycle := (reach_lifecycle env workers calls).2
  filed := (reach_summary (payload_follows env) workers hcalls).1
  counts _ hname := (reach_summary (count_follows env hname) workers hcalls).2

/-- What the calls keep, one after the other. -/
structure Db.Continues (env : Env) (db db' : Db) : Prop where
  wellFormed : db'.WellFormed
  recorded : db'.Recorded env
  keeps : db.Keeps db'

theorem step_continues {call : Call} {tick : Nat} (hcall : call.honest env) (hwf : db.WellFormed)
    (hrec : db.Recorded env) : db.Continues env (step env ⟨db, tick, false⟩ call).db := by
  have hsteps := step_changes (w := ⟨db, tick, false⟩) env hwf call
  refine ⟨hsteps.wellFormed hwf, ?_, ?_⟩
  · exact hsteps.invariant hwf hrec fun _ _ hdb hchange => hchange.recorded hcall hdb
  · exact hsteps.invariant hwf (Db.Keeps.refl db) fun _ _ _ hchange (hkeeps : db.Keeps _) =>
      hkeeps.trans hchange.keeps

theorem inTurn_continues (hrequests : ∀ i, ((requests i).call c).honest env) (hwf : db.WellFormed)
    (hrec : db.Recorded env) (order : List ι) :
    db.Continues env (inTurn env c requests starts db order) := by
  induction order generalizing db with
  | nil => exact ⟨hwf, hrec, Db.Keeps.refl db⟩
  | cons i order ih =>
      have hfirst := @step_continues env db ((requests i).call c) (starts i) (hrequests i) hwf hrec
      have hrest := ih hfirst.wellFormed hfirst.recorded
      exact ⟨hrest.wellFormed, hrest.recorded, hfirst.keeps.trans hrest.keeps⟩

theorem serially_eq_inTurn (hwf : db.WellFormed) (order : List ι) :
    (claimTransactions env c requests starts).serially db order =
      inTurn env c requests starts db order := by
  induction order generalizing db with
  | nil => rfl
  | cons i order ih =>
      show (claimTransactions env c requests starts).serially
        ((claimTransactions env c requests starts).transact db i).2 order = _
      rw [transact_claim c requests starts hwf i]
      exact ih ((step_changes (w := ⟨db, starts i, false⟩) env hwf _).wellFormed hwf)

/-- The entries of the claim stay a chain when each call begins past them. -/
theorem inTurn_chain (hc : c ≠ "")
    (hclock : ∀ i, env.Ticking (starts i) (starts i + (requests i).readings)) {order : List ι}
    (hpast : ∀ before i after, order = before ++ i :: after →
      (inTurn env c requests starts db before).Past env c (starts i))
    (hchain : db.Chain env c) : (inTurn env c requests starts db order).Chain env c :=
  @run_invariant_at _ _ _ (fun db => db.Chain env c) (fun db i => db.Past env c (starts i))
    (fun db i hdb hi => step_chain (w := ⟨db, starts i, false⟩) (requests i) (hclock i) hc hdb hi)
    _ _ hchain hpast

end Serially

/-! ## Overlapping calls -/

/-- The record of a claim: one attempt entry for each attempt that its task counts, at most one
entry that ends the task, and one chain. -/
structure Db.RecordOf (db : Db) (c : String) (t : WcpTask) : Prop where
  attempts : (db.entriesOf c).countP (fun e => e.eventType = "attestation_attempt") =
    t.attestationAttemptsUsed
  once : ((db.entriesOf c).filter fun e => e.eventType ∈ terminalEvents).length ≤ 1
  linked : Linked none (db.entriesOf c)
  forkless : ((db.entriesOf c).map (·.prevHash)).Nodup

theorem Db.Recorded.recordOf {db : Db} {c : WcpClaim} {id : String} {t : WcpTask}
    (h : db.Recorded env) (hholds : db.Holds c t) (hid : c.claimId = id)
    (hchain : db.Chain env id) (hsha : Function.Injective env.sha256Hex) : db.RecordOf id t := by
  subst hid
  have hcount : ∀ name ∈ reportedEvents,
      (db.entriesOf c.claimId).countP (fun e => e.eventType = name) = t.progress.tally name := by
    intro name hname
    have hsum := h.counts name hname c t hholds
    rwa [foldl_countEvent, Nat.zero_add] at hsum
  refine ⟨hcount "attestation_attempt" (by decide), ?_, hchain.linked, hchain.nodup_prevHash hsha⟩
  refine (countP_terminal_le _).trans ?_
  rw [hcount "task_completed" (by decide), hcount "task_voided" (by decide),
    hcount "task_aborted" (by decide)]
  cases hs : t.state <;> simp [Progress.tally, WcpTask.progress, hs]

/-- Calls on a claim, each in a transaction, any of which may come between the others' queries
and writes: where a transaction that has written something commits only while no other one is
under way, and the clock goes forward, the committed state is that of the calls in the order
in which they ended, every one answers as it does there, and the record of the claim is
consistent. -/
theorem overlap_serialisable {ι : Type} [DecidableEq ι] (env : Env)
    (hsha : Function.Injective env.sha256Hex) (workers : List WcpWorker) (calls : List Call)
    (hcalls : ∀ call ∈ calls, call.honest env) (c : String)
    (hc : c ∈ (reach env workers calls).db.claims.map (·.claimId)) (requests : ι → ClaimCall)
    (hrequests : ∀ i, ((requests i).call c).honest env) (starts : ι → Nat)
    (hclock : ∀ i, env.Ticking (starts i) (starts i + (requests i).readings))
    (hchain : (reach env workers calls).db.Chain env c) (schedule : List ι)
    (hturns : ∀ before i after, schedule = before ++ i :: after →
      (claimTransactions env c requests starts).Alone
        ((claimTransactions env c requests starts).interleave
          (reach env workers calls).db before) i ∧
      ((claimTransactions env c requests starts).interleave
        (reach env workers calls).db before).Fits (fun i db => db.Past env c (starts i)) i) :
    ∃ order : List ι, order.Nodup ∧
      (∀ i, i ∈ order ↔ ∃ r, ((claimTransactions env c requests starts).interleave
        (reach env workers calls).db schedule).phase i = .ended r) ∧
      ((claimTransactions env c requests starts).interleave
        (reach env workers calls).db schedule).committed =
          inTurn env c requests starts (reach env workers calls).db order ∧
      (∀ before i after, order = before ++ i :: after →
        ((claimTransactions env c requests starts).interleave
          (reach env workers calls).db schedule).phase i =
            .ended (serviceMethod env ((requests i).call c)
              ⟨inTurn env c requests starts (reach env workers calls).db before,
                starts i, false⟩).1) ∧
      ∃ claim t, ((claimTransactions env c requests starts).interleave
          (reach env workers calls).db schedule).committed.Holds claim t ∧
        claim.claimId = c ∧
        ((claimTransactions env c requests starts).interleave
          (reach env workers calls).db schedule).committed.RecordOf c t := by
  obtain ⟨order, hserial⟩ := interleave_serial (claimTransactions env c requests starts)
    (fun i db => db.Past env c (starts i)) (reach env workers calls).db schedule hturns
  obtain ⟨claim, hclaim, hid⟩ := List.mem_map.1 hc
  have hwf := reach_wellFormed env workers calls
  have hrec := @reach_recorded env workers calls hcalls
  have hne : c ≠ "" := hid ▸ (hrec.filed.keys claim hclaim).1
  have hbefore := fun order => @serially_eq_inTurn env ι c requests starts _ hwf order
  have hafter := @inTurn_continues env ι c requests starts _ hrequests hwf hrec
  refine ⟨order, hserial.nodup, hserial.ended, ?_, ?_, ?_⟩
  · rw [hserial.committed, hbefore]
  · intro before i after hsplit
    rw [(hserial.answers before i after hsplit).2, hbefore,
      transact_claim c requests starts (hafter before).wellFormed i]
  · rw [hserial.committed, hbefore]
    obtain ⟨claim', hclaim', hid', -⟩ := (hafter order).keeps.claims claim hclaim
    obtain ⟨t, ht, htask⟩ := (hafter order).recorded.lifecycle.tasked claim' hclaim'
    have hlinks :
        (inTurn env c requests starts (reach env workers calls).db order).Chain env c := by
      refine inTurn_chain hne hclock ?_ hchain
      intro before i after hsplit
      rw [← hbefore]
      exact (hserial.answers before i after hsplit).1
    refine ⟨claim', t, ⟨hclaim', ht, htask.symm⟩, hid'.trans hid, ?_⟩
    exact (hafter order).recorded.recordOf ⟨hclaim', ht, htask.symm⟩ (hid'.trans hid) hlinks hsha

/-- When the first and the second of two transactions begin to read the clock. -/
def localStarts : Fin 2 → Nat := fun i => if i = 0 then 100 else 200

/-- An abort, and a handover that is refused before execution has started. -/
def abortAndHandover : Fin 2 → ClaimCall := fun i =>
  if i = 0 then .abort (.str "rain") .null else .supervise (.str "stuck") (.str "high")

/-- The handover is refused while the abort is under way. -/
def refusalWithin : List (Fin 2) :=
  List.replicate 5 0 ++ List.replicate 3 1 ++ List.replicate 8 0

theorem overlap_serialisable_refusal :
    ∃ order : List (Fin 2), order.Nodup ∧
      ((claimTransactions localEnv "id-6" abortAndHandover localStarts).interleave
        (reach localEnv [zeroWorker] localClaim).db refusalWithin).committed =
          inTurn localEnv "id-6" abortAndHandover localStarts
            (reach localEnv [zeroWorker] localClaim).db order := by
  have hchain : (reach localEnv [zeroWorker] localClaim).db.Chain localEnv "id-6" :=
    reach_chain_single (by decide +kernel)
  have hclock : ∀ i, localStarts i + (abortAndHandover i).readings < microsPerDay := by
    decide +kernel
  obtain ⟨order, hnodup, -, hcommitted, -⟩ := overlap_serialisable localEnv
    localEnv_sha256Hex_injective [zeroWorker] localClaim (by decide) "id-6" (by decide +kernel)
    abortAndHandover (by decide) localStarts (fun i => localEnv_ticking (hclock i)) hchain
    refusalWithin (Transactions.admitted_turns (by decide +kernel))
  exact ⟨order, hnodup, hcommitted⟩

/-- The state of the local run in which its task is executing. -/
def localExecuting : Db := (reach localEnv [zeroWorker] (localStart anySensor)).db

def twoAttests : Fin 2 → ClaimCall := fun _ => .attest (.arr [coverageEvidence])

/-- The second transaction loads the task and looks up the latest entry before the first one
commits, and commits after it. -/
def overlapping : List (Fin 2) :=
  List.replicate 2 0 ++ List.replicate 9 1 ++ List.replicate 20 0 ++ List.replicate 13 1

/-- The transactions of the two attestations after their overlap. -/
def overlapped : Interleaved Err Db Session Json (Fin 2) :=
  (claimTransactions localEnv "id-6" twoAttests localStarts).interleave localExecuting overlapping

/-- Both attestations are accepted and counted as one attempt, the task is completed twice, and
neither serial order writes the entries that were written. -/
theorem overlapping_attests_unserialisable :
    (∀ i, ∃ answer, overlapped.phase i = .ended (.ok answer)) ∧
      (∀ order ∈ [[(0 : Fin 2), 1], [1, 0]], ∃ e ∈ overlapped.committed.entriesOf "id-6",
        e ∉ (inTurn localEnv "id-6" twoAttests localStarts localExecuting order).entriesOf
          "id-6") ∧
      (overlapped.committed.findTask "t1").map (·.attestationAttemptsUsed) = some 1 ∧
      (overlapped.committed.entriesOf "id-6").countP
        (fun e => e.eventType = "attestation_attempt") = 2 ∧
      ((overlapped.committed.entriesOf "id-6").filter
        fun e => e.eventType ∈ terminalEvents).length = 2 := by
  refine ⟨?_, ?_, by decide +kernel⟩
  · have hboth : ∀ i, (overlapped.phase i).returned = true := by decide +kernel
    intro i
    exact Phase.exists_of_returned (hboth i)
  · -- the ids tell the entries apart
    have hids : ∀ order ∈ [[(0 : Fin 2), 1], [1, 0]],
        ∃ e ∈ overlapped.committed.entriesOf "id-6", e.entryId ∉ ((inTurn localEnv "id-6"
          twoAttests localStarts localExecuting order).entriesOf "id-6").map (·.entryId) := by
      decide +kernel
    intro order horder
    obtain ⟨e, he, hnot⟩ := hids order horder
    exact ⟨e, he, fun hmem => hnot (List.mem_map_of_mem hmem)⟩

end Wcp.Coordinator
