import Wcp.Base.Runs
import Wcp.Coordinator.TasksService
/-!
# Runs of the coordinator

A run is a serial sequence of service calls, each in a transaction of its own
that is committed whether the call returned or raised.  Worker registrations and
subscriptions may come between the calls of the task service.
-/

namespace Wcp.Coordinator

open Wcp.Base

/-- A call of a service method that may write. -/
inductive Call where
  | post (task expiry informational : Json)
  | claim (taskId workerId eta acceptanceAttestation bid : Json)
  | executeOpen (claimId : Json)
  | executeEvent (claimId eventType timestamp payload sig : Json)
  | checkHeartbeats (now : Option DateTime)
  | attest (claimId attestations : Json)
  | supervise (claimId handoffReason urgency : Json)
  | abort (claimId reason stateSnapshot : Json)
  | upsertCapabilities (workerId capabilities principalId ttlSeconds : Json)
  | createSubscription (agentDid filterDict sinceRevision : Json)

/-- The claim that a call names, null where it names none. -/
def Call.claimId : Call → Json
  | .executeOpen claimId => claimId
  | .executeEvent claimId _ _ _ _ => claimId
  | .attest claimId _ => claimId
  | .supervise claimId _ _ => claimId
  | .abort claimId _ _ => claimId
  | _ => .null

variable (env : Env)

/-- The committed state after a call. -/
def step (w : World) : Call → World
  | .post task expiry informational => w.settle (post env task expiry informational w)
  | .claim taskId workerId eta acceptanceAttestation bid =>
      w.settle (claim env taskId workerId eta acceptanceAttestation bid w)
  | .executeOpen claimId => w.settle (executeOpen env claimId w)
  | .executeEvent claimId eventType timestamp payload sig =>
      w.settle (executeEvent env claimId eventType timestamp payload sig w)
  | .checkHeartbeats now => w.settle (checkHeartbeats env now w)
  | .attest claimId attestations => w.settle (attest env claimId attestations w)
  | .supervise claimId handoffReason urgency =>
      w.settle (supervise env claimId handoffReason urgency w)
  | .abort claimId reason stateSnapshot => w.settle (abort env claimId reason stateSnapshot w)
  | .upsertCapabilities workerId capabilities principalId ttlSeconds =>
      w.settle (upsertCapabilities env workerId capabilities principalId ttlSeconds w)
  | .createSubscription agentDid filterDict sinceRevision =>
      w.settle (createSubscription env agentDid filterDict sinceRevision w)

def serviceMethod : Call → Action Json
  | .post task expiry informational => post env task expiry informational
  | .claim taskId workerId eta acceptanceAttestation bid =>
      claim env taskId workerId eta acceptanceAttestation bid
  | .executeOpen claimId => executeOpen env claimId
  | .executeEvent claimId eventType timestamp payload sig =>
      executeEvent env claimId eventType timestamp payload sig
  | .checkHeartbeats now => do
      let promoted ← checkHeartbeats env now
      return textsJson promoted
  | .attest claimId attestations => do
      let answer ← attest env claimId attestations
      return answer.toJson
  | .supervise claimId handoffReason urgency => supervise env claimId handoffReason urgency
  | .abort claimId reason stateSnapshot => abort env claimId reason stateSnapshot
  | .upsertCapabilities workerId capabilities principalId ttlSeconds =>
      upsertCapabilities env workerId capabilities principalId ttlSeconds
  | .createSubscription agentDid filterDict sinceRevision =>
      createSubscription env agentDid filterDict sinceRevision

theorem settle_map {α β : Type} (w : World) (m : Action α) (f : α → β) :
    w.settle ((m >>= fun a => pure (f a)) w) = w.settle (m w) := by
  rw [Exec.bind_pure_apply]
  rcases m w with ⟨e | a, w'⟩
  · cases e with
    | raised x => cases x <;> rfl
    | _ => rfl
  · rfl

theorem step_eq_settle (w : World) (call : Call) :
    step env w call = w.settle (serviceMethod env call w) := by
  cases call with
  | checkHeartbeats now => exact (settle_map w _ _).symm
  | attest claimId attestations => exact (settle_map w _ _).symm
  | _ => rfl

/-- A coordinator with registered workers and nothing else. -/
def initial (workers : List WcpWorker) : World := World.start { Db.empty with workers := workers } 0

/-- The committed state after a sequence of calls. -/
def reach (workers : List WcpWorker) (calls : List Call) : World :=
  run (step env) (initial workers) calls

theorem reach_snoc (workers : List WcpWorker) (calls : List Call) (call : Call) :
    reach env workers (calls ++ [call]) = step env (reach env workers calls) call :=
  run_append (step env) (initial workers) calls [call]

end Wcp.Coordinator
