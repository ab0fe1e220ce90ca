import Wcp.Coordinator.TasksService
/-!
# Method dispatch

`dispatch` looks a method up by name, binds the members of `params` to its keyword
parameters and runs it; the exceptions that the services raise become the errors
of the protocol's taxonomy.  An exception of any other kind passes through.
-/

namespace Wcp.Coordinator

open Wcp.Base
open Wcp.Base.Exec (ensure)

/-! ## Error codes -/

def parseErrorCode : Int := -32700
def invalidRequestCode : Int := -32600
def methodNotFoundCode : Int := -32601
def invalidParamsCode : Int := -32602
def internalErrorCode : Int := -32603

def taskNotFoundCode : Int := -42001
def taskPreemptedCode : Int := -42002
def taskStateInvalidCode : Int := -42004

/-- The codes that the text of a `ValueError` begins with, in the order they are tried. -/
def valueErrorCodes : List (String × Int) := [
  ("DID_NOT_RESOLVED", -40003),
  ("UNAUTHENTICATED", -40001),
  ("UNAUTHORIZED", -40002),
  ("INVALID_ATTESTATION_REQUIREMENT", -41001),
  ("ATTESTATION_FAILED", -41002),
  ("SUBCONTRACT_FORBIDDEN", -45001),
  ("OUT_OF_SCOPE_TASK_CLASS", -45002),
  ("POLICY_VIOLATION", -46001),
  ("INVALID_DESCRIPTOR", -42010),
  ("RECHECK_MAX_ATTEMPTS_REACHED", -47001),
  ("RECHECK_NOT_AVAILABLE_FOR_TASK", -47002)]

def mapValueError (message : String) : Err :=
  match valueErrorCodes.find? fun c => c.1.toList.isPrefixOf message.toList with
  | some c => .raised (.jsonRpc c.2 message)
  | none => .raised (.jsonRpc invalidParamsCode message)

def mapException : Err → Err
  | .raised (.taskNotFound message) => .raised (.jsonRpc taskNotFoundCode message)
  | .raised (.taskPreempted message) => .raised (.jsonRpc taskPreemptedCode message)
  | .raised (.taskStateInvalid message) => .raised (.jsonRpc taskStateInvalidCode message)
  | .valueError message => mapValueError message
  | e => e

/-! ## Keyword parameters -/

/-- The keyword parameters of a method: those without a default, those with one, and whether
a `**` parameter takes the rest. -/
structure Signature where
  required : List String
  optional : List (String × Json)
  takesRest : Bool

namespace Signature

variable (sig : Signature)

def names : List String := sig.required ++ sig.optional.map (·.1)

/-- The call `method(**params)` binds: `params` is an object, no parameter is missing, and
none is unknown.  The receiver is bound already, so a `**` parameter does not take `self`. -/
def bindParams (params : Json) : Except Err (List (String × Json)) :=
  match params with
  | .obj ms => do
      ensure (sig.required.all fun key => (ms.lookup key).isSome) .typeError
      ensure (ms.all fun m => sig.names.contains m.1 || (sig.takesRest && m.1 != "self")) .typeError
      return ms
  | _ => .error .typeError

/-- The value bound to a parameter. -/
def arg (ms : List (String × Json)) (key : String) : Json :=
  ((ms.lookup key).or (sig.optional.lookup key)).getD .null

/-- The members that a `**` parameter takes. -/
def rest (ms : List (String × Json)) : List (String × Json) :=
  ms.filter fun m => !sig.names.contains m.1

end Signature

/-! ## Methods -/

/-- A method of the dispatcher: its parameters and its body on the bound values. -/
structure Method where
  signature : Signature
  body : List (String × Json) → Action Json

variable (env : Env)

def capabilitiesList : Method :=
  let sig : Signature := ⟨["worker_id"], [], false⟩
  ⟨sig, fun ms => readDb fun db => listCapabilities env db (sig.arg ms "worker_id")⟩

def capabilitiesUpsert : Method :=
  let sig : Signature :=
    ⟨["worker_id", "capabilities", "principal_id"], [("ttl_seconds", .int 3600)], false⟩
  ⟨sig, fun ms => upsertCapabilities env (sig.arg ms "worker_id") (sig.arg ms "capabilities")
    (sig.arg ms "principal_id") (sig.arg ms "ttl_seconds")⟩

def auditObserve : Method :=
  let sig : Signature := ⟨[], [("claim_id", .null), ("task_id", .null)], true⟩
  ⟨sig, fun ms => Exec.reads fun w => do
    let answer ← observeAudit env w.tick w.db (sig.arg ms "claim_id") (sig.arg ms "task_id")
    return answer.toJson⟩

def capabilitiesSubscribe : Method :=
  let sig : Signature := ⟨["agent_did"], [("filter", .null), ("since_revision", .null)], false⟩
  ⟨sig, fun ms => createSubscription env (sig.arg ms "agent_did") (sig.arg ms "filter")
    (sig.arg ms "since_revision")⟩

/-- Further members of `params` are informational. -/
def tasksPost : Method :=
  let sig : Signature := ⟨["task", "expiry"], [("supervision", .null)], true⟩
  ⟨sig, fun ms => post env (sig.arg ms "task") (sig.arg ms "expiry")
    ((Json.obj (sig.rest ms)).or .null)⟩

def tasksClaim : Method :=
  let sig : Signature :=
    ⟨["task_id", "worker_id", "eta", "acceptance_attestation"], [("bid", .null)], false⟩
  ⟨sig, fun ms => claim env (sig.arg ms "task_id") (sig.arg ms "worker_id") (sig.arg ms "eta")
    (sig.arg ms "acceptance_attestation") (sig.arg ms "bid")⟩

def tasksExecuteOpen : Method :=
  let sig : Signature := ⟨["claim_id"], [], false⟩
  ⟨sig, fun ms => executeOpen env (sig.arg ms "claim_id")⟩

def tasksExecuteEvent : Method :=
  let sig : Signature := ⟨["claim_id", "event_type", "timestamp", "payload", "sig"], [], false⟩
  ⟨sig, fun ms => executeEvent env (sig.arg ms "claim_id") (sig.arg ms "event_type")
    (sig.arg ms "timestamp") (sig.arg ms "payload") (sig.arg ms "sig")⟩

def tasksAttest : Method :=
  let sig : Signature := ⟨["claim_id", "attestations"], [("compensating_action", .null)], false⟩
  ⟨sig, fun ms => do
    let answer ← attest env (sig.arg ms "claim_id") (sig.arg ms "attestations")
    return answer.toJson⟩

def tasksSupervise : Method :=
  let sig : Signature := ⟨["claim_id", "handoff_reason", "state_snapshot", "urgency"], [], false⟩
  ⟨sig, fun ms => supervise env (sig.arg ms "claim_id") (sig.arg ms "handoff_reason")
    (sig.arg ms "urgency")⟩

def tasksAbort : Method :=
  let sig : Signature := ⟨["claim_id", "reason"], [("state_snapshot", .null)], false⟩
  ⟨sig, fun ms => abort env (sig.arg ms "claim_id") (sig.arg ms "reason")
    (sig.arg ms "state_snapshot")⟩

/-- The methods under their names on the wire. -/
def methods : List (String × Method) := [
  ("capabilities/list", capabilitiesList env),
  ("capabilities/upsert", capabilitiesUpsert env),
  ("capabilities/subscribe", capabilitiesSubscribe env),
  ("tasks/post", tasksPost env),
  ("tasks/claim", tasksClaim env),
  ("tasks/execute", tasksExecuteOpen env),
  ("tasks/execute.event", tasksExecuteEvent env),
  ("tasks/attest", tasksAttest env),
  ("tasks/supervise", tasksSupervise env),
  ("tasks/abort", tasksAbort env),
  ("audit/observe", auditObserve env)]

/-- A method called with the `params` of a request. -/
def Method.call (m : Method) (params : Json) : Action Json := do
  let ms ← Exec.lift (m.signature.bindParams params)
  m.body ms

/-- `Dispatcher.dispatch`; a name that cannot be hashed is not looked up. -/
def dispatch (method params : Json) : Action Json :=
  match method with
  | .str name =>
      match (methods env).lookup name with
      | some m => Exec.mapError mapException (m.call (params.or (.obj [])))
      | none => Exec.raise (.raised (.jsonRpc methodNotFoundCode ("no such method: " ++ name)))
  | v =>
      if v.hashable then
        Exec.raise (.raised (.jsonRpc methodNotFoundCode ("no such method: " ++ env.str v)))
      else Exec.raise .typeError

end Wcp.Coordinator
