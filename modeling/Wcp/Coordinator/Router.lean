import Wcp.Coordinator.Calls
import Wcp.Coordinator.RpcDispatch
/-!
# The two transports

`rpc` answers a POST and `ws` a message on the socket.  They dispatch in the same
way and end the transaction differently: `rpc` commits once it has a reply,
whatever the reply says, and `ws` commits before it replies with a result and
rolls back before it replies with an error.
-/

namespace Wcp.Coordinator

open Wcp.Base

/-! ## Replies -/

/-- What the interpreter says about an exception that the model carries no text for. -/
structure Exceptions where
  str : Err → String
  typeName : Err → String

namespace Exceptions

variable (exceptions : Exceptions)

/-- `str(exc)`. -/
def text : Err → String
  | .valueError message => message
  | .raised (.didResolution message) => message
  | .raised (.signatureVerification message) => message
  | e => exceptions.str e

def name : Err → String
  | .attributeError => "AttributeError"
  | .typeError => "TypeError"
  | .keyError => "KeyError"
  | .overflowError => "OverflowError"
  | .raised (.didResolution _) => "DIDResolutionError"
  | .raised (.signatureVerification _) => "SignatureVerificationError"
  | e => exceptions.typeName e

end Exceptions

def resultReply (id result : Json) : Json :=
  .obj [("jsonrpc", .str "2.0"), ("id", id), ("result", result)]

def errorReply (id : Json) (code : Int) (message : String) : Json :=
  .obj [
    ("jsonrpc", .str "2.0"),
    ("id", id),
    ("error", .obj [("code", .int code), ("message", .str message)])]

/-- `payload.get(key)`. -/
def member (ms : List (String × Json)) (key : String) : Json := (ms.lookup key).getD .null

/-- The error of a response whose content has no JSON text. -/
def notCompliant : Err := .valueError "Out of range float values are not JSON compliant"

/-- Drop what a transaction wrote. -/
def World.rollback (w : World) {α : Type} (outcome : Except Err α × World) : World :=
  { w with tick := outcome.2.tick, doomed := false }

section Transports

variable (env : Env) (exceptions : Exceptions)

/-! ## POST /wcp/rpc -/

/-- The reply to a dispatched request.  A result that has no JSON text raises in the response
and is reported like any other exception. -/
def rpcReply (id : Json) (outcome : Except Err Json) : Json :=
  match outcome with
  | .ok result =>
      if (resultReply id result).finite then resultReply id result
      else errorReply id internalErrorCode ("Internal error: " ++ exceptions.text notCompliant)
  | .error (.raised (.jsonRpc code message)) => errorReply id code message
  | .error e => errorReply id internalErrorCode ("Internal error: " ++ exceptions.text e)

/-- The session of `_get_session`: commit after a reply, roll back when the reply itself has
no JSON text and the exception escapes. -/
def World.respond (w : World) (reply : Json) (outcome : Except Err Json × World) :
    Option Json × World :=
  if reply.finite then (some reply, w.settle outcome) else (none, w.rollback outcome)

def rpc (payload : List (String × Json)) (w : World) : Option Json × World :=
  let id := member payload "id"
  match member payload "method" with
  | .str name =>
      if member payload "jsonrpc" = .str "2.0" then
        let outcome := dispatch env (.str name) ((member payload "params").or (.obj [])) w
        w.respond (rpcReply exceptions id outcome.1) outcome
      else w.respond (errorReply id invalidRequestCode "Invalid Request") (.ok .null, w)
  | _ => w.respond (errorReply id invalidRequestCode "Invalid Request") (.ok .null, w)

/-! ## WebSocket /wcp/ws -/

/-- The reply to an exception on the socket. -/
def wsError (id : Json) (e : Err) : Json :=
  match e with
  | .raised (.jsonRpc code message) => errorReply id code message
  | e => errorReply id internalErrorCode
      ("Internal error: " ++ exceptions.name e ++ ": " ++ exceptions.text e)

/-- The reply to a dispatched message: a result is committed first, an exception rolled back. -/
def World.reply (w : World) (id : Json) (outcome : Except Err Json × World) :
    Option Json × World :=
  match outcome.1 with
  | .ok result =>
      -- a pending write that the database refuses makes the commit raise
      if outcome.2.doomed then
        (some (wsError exceptions id (.raised .database)), w.rollback outcome)
      else (some (resultReply id result), w.settle outcome)
  | .error e => (some (wsError exceptions id e), w.rollback outcome)

/-- One message on the socket: `none` is text that is not JSON.  A message that is not an
object closes the socket. -/
def ws (message : Option Json) (w : World) : Option Json × World :=
  match message with
  | none => (some (errorReply .null parseErrorCode "Parse error"), w)
  | some (.obj req) =>
      w.reply exceptions (member req "id")
        (dispatch env (member req "method") ((member req "params").or (.obj [])) w)
  | some _ => (none, w)

/-! ## Requests -/

/-- A request over one of the transports. -/
inductive Request where
  | rpc (payload : List (String × Json))
  | ws (message : Option Json)

/-- The reply to a request, and the committed state. -/
def serve (request : Request) (w : World) : Option Json × World :=
  match request with
  | .rpc payload => rpc env exceptions payload w
  | .ws message => ws env exceptions message w

/-- What happens to a coordinator: a request, or a call of a service by its operator. -/
inductive Event where
  | request (r : Request)
  | call (c : Call)

/-- The committed state after an event. -/
def eventStep (w : World) : Event → World
  | .request r => (serve env exceptions r w).2
  | .call c => step env w c

/-- The committed state after a history of events. -/
def served (workers : List WcpWorker) (history : List Event) : World :=
  run (eventStep env exceptions) (initial workers) history

end Transports

end Wcp.Coordinator
