import Wcp.Federation.TrustAnchor
/-!
# Forwarding tasks to peers

`pickPeer` returns the first stored anchor that grants capability discovery and
whose peer admits the task's descriptor type.  `forwardTask` sends `tasks/post` to
the endpoint of the anchor it is given and records the answer on the local chain.
-/

namespace Wcp.Federation

open Wcp.Base
open Wcp.Coordinator

variable (env : FederationEnv)

/-- The peer admits a descriptor type. -/
def admits (descriptorType : String) (allowed : Option (List (String × List String)))
    (a : TrustAnchor) : Bool :=
  match allowed with
  | none => true
  | some table =>
      descriptorType = "" || ((table.lookup a.peerCoordinatorDid).getD []).contains descriptorType

def pickPeer (descriptorType : String) (allowed : Option (List (String × List String))) :
    FAction (Option TrustAnchor) := do
  let anchors ← Exec.reads fun f => Except.ok f.anchors.values
  let live ← anchorsForClass env "capability_discovery" anchors
  return live.find? (admits descriptorType allowed)

/-- What the peer answers to a call, or the text of the exception. -/
abbrev Forwarder := String → String → Json → Except String Json

def forwardParams (task : List (String × Json)) (expiry : String)
    (informational : List (String × Json)) : Json :=
  .obj (informational.foldl (fun ms m => Json.setItem ms m.1 m.2)
    [("task", .obj task), ("expiry", .str expiry)])

/-- Invoke the forwarder; an exception becomes the result. -/
def invoke (forwarder : Forwarder) (url method : String) (params : Json) :
    FAction (Json × String) := fun f =>
  (.ok (match forwarder url method params with
      | .ok result => (result, "accepted")
      | .error message => (.obj [("error", .str message)], "rejected")),
    { f with sent := f.sent ++ [⟨url, method, params⟩] })

def forwardTask (forwarder : Option Forwarder) (peer : TrustAnchor) (task : List (String × Json))
    (expiry : String) (informational : List (String × Json)) : FAction Json := do
  match forwarder with
  | none =>
      Exec.raise (.raised (.runtimeError ("FederationRouter has no forwarder configured; " ++
        "set one at construction or via .with_forwarder()")))
  | some forwarder => do
      let stored ← Exec.reads fun f => Except.ok (f.anchors.get peer.peerCoordinatorDid)
      Exec.require (stored.isSome = true) (.raised (.peerTrustAnchorRevoked
        ("trust anchor for peer " ++ peer.peerCoordinatorDid ++
          " has been revoked since pick_peer; refusing to forward")))
      let (result, status) ← invoke forwarder peer.peerEndpointUrl "tasks/post"
        (forwardParams task expiry informational)
      let taskId := (task.lookup "task_id").getD .null
      let _ ← onWorld (append env.toEnv (.str "federation_task_forwarded") peer.peerCoordinatorDid
        (.obj [
          ("peer_coordinator_did", .str peer.peerCoordinatorDid),
          ("peer_endpoint_url", .str peer.peerEndpointUrl),
          ("task_id", taskId),
          ("status", .str status),
          ("peer_response", result)])
        .null taskId none)
      return result

end Wcp.Federation
