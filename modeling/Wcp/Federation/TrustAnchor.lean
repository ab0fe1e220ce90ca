import Wcp.Base.Dict
import Wcp.Base.Exec
import Wcp.Coordinator.AuditChain
/-!
# Bilateral trust anchors

A trust anchor names a peer coordinator, the key and the endpoint of the peer and
the trust classes granted to it, under a signature that is checked against the key
the anchor itself carries.  The store keeps one anchor for each peer.

Federation runs beside the task service: a `FederationState` is the coordinator's
database session, the stored anchors and the calls that went out to peers.
-/

namespace Wcp.Base

/-- `a <= b` on floats; a NaN compares with nothing. -/
def FloatValue.le : FloatValue → FloatValue → Bool
  | .nan, _ => false
  | _, .nan => false
  | .inf true, _ => true
  | _, .inf false => true
  | .fin p, .fin q => decide (p ≤ q)
  | _, _ => false

end Wcp.Base

namespace Wcp.Federation

open Wcp.Base
open Wcp.Coordinator

/-! ## Federation's own world -/

/-- The coordinator's environment with `time.time()`, reading by reading. -/
structure FederationEnv extends Env where
  time : Nat → PyFloat

/-- The exceptions of the federation layer beside those of the services. -/
inductive FederationErr where
  | service (e : WcpErr)
  | peerTrustAnchorRevoked (message : String)
  | runtimeError (message : String)
deriving DecidableEq

abbrev FErr := PyErr FederationErr

/-- An exception of a service as one of the federation layer. -/
def ofService : Err → FErr
  | .attributeError => .attributeError
  | .typeError => .typeError
  | .keyError => .keyError
  | .overflowError => .overflowError
  | .valueError message => .valueError message
  | .raised e => .raised (.service e)

/-! ## Anchors -/

structure TrustAnchor where
  peerCoordinatorDid : String
  peerPublicKey : List UInt8
  peerEndpointUrl : String
  scope : List String
  scope_nodup : scope.Nodup
  establishedAt : PyFloat
  expiresAt : PyFloat
  signature : String
deriving DecidableEq

/-- `_ed25519_verify`. -/
def ed25519VerifyText (env : Env) (key : List UInt8) (data signature : String) : Bool :=
  if sigPrefix.toList.isPrefixOf signature.toList then
    let body := signature.toList.drop sigPrefix.toList.length
    match urlsafeB64decode (body ++ b64Padding body.length) with
    | .ok sig => decide (key.length = 32) && env.ed25519Verify key sig data
    | .error _ => false
  else false

namespace TrustAnchor

def isExpired (a : TrustAnchor) (now : PyFloat) : Bool := a.expiresAt.value.le now.value

def allows (a : TrustAnchor) (trustClass : String) (now : PyFloat) : Bool :=
  decide (trustClass ∈ a.scope) && !a.isExpired now

def signedBody (a : TrustAnchor) : String :=
  canonical (.obj [
    ("peer_coordinator_did", .str a.peerCoordinatorDid),
    ("peer_endpoint_url", .str a.peerEndpointUrl),
    ("scope", .arr ((a.scope.insertionSort (· ≤ ·)).map Json.str)),
    ("established_at", .float a.establishedAt),
    ("expires_at", .float a.expiresAt)])

def verifySignature (env : Env) (a : TrustAnchor) : Bool :=
  ed25519VerifyText env a.peerPublicKey a.signedBody a.signature

end TrustAnchor

/-! ## The store -/

/-- A call that the forwarder sent to a peer. -/
structure Forwarded where
  url : String
  method : String
  params : Json
deriving DecidableEq

structure FederationState where
  world : World
  /-- `TrustAnchorStore._by_did`. -/
  anchors : Dict String TrustAnchor
  /-- The invocations of the forwarder so far. -/
  sent : List Forwarded

abbrev FAction := Exec FErr FederationState

variable (env : FederationEnv)

/-- Run an action of the services. -/
def onWorld {α : Type} (m : Action α) : FAction α := fun f =>
  match m f.world with
  | (.ok a, w) => (.ok a, { f with world := w })
  | (.error e, w) => (.error (ofService e), { f with world := w })

/-- `time.time()`. -/
def timeNow : FAction PyFloat := fun f =>
  (.ok (env.time f.world.tick), { f with world := { f.world with tick := f.world.tick + 1 } })

def add (anchor : TrustAnchor) : FAction Unit := do
  Exec.require (anchor.verifySignature env.toEnv = true)
    (.valueError ("trust anchor signature invalid for peer " ++ anchor.peerCoordinatorDid))
  let now ← timeNow env
  Exec.require (anchor.isExpired now = false) (.valueError "trust anchor already expired")
  Exec.write fun f => { f with anchors := f.anchors.set anchor.peerCoordinatorDid anchor }

/-- `TrustAnchorStore.remove`; `audited` says whether the store has an audit chain. -/
def remove (audited : Bool) (peerDid reason : String) : FAction (Option TrustAnchor) := do
  let removed ← Exec.reads fun f => Except.ok (f.anchors.get peerDid)
  match removed with
  | none => return none
  | some anchor => do
      Exec.write fun f => { f with anchors := f.anchors.pop peerDid }
      if audited then do
        let revokedAt ← timeNow env
        let _ ← onWorld (append env.toEnv (.str "federation_trust_anchor_revoked") peerDid
          (.obj [
            ("peer_coordinator_did", .str peerDid),
            ("revoked_at", .float revokedAt),
            ("reason", .str reason)])
          .null .null none)
        return some anchor
      else return some anchor

/-- `anchor.allows(trust_class)` at the time of the call. -/
def allowsNow (a : TrustAnchor) (trustClass : String) : FAction Bool :=
  if trustClass ∈ a.scope then do
    let now ← timeNow env
    return !a.isExpired now
  else pure false

def anchorsForClass (trustClass : String) : List TrustAnchor → FAction (List TrustAnchor)
  | [] => pure []
  | a :: rest => do
      let allowed ← allowsNow env a trustClass
      let others ← anchorsForClass trustClass rest
      return if allowed then a :: others else others

end Wcp.Federation
