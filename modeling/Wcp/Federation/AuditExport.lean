import Wcp.Federation.TrustAnchor
/-!
# Audit chains across coordinators

One coordinator serves the entries of a claim (`federationAuditChain`), another
one fetches them, walks the segment (`verifyChainSegment`) and records on its own
chain what it found (`importPeerChain`).  Whatever a peer sends is an arbitrary
list of JSON values.
-/

namespace Wcp.Federation

open Wcp.Base
open Wcp.Coordinator

variable (env : FederationEnv)

/-! ## Serving -/

def textJson : Option String → Json
  | some s => .str s
  | none => .null

/-- The members of a row as the endpoint shows it. -/
def exportedMembers (r : WcpAudit) : List (String × Json) := [
  ("event_type", .str r.eventType),
  ("actor_did", .str r.actorDid),
  ("timestamp", .str (isoformatNaive r.timestamp)),
  ("payload_json", r.payloadJson),
  ("payload_hash", .str r.payloadHash),
  ("prev_hash", textJson r.prevHash),
  ("this_hash", .str r.thisHash),
  ("claim_id", textJson r.claimId),
  ("task_id", textJson r.taskId),
  ("sig", .str r.sig)]

def exportedEntry (r : WcpAudit) : Json := .obj (exportedMembers r)

/-- `GET /federation/audit_chain/{claim_id}`: the entries of the response.  The response is
written by a strict JSON encoder. -/
def federationAuditChain (query : Nat) (db : Db) (claimId : String) : Except Err (List Json) :=
  let entries := (env.ascending query (db.entriesOf claimId)).map exportedEntry
  if finiteList entries then .ok entries
  else .error (.valueError "Out of range float values are not JSON compliant")

/-! ## Walking a segment -/

/-- `e.get(key)` of an entry. -/
def field (e : List (String × Json)) (key : String) : Json := (e.lookup key).getD .null

section Exported

variable (r : WcpAudit)

@[simp] theorem field_event_type :
    field (exportedMembers r) "event_type" = .str r.eventType := rfl

@[simp] theorem field_actor_did : field (exportedMembers r) "actor_did" = .str r.actorDid := rfl

@[simp] theorem field_timestamp :
    field (exportedMembers r) "timestamp" = .str (isoformatNaive r.timestamp) := rfl

@[simp] theorem field_payload_json :
    field (exportedMembers r) "payload_json" = r.payloadJson := rfl

@[simp] theorem field_payload_hash :
    field (exportedMembers r) "payload_hash" = .str r.payloadHash := rfl

@[simp] theorem field_prev_hash :
    field (exportedMembers r) "prev_hash" = textJson r.prevHash := rfl

@[simp] theorem field_this_hash : field (exportedMembers r) "this_hash" = .str r.thisHash := rfl

@[simp] theorem field_claim_id : field (exportedMembers r) "claim_id" = textJson r.claimId := rfl

@[simp] theorem field_task_id : field (exportedMembers r) "task_id" = textJson r.taskId := rfl

end Exported

/-- The text over which an entry is hashed. -/
def segmentLink (e : List (String × Json)) : String :=
  canonical (.obj [
    ("event_type", field e "event_type"),
    ("actor_did", field e "actor_did"),
    ("timestamp", field e "timestamp"),
    ("payload_hash", field e "payload_hash"),
    ("prev_hash", (field e "prev_hash").or (.str "")),
    ("claim_id", (field e "claim_id").or (.str "")),
    ("task_id", (field e "task_id").or (.str ""))])

/-- One turn of the loop: the entry continues the chain from `prev`. -/
def checkEntry (prev : Json) (e : List (String × Json)) : Bool :=
  ((field e "prev_hash").or .null).pyEq prev &&
  (Json.str (env.sha256Hex (canonical ((field e "payload_json").or (.obj []))))).pyEq
    (field e "payload_hash") &&
  (Json.str (env.sha256Hex (segmentLink e))).pyEq (field e "this_hash")

/-- The loop of `verify_chain_segment`. -/
def walkSegment : Json → List Json → Except FErr Bool
  | _, [] => .ok true
  | prev, .obj e :: entries =>
      if checkEntry env prev e then walkSegment (field e "this_hash") entries else .ok false
  | _, _ :: _ => .error .attributeError

def verifyChainSegment (entries : List Json) : Except FErr Bool := walkSegment env .null entries

/-! ## Importing -/

/-- What `import_peer_chain` returns. -/
structure ImportResult where
  ok : Bool
  /-- Why nothing was fetched. -/
  reason : Option String
  entries : Nat
  terminalHash : Json
  completionEvent : Json
deriving DecidableEq

/-- `entries[-1]["this_hash"] if entries else None`. -/
def terminalHash (entries : List Json) : Except FErr Json :=
  match entries.getLast? with
  | none => .ok .null
  | some e => e.item "this_hash"

/-- The event names that end a task. -/
def completionEvents : List Json :=
  [.str "task_completed", .str "task_voided", .str "task_aborted"]

/-- The event of the last entry that ends the task: the search goes backwards. -/
def completionEvent : List Json → Except FErr Json
  | [] => .ok .null
  | e :: earlier => do
      let event ← e.get "event_type"
      if event ∈ completionEvents then return event else completionEvent earlier

/-- The payload of the entry that records an import. -/
def importPayload (peer : TrustAnchor) (claimId : String) (r : ImportResult) : Json :=
  .obj [
    ("peer_coordinator_did", .str peer.peerCoordinatorDid),
    ("claim_id", .str claimId),
    ("entries", .int r.entries),
    ("terminal_hash", r.terminalHash),
    ("completion_event", r.completionEvent),
    ("ok", .bool r.ok)]

def importPeerChain (fetcher : Option (String → String → List Json)) (peer : TrustAnchor)
    (claimId : String) : FAction ImportResult := do
  let allowed ← allowsNow env peer "audit_chain_export"
  if allowed = false then
    return ⟨false, some "peer trust anchor does not allow audit_chain_export", 0, .null, .null⟩
  else
    match fetcher with
    | none => Exec.raise (.raised (.runtimeError "AuditExport has no fetcher configured"))
    | some fetcher => do
        let entries := fetcher peer.peerEndpointUrl claimId
        let ok ← Exec.lift (verifyChainSegment env entries)
        let terminal ← Exec.lift (terminalHash entries)
        let completion ← Exec.lift (completionEvent entries.reverse)
        let result : ImportResult := ⟨ok, none, entries.length, terminal, completion⟩
        let _ ← onWorld (append env.toEnv (.str "federation_audit_chain_imported")
          peer.peerCoordinatorDid (importPayload peer claimId result) (.str claimId) .null none)
        return result

end Wcp.Federation
