import Wcp.Base.Base64
import Wcp.Coordinator.Environment
/-!
# The audit chain

`append` links an entry to the latest entry of its claim, hashes the link fields
and signs them; `verifyChain` walks the entries of a claim in timestamp order and
recomputes everything.  Both build the signed text with `linkBytes`.
-/

namespace Wcp.Coordinator

open Wcp.Base

variable (env : Env)

/-! ## The signer -/

def sigPrefix : String := "ed25519:"

def sign (data : String) : String :=
  sigPrefix ++ String.ofList
    ((urlsafeB64encode (env.auditSign data)).reverse.dropWhile (· = '=')).reverse

/-- `AuditSigner.verify`. -/
def signerVerify (data signature : String) : Bool :=
  if sigPrefix.toList.isPrefixOf signature.toList then
    let body := signature.toList.drop sigPrefix.toList.length
    -- the padding that `sign` stripped
    match urlsafeB64decode (body ++ b64Padding body.length) with
    | .ok sig => env.ed25519Verify env.auditPublicKey sig data
    | .error _ => false
  else false

/-! ## Links -/

/-- The text that is hashed and signed for an entry.  The hash of the predecessor, the
claim and the task are written as the empty string when absent. -/
def linkBytes (eventType : Json) (actorDid timestamp payloadHash prevHash : String)
    (claimId taskId : Json) : String :=
  canonical (.obj [
    ("event_type", eventType),
    ("actor_did", .str actorDid),
    ("timestamp", .str timestamp),
    ("payload_hash", .str payloadHash),
    ("prev_hash", .str prevHash),
    ("claim_id", claimId),
    ("task_id", taskId)])

/-- The link text of a stored entry. -/
def WcpAudit.linkBytes (e : WcpAudit) : String :=
  Coordinator.linkBytes (.str e.eventType) e.actorDid (isoformatNaive e.timestamp) e.payloadHash
    (e.prevHash.getD "") (.str (e.claimId.getD "")) (.str (e.taskId.getD ""))

def Db.entriesOf (db : Db) (claimId : String) : List WcpAudit :=
  db.audit.filter fun e => e.claimId = some claimId

/-- `_latest_hash_for_claim`: the hash of an entry with the greatest timestamp. -/
def latestHashForClaim (query : Nat) (db : Db) (claimId : String) : Option String :=
  (env.descending query (db.entriesOf claimId)).head?.map (·.thisHash)

/-- The hash that an entry of a claim is linked to; an entry of no claim is linked to none. -/
def predecessor (query : Nat) (db : Db) (claimId : Json) : Except Err (Option String) :=
  if claimId.truthy then do
    let key ← env.comparedText claimId
    return key.bind (latestHashForClaim env query db)
  else return none

/-- The statement that reads the predecessor first sends what is pending. -/
def autoflush (claimId : Json) : Action Unit := if claimId.truthy then flush else pure ()

/-- What `append` returns. -/
structure AuditAppendResult where
  entryId : String
  thisHash : String
  prevHash : Option String
deriving DecidableEq

/-- The naive UTC reading under which an entry is stored. -/
def normalizeTimestamp (timestamp : DateTime) : Except Err Nat := timestamp.assumeUtc.toNaiveUtc

/-- The entry that `append` builds, given its timestamp, its id and its predecessor.
`claim` and `task` are the texts under which the driver stores the two ids. -/
def buildEntry (eventType : Json) (storedType : String) (actorDid : String) (payload : Json)
    (claimId taskId : Json) (claim task : Option String) (timestamp : Nat)
    (prevHash : Option String) (entryId : String) : WcpAudit :=
  let payloadHash := env.sha256Hex (canonical payload)
  let link := linkBytes eventType actorDid (isoformatNaive timestamp) payloadHash
    (prevHash.getD "") (claimId.or (.str "")) (taskId.or (.str ""))
  { entryId := entryId
    claimId := claim
    taskId := task
    eventType := storedType
    timestamp := timestamp
    actorDid := actorDid
    payloadJson := payload
    payloadHash := payloadHash
    prevHash := prevHash
    thisHash := env.sha256Hex link
    sig := sign env link }

def append (eventType : Json) (actorDid : String) (payload : Json) (claimId taskId : Json)
    (timestamp : Option DateTime) : Action AuditAppendResult := do
  let ts ← match timestamp with
    | some ts => pure ts
    | none => utcnow env
  let tsUtcNaive ← Exec.lift (normalizeTimestamp ts)
  autoflush claimId
  let prevHash ← Exec.reads fun w => predecessor env w.tick w.db claimId
  let entryId ← uuid4 env
  match env.bindColumn eventType, env.bindNullable claimId, env.bindNullable taskId with
  | some storedType, some claim, some task =>
      let entry := buildEntry env eventType storedType actorDid payload claimId taskId claim task
        tsUtcNaive prevHash entryId
      writeDb fun db => { db with audit := db.audit ++ [entry] }
      flush
      return ⟨entryId, entry.thisHash, prevHash⟩
  | _, _, _ => do
      doom
      flush
      return ⟨entryId, "", prevHash⟩

/-! ## Verification -/

/-- The walk of `verify_chain`: every entry continues the chain from `prev`, carries the
hashes of its own content and a signature over its link. -/
def walkChain : Option String → List WcpAudit → Bool
  | _, [] => true
  | prev, e :: es =>
      decide (e.prevHash = prev) &&
      decide (env.sha256Hex (canonical e.payloadJson) = e.payloadHash) &&
      decide (env.sha256Hex e.linkBytes = e.thisHash) &&
      signerVerify env e.linkBytes e.sig &&
      walkChain (some e.thisHash) es

def verifyChain (query : Nat) (db : Db) (claimId : String) : Bool :=
  walkChain env none (env.ascending query (db.entriesOf claimId))

end Wcp.Coordinator
