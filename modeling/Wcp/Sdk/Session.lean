import Wcp.Base.JsonReader
import Wcp.Coordinator.EvidenceBinding
import Wcp.Coordinator.Router
import Wcp.Sdk.Identity
/-!
# Worker sessions of the Python SDK

A session signs what it sends, writes the request with `json.dumps` and leaves the
coordinator to read it with `json.loads` and to rebuild the signed body from the
parameters.  The two sides build the same bodies, so what a session sends passes
the coordinator's signature check (`session_agrees`).
-/

namespace Wcp.Sdk

open Wcp.Base
open Wcp.Coordinator (Env Err Action claim executeEvent attest)

/-! ## Keys -/

/-- `Ed25519PrivateKey`: 32-byte public keys and 64-byte signatures that verify. -/
structure Ed25519PrivateKey (env : Env) where
  publicKey : List UInt8
  sign : String → List UInt8
  length_publicKey : publicKey.length = 32
  length_sign : ∀ m, (sign m).length = 64
  sign_verifies : ∀ m, env.ed25519Verify publicKey (sign m) m = true

/-- `WorkerIdentity`: a key and the DID made of it. -/
structure WorkerIdentity (env : Env) where
  key : Ed25519PrivateKey env
  did : String
  did_eq : (didFromPubkey key.publicKey : Except Err String) = .ok did

def urlsafeB64nopad (b : List UInt8) : List Char :=
  ((urlsafeB64encode b).reverse.dropWhile (· = '=')).reverse

variable {env : Env}

def WorkerIdentity.sign (identity : WorkerIdentity env) (payload : Json) : Json :=
  .str ("ed25519:" ++ String.ofList (urlsafeB64nopad (identity.key.sign (canonical payload))))

/-! ## Requests -/

/-- `json.dumps(v)`. -/
def dumps (v : Json) : String := String.ofList (dump [' '] v)

/-- The message of `RpcClient.call`. -/
def callMessage (requestId : Nat) (method : String) (params : Json) : String :=
  dumps (.obj [
    ("jsonrpc", .str "2.0"),
    ("id", .int requestId),
    ("method", .str method),
    ("params", params.or (.obj []))])

section Session

variable (identity : WorkerIdentity env)

def acceptanceHash (env : Env) (taskId : Json) : Json :=
  .str (env.sha256Hex (canonical (.obj [("task_id", taskId)])))

/-- What `WorkerSession.claim` signs, at the time `signedAt`. -/
def acceptanceBody (taskId eta bid : Json) (signedAt : DateTime) : Json :=
  .obj [
    ("task_id", taskId),
    ("worker_id", .str identity.did),
    ("eta", eta),
    ("bid", bid),
    ("payload_hash", acceptanceHash env taskId),
    ("signed_at", .str signedAt.isoformat)]

/-- The acceptance that `WorkerSession.claim` sends. -/
def acceptance (taskId eta bid : Json) (signedAt : DateTime) : Json :=
  .obj [
    ("sig", identity.sign (acceptanceBody identity taskId eta bid signedAt)),
    ("alg", .str "Ed25519"),
    ("payload_hash", acceptanceHash env taskId),
    ("signed_at", .str signedAt.isoformat)]

/-- The parameters that `WorkerSession.claim` sends. -/
def claimParams (taskId eta bid : Json) (signedAt : DateTime) : Json :=
  .obj [
    ("task_id", taskId),
    ("worker_id", .str identity.did),
    ("eta", eta),
    ("bid", bid),
    ("acceptance_attestation", acceptance identity taskId eta bid signedAt)]

/-- The signature of `WorkerSession.emit_event`. -/
def eventSig (claimId eventType payload : Json) (ts : DateTime) : Json :=
  identity.sign (.obj [
    ("claim_id", claimId),
    ("event_type", eventType),
    ("timestamp", .str ts.isoformat),
    ("payload", payload)])

/-- The parameters that `WorkerSession.emit_event` sends. -/
def eventParams (claimId eventType payload : Json) (ts : DateTime) : Json :=
  .obj [
    ("claim_id", claimId),
    ("event_type", eventType),
    ("timestamp", .str ts.isoformat),
    ("payload", payload),
    ("sig", eventSig identity claimId eventType payload ts)]

structure AttestationEvidence where
  mode : Coordinator.AttestationMode
  kind : Json
  payload : Json
  payloadHash : Json
  sig : Json
  workerId : Json
  claimId : Json
  collectedAt : Json

def AttestationEvidence.toDict (e : AttestationEvidence) : Json :=
  .obj [
    ("schema_version", .str "wcp/0.2"),
    ("mode", .str e.mode.value),
    ("kind", e.kind),
    ("payload", e.payload),
    ("payload_hash", e.payloadHash),
    ("sig", e.sig),
    ("worker_id", e.workerId),
    ("claim_id", e.claimId),
    ("collected_at", e.collectedAt)]

/-- What `WorkerSession.build_evidence` is given. -/
structure EvidenceInput where
  mode : Coordinator.AttestationMode
  kind : Json
  payload : Json
  collectedAt : Json
  /-- The clock, read where no time is given. -/
  now : DateTime

def buildEvidence (claimId : Json) (input : EvidenceInput) : AttestationEvidence :=
  let collectedAt := input.collectedAt.or (.str input.now.isoformat)
  let payloadHash := Json.str (env.sha256Hex (canonical input.payload))
  { mode := input.mode
    kind := input.kind
    payload := input.payload
    payloadHash := payloadHash
    sig := identity.sign (.obj [
      ("mode", .str input.mode.value),
      ("kind", input.kind),
      ("payload_hash", payloadHash),
      ("worker_id", .str identity.did),
      ("claim_id", claimId),
      ("collected_at", collectedAt)])
    workerId := .str identity.did
    claimId := claimId
    collectedAt := collectedAt }

/-- The parameters that `WorkerSession.attest` sends. -/
def attestParams (claimId : Json) (evidence : List AttestationEvidence)
    (compensatingAction : Option Json) : Json :=
  .obj ([("claim_id", claimId), ("attestations", .arr (evidence.map AttestationEvidence.toDict))] ++
    match compensatingAction with
    | some action => [("compensating_action", action)]
    | none => [])

end Session

/-! ## Signatures verify -/

theorem resolve_did (identity : WorkerIdentity env) :
    ∃ resolved, Coordinator.resolve env (.str identity.did) = .ok resolved ∧
      resolved.publicKey = identity.key.publicKey := by
  obtain ⟨d, r, -, hsdk, hresolve, hkey, -⟩ :=
    @resolve_didFromPubkey _ env _ identity.key.length_publicKey
  cases identity.did_eq.symm.trans hsdk
  exact ⟨r, hresolve, hkey⟩

theorem verify_sign (identity : WorkerIdentity env) {resolved : Coordinator.ResolvedDID}
    (hkey : resolved.publicKey = identity.key.publicKey) (payload : Json) :
    Coordinator.verify env resolved (canonical payload) (identity.sign payload) = .ok () := by
  have hlength : (identity.key.sign (canonical payload)).length % 3 = 1 := by
    rw [identity.key.length_sign]
  have hdecode := urlsafeB64decode_two_pads hlength
  have htext : ("ed25519:" ++ String.ofList
      (urlsafeB64nopad (identity.key.sign (canonical payload)))).toList =
      "ed25519:".toList ++ urlsafeB64nopad (identity.key.sign (canonical payload)) :=
    String.toList_append.trans (congrArg _ String.toList_ofList)
  have hdrop : ("ed25519:".toList ++ urlsafeB64nopad (identity.key.sign (canonical payload))).drop 8
      = urlsafeB64nopad (identity.key.sign (canonical payload)) := rfl
  have hverifies := identity.key.sign_verifies (canonical payload)
  rw [← hkey] at hverifies
  rw [Coordinator.verify, WorkerIdentity.sign, bind_eq_ok]
  refine ⟨_, rfl, ?_⟩
  rw [htext, if_neg (by simp), hdrop, urlsafeB64nopad, hdecode]
  exact if_pos hverifies

/-! ## Delivery -/

section Delivery

open Wcp.Coordinator (dispatch member methods mapException Method)

/-- The coordinator reads a message on the socket and calls a service method. -/
def Delivers (float : List Char → Option PyFloat) (env : Env) (message : String)
    (service : Action Json) : Prop :=
  ∃ ms, loads float message = some (.obj ms) ∧
    dispatch env (member ms "method") ((member ms "params").or (.obj [])) =
      Exec.mapError mapException service

/-- The interpreter reads a number back from the text it writes for it. -/
def ReadsBack (float : List Char → Option PyFloat) : Prop :=
  ∀ f : PyFloat, float f.text.toList = some f

theorem call_eq_body {m : Method} {ms : List (String × Json)}
    (hbind : m.signature.bindParams (.obj ms) = .ok ms) : m.call (.obj ms) = m.body ms := by
  rw [Method.call, hbind]
  rfl

theorem delivers {float : List Char → Option PyFloat} (hfloat : ReadsBack float)
    {requestId : Nat} {name : String} {ms : List (String × Json)} {m : Method}
    (hparsed : (Json.obj ms).parsed = true) (hname : (methods env).lookup name = some m)
    (hbind : m.signature.bindParams (.obj ms) = .ok ms) (hne : ms ≠ []) :
    Delivers float env (callMessage requestId name (.obj ms)) (m.body ms) := by
  have htruthy : (Json.obj ms).or (.obj []) = .obj ms := by
    cases ms with
    | nil => exact absurd rfl hne
    | cons m ms => rfl
  have hdispatch : dispatch env (.str name) (.obj ms) = Exec.mapError mapException (m.body ms) := by
    rw [dispatch, hname, htruthy]
    exact congrArg (Exec.mapError mapException) (call_eq_body hbind)
  refine ⟨_, loads_dump (by simp [isSpace]) ?_ fun f _ => hfloat f, ?_⟩
  · rw [htruthy]
    simp only [Json.parsed, parsedMembers, Bool.and_true, Bool.true_and] at hparsed ⊢
    rw [hparsed, Bool.and_true]
    exact (by decide : decide ["jsonrpc", "id", "method", "params"].Nodup = true)
  · rw [htruthy]
    exact (congrArg (dispatch env (.str name)) htruthy).trans hdispatch

end Delivery

/-! ## Agreement -/

section Agreement

open Wcp.Coordinator (claimVerifyAcceptance eventVerify EvidenceHeader attestPlan WcpClaim)

variable {float : List Char → Option PyFloat} (identity : WorkerIdentity env)

theorem sign_truthy (payload : Json) : (identity.sign payload).truthy = true := by
  have hne : "ed25519:" ++ String.ofList
      (urlsafeB64nopad (identity.key.sign (canonical payload))) ≠ "" := by
    intro h
    have hlength := congrArg (fun s => s.toList.length) h
    simp at hlength
  exact bne_iff_ne.2 hne

theorem claimVerifyAcceptance_ok
    {taskId workerId eta attestation bid sig payloadHash signedAt : Json}
    {resolved : Coordinator.ResolvedDID}
    (hsig : attestation.get "sig" = (.ok sig : Except Err Json))
    (hhash : attestation.get "payload_hash" = (.ok payloadHash : Except Err Json))
    (hsigned : attestation.get "signed_at" = (.ok signedAt : Except Err Json))
    (hcomplete : sig.truthy = true ∧ payloadHash.truthy = true ∧ signedAt.truthy = true)
    (hresolve : Coordinator.resolve env workerId = .ok resolved)
    (hverify : Coordinator.verify env resolved
      (Coordinator.claimBody taskId workerId eta bid payloadHash signedAt) sig = .ok ()) :
    claimVerifyAcceptance env taskId workerId eta attestation bid = .ok resolved := by
  unfold claimVerifyAcceptance
  simp only [bind_eq_ok]
  refine ⟨sig, hsig, payloadHash, hhash, signedAt, hsigned, (), ensure_eq_ok.2 hcomplete, ?_⟩
  simp [hresolve, hverify, bind, Except.bind, pure, Except.pure]

theorem claimVerifyAcceptance_session (hsha : ∀ s, env.sha256Hex s ≠ "") (taskId eta bid : Json)
    (signedAt : DateTime) :
    ∃ resolved, claimVerifyAcceptance env taskId (.str identity.did) eta
      (acceptance identity taskId eta bid signedAt) bid = .ok resolved := by
  obtain ⟨resolved, hresolve, hkey⟩ := resolve_did identity
  refine ⟨resolved, ?_⟩
  have hverify := verify_sign identity hkey (acceptanceBody identity taskId eta bid signedAt)
  have htruthy : ∀ s : String, s ≠ "" → (Json.str s).truthy = true := by
    intro s hs
    exact bne_iff_ne.2 hs
  have hcomplete : (identity.sign (acceptanceBody identity taskId eta bid signedAt)).truthy = true ∧
      (acceptanceHash env taskId).truthy = true ∧ (Json.str signedAt.isoformat).truthy = true :=
    ⟨sign_truthy identity _, htruthy _ (hsha _), htruthy _ signedAt.isoformat_ne_empty⟩
  exact claimVerifyAcceptance_ok rfl rfl rfl hcomplete hresolve hverify

/-- The event that a session sends passes the check of `execute_event`. -/
theorem eventVerify_session {c : WcpClaim} (hworker : c.workerId = identity.did)
    (claimId eventType payload : Json) (ts : DateTime) :
    eventVerify env c claimId eventType (.str ts.isoformat) payload
      (eventSig identity claimId eventType payload ts) = .ok () := by
  obtain ⟨resolved, hresolve, hkey⟩ := resolve_did identity
  have hverify := verify_sign identity hkey (.obj [
    ("claim_id", claimId),
    ("event_type", eventType),
    ("timestamp", .str ts.isoformat),
    ("payload", payload)])
  rw [eventVerify, bind_eq_ok]
  refine ⟨resolved, hworker ▸ hresolve, ?_⟩
  rw [Coordinator.eventBody, eventSig, hverify]

/-- The header of an evidence item that a session builds. -/
def evidenceHeader (claimId : Json) (input : EvidenceInput) : EvidenceHeader :=
  let e := buildEvidence identity claimId input
  ⟨.str e.mode.value, e.kind, e.payloadHash, e.collectedAt, e.sig⟩

/-- The evidence that a session sends passes the check of `attest`, and its hash is that of its
payload. -/
theorem signed_session {db : Coordinator.Db} {claimId attestations : Json}
    {plan : Coordinator.AttestPlan} (hplan : attestPlan env db claimId attestations = .ok plan)
    (hworker : plan.claim.workerId = identity.did) (input : EvidenceInput) :
    (evidenceHeader identity claimId input).Signed env plan claimId := by
  obtain ⟨resolved, hresolve, hkey⟩ := resolve_did identity
  obtain ⟨-, -, -, -, -, hresolved, -⟩ := Coordinator.attestPlan_eq_ok.1 hplan
  rw [hworker] at hresolved
  cases hresolve.symm.trans hresolved
  unfold EvidenceHeader.Signed
  rw [hworker]
  exact verify_sign identity hkey _

/-- The members of a JSON object that a session sends are what `json.loads` gives. -/
theorem toDict_parsed {claimId : Json} {input : EvidenceInput} (hclaim : claimId.parsed = true)
    (hkind : input.kind.parsed = true) (hpayload : input.payload.parsed = true)
    (htime : input.collectedAt.parsed = true) :
    (buildEvidence identity claimId input).toDict.parsed = true := by
  have hcollected : (input.collectedAt.or (.str input.now.isoformat)).parsed = true := by
    unfold Json.or
    split
    · exact htime
    · rfl
  simp [AttestationEvidence.toDict, buildEvidence, WorkerIdentity.sign, Json.parsed, parsedMembers,
    hclaim, hkind, hpayload, hcollected]

/-- SDK and coordinator agree on what is signed.  Whatever JSON a session is given, the requests
that it writes for `claim`, `emit_event` and `attest` are read by the coordinator as the calls that
were meant, and pass the signature check for the claim whose worker is the session's identity; and
the hash of an evidence item is that of the payload received. -/
theorem session_agrees (hfloat : ReadsBack float) (hsha : ∀ s, env.sha256Hex s ≠ "")
    (requestId : Nat) :
    (∀ taskId eta bid signedAt, taskId.parsed = true → eta.parsed = true → bid.parsed = true →
      Delivers float env
        (callMessage requestId "tasks/claim" (claimParams identity taskId eta bid signedAt))
        (claim env taskId (.str identity.did) eta (acceptance identity taskId eta bid signedAt)
          bid) ∧
      ∃ resolved, claimVerifyAcceptance env taskId (.str identity.did) eta
        (acceptance identity taskId eta bid signedAt) bid = .ok resolved) ∧
    (∀ claimId eventType payload ts, claimId.parsed = true → eventType.parsed = true →
      payload.parsed = true →
      Delivers float env
        (callMessage requestId "tasks/execute.event"
          (eventParams identity claimId eventType payload ts))
        (executeEvent env claimId eventType (.str ts.isoformat) payload
          (eventSig identity claimId eventType payload ts)) ∧
      ∀ c : WcpClaim, c.workerId = identity.did →
        eventVerify env c claimId eventType (.str ts.isoformat) payload
          (eventSig identity claimId eventType payload ts) = .ok ()) ∧
    ∀ claimId (inputs : List EvidenceInput) action, claimId.parsed = true →
      (∀ v ∈ action, v.parsed = true) →
      (∀ input ∈ inputs, input.kind.parsed = true ∧ input.payload.parsed = true ∧
        input.collectedAt.parsed = true) →
      Delivers float env
        (callMessage requestId "tasks/attest"
          (attestParams claimId (inputs.map (buildEvidence identity claimId)) action))
        (do
          let answer ← attest env claimId
            (.arr ((inputs.map (buildEvidence identity claimId)).map AttestationEvidence.toDict))
          return answer.toJson) ∧
      ∀ input ∈ inputs,
        (evidenceHeader identity claimId input).Carries
          (buildEvidence identity claimId input).toDict input.payload ∧
        (evidenceHeader identity claimId input).payloadHash =
          .str (env.sha256Hex (canonical input.payload)) ∧
        ∀ db attestations plan, attestPlan env db claimId attestations = .ok plan →
          plan.claim.workerId = identity.did →
          (evidenceHeader identity claimId input).Signed env plan claimId := by
  refine ⟨?_, ?_, ?_⟩
  · intro taskId eta bid signedAt htask heta hbid
    refine ⟨?_, claimVerifyAcceptance_session identity hsha taskId eta bid signedAt⟩
    refine delivers (m := Coordinator.tasksClaim env) hfloat ?_ rfl rfl (by simp)
    simp [acceptance, acceptanceHash, WorkerIdentity.sign, Json.parsed, parsedMembers, htask, heta,
      hbid]
  · intro claimId eventType payload ts hclaim htype hpayload
    refine ⟨?_, fun c hworker => eventVerify_session identity hworker claimId eventType payload ts⟩
    refine delivers (m := Coordinator.tasksExecuteEvent env) hfloat ?_ rfl rfl (by simp)
    simp [eventSig, WorkerIdentity.sign, Json.parsed, parsedMembers, hclaim, htype, hpayload]
  · intro claimId inputs action hclaim haction hinputs
    constructor
    · have hitems : parsedList
          ((inputs.map (buildEvidence identity claimId)).map AttestationEvidence.toDict) =
        true := by
        rw [parsedList_iff, List.map_map]
        intro v hv
        obtain ⟨input, hinput, rfl⟩ := List.mem_map.1 hv
        obtain ⟨hkind, hpayload, htime⟩ := hinputs input hinput
        exact toDict_parsed identity hclaim hkind hpayload htime
      cases action with
      | none =>
          refine delivers (m := Coordinator.tasksAttest env) hfloat ?_ rfl rfl (by simp)
          simp [Json.parsed, parsedMembers, hclaim, hitems, -List.map_map]
      | some action =>
          refine delivers (m := Coordinator.tasksAttest env) hfloat ?_ rfl rfl (by simp)
          simp [Json.parsed, parsedMembers, hclaim, hitems, haction action rfl, -List.map_map]
    · intro input hinput
      refine ⟨⟨rfl, rfl, rfl, rfl, rfl, rfl⟩, rfl, ?_⟩
      intro db attestations plan hplan hworker
      exact signed_session identity hplan hworker input

end Agreement

/-! ## A session of the all-zero key -/

section ZeroSession

open Wcp.Coordinator (localEnv localEnv_sha256Hex_ne_empty zeroDid localDate newYear2026)

/-- The local environment with signatures of 64 bytes, which show the signer's key twice. -/
def doubledEnv : Env := { localEnv with
  ed25519Verify := fun key sig _ => decide (sig = key ++ key)
  auditSign := fun _ => List.replicate 64 7
  auditSign_verifies := fun _ => decide_eq_true rfl }

def zeroIdentity : WorkerIdentity doubledEnv where
  key := {
    publicKey := List.replicate 32 0
    sign := fun _ => List.replicate 64 0
    length_publicKey := rfl
    length_sign := fun _ => rfl
    sign_verifies := fun _ => rfl }
  did := zeroDid
  did_eq := by decide +kernel

/-- A float is the text it was written as. -/
def readFloat (cs : List Char) : Option PyFloat :=
  if h : isFloatText cs = true then some ⟨String.ofList cs, by rwa [String.toList_ofList]⟩ else none

theorem readFloat_readsBack : ReadsBack readFloat := by
  intro f
  rw [readFloat, dif_pos f.isText]
  simp

/-- A claim with no bid. -/
theorem session_agrees_zero :
    Delivers readFloat doubledEnv
      (callMessage 1 "tasks/claim"
        (claimParams zeroIdentity (.str "t1") localDate .null (.utc newYear2026)))
      (claim doubledEnv (.str "t1") (.str zeroDid) localDate
        (acceptance zeroIdentity (.str "t1") localDate .null (.utc newYear2026)) .null) :=
  ((session_agrees zeroIdentity readFloat_readsBack localEnv_sha256Hex_ne_empty 1).1 (.str "t1")
    localDate .null (.utc newYear2026) rfl rfl rfl).1

end ZeroSession

end Wcp.Sdk
