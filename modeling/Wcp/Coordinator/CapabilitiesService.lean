import Wcp.Coordinator.DidResolver
/-!
# Capabilities

Worker registration, subscriptions and the matcher.  The matcher walks the
worker table and raises on the first descriptor whose shape it cannot read.
-/

namespace Wcp.Coordinator

open Wcp.Base

variable (env : Env)

/-- Resolve a DID for a request; a resolution failure becomes a `ValueError`. -/
def resolveOrRefuse (label : String) (did : Json) : Except Err ResolvedDID :=
  match resolve env did with
  | .error (.raised (.didResolution message)) => .error (.valueError (label ++ message))
  | r => r

/-- Insert the row of a worker, or update the row found.  Only an insertion is flushed, so a
value that the driver refuses in an update surfaces at the commit. -/
def storeWorker (existing : Option WcpWorker) (did : String) (workerClass : WorkerClass)
    (capabilities principalId ttlSeconds : Json) (asOf : DateTime) : Action Unit :=
  match env.bindColumn principalId, env.bindsInt ttlSeconds, existing with
  | some principal, true, none => do
      writeDb fun db => { db with
        workers := db.workers ++ [{
          workerId := did
          principalId := principal
          workerClass := workerClass
          capabilitiesJson := capabilities
          revision := 1
          ttlSeconds := ttlSeconds
          asOf := env.storeTime asOf }] }
      flush
  | some principal, true, some row =>
      writeDb fun db => db.updateWorker row.workerId fun w => { w with
        principalId := principal
        workerClass := workerClass
        capabilitiesJson := capabilities
        revision := w.revision + 1
        ttlSeconds := ttlSeconds
        asOf := env.storeTime asOf }
  | _, _, none => do
      doom
      flush
  | _, _, some _ => doom

def upsertCapabilities (workerId capabilities principalId ttlSeconds : Json) : Action Json := do
  let resolved ← Exec.lift (resolveOrRefuse env "DID_NOT_RESOLVED: " workerId)
  let schemaVersion ← Exec.lift (capabilities.get "schema_version")
  Exec.require (schemaVersion = .str "wcp/0.1" ∨ schemaVersion = .str "wcp/0.2")
    (.valueError ("INVALID_PARAMS: capabilities.schema_version must be " ++
      "wcp/0.1 or wcp/0.2"))
  let workerClassStr ← Exec.lift (capabilities.get "class")
  let workerClass ← Exec.lift <|
    match WorkerClass.ofValue workerClassStr with
    | some c => Except.ok c
    | none => Except.error (.valueError
        ("INVALID_PARAMS: invalid worker class " ++ env.repr workerClassStr))
  let existing ← readDb fun db => db.getWorker env workerId
  let asOf ← utcnow env
  storeWorker env existing resolved.did workerClass capabilities principalId ttlSeconds asOf
  let revision : Nat := match existing with
    | none => 1
    | some row => row.revision + 1
  return .obj [
    ("worker_id", workerId),
    ("capabilities", capabilities),
    ("ttl_seconds", ttlSeconds),
    ("revision", .int revision)]

def listCapabilities (db : Db) (workerId : Json) : Except Err Json := do
  match ← db.getWorker env workerId with
  | none => throw (.valueError ("DID_NOT_RESOLVED: worker " ++ env.repr workerId ++ " unknown"))
  | some row =>
      return .obj [
        ("worker_id", .str row.workerId),
        ("capabilities", row.capabilitiesJson),
        ("ttl_seconds", row.ttlSeconds),
        ("revision", .int row.revision)]

/-- `CapabilitiesService.create_subscription`, with the endpoint and lifetime that the
dispatcher leaves at their defaults. -/
def createSubscription (agentDid filterDict sinceRevision : Json) : Action Json := do
  let resolved ← Exec.lift (resolveOrRefuse env "DID_NOT_RESOLVED: " agentDid)
  let subId ← uuid4 env
  let endpoint := "wss://localhost/wcp/sub/" ++ subId
  if sinceRevision = .null ∨ env.bindsInt sinceRevision = true then do
    writeDb fun db => { db with
      subscriptions := db.subscriptions ++ [{
        subscriptionId := subId
        agentDid := resolved.did
        filterJson := filterDict
        sinceRevision := sinceRevision
        streamEndpoint := endpoint
        ttlSeconds := 3600 }] }
    flush
  else do
    doom
    flush
  return .obj [
    ("subscription_id", .str subId),
    ("stream_endpoint", .str endpoint),
    ("ttl_seconds", .int 3600)]

/-! ## Matching -/

/-- A label compared with the worker class.  A member's value or name stands for the member;
another string is passed to the database, which may refuse it. -/
def classLabel (v : Json) : Except Err (Option WorkerClass) :=
  match v with
  | .null => .ok none
  | .str s =>
      match WorkerClass.all.find? fun c => s = c.value ∨ s = c.name with
      | some c => .ok (some c)
      | none => if env.acceptsLabel s then .ok none else .error (.raised .database)
  | _ => .error (.raised .statement)

/-- The labels of an `IN` over the worker class: a list, or the keys of an object. -/
def classLabels (filter : Json) : Except Err (List (Option WorkerClass)) :=
  match filter with
  | .arr xs => xs.mapM (classLabel env)
  | .obj ms => (ms.map fun m => Json.str m.1).mapM (classLabel env)
  | _ => .error (.raised .statement)

/-- The ids of a worker's certifications, as a set. -/
def certificationIds (certifications : Json) : Except Err (List Json) := do
  let elements ← (certifications.or (.arr [])).iter
  elements.mapM fun c => do
    let id ← (c.or (.obj [])).get "id"
    if id.hashable then return id else throw .typeError

/-- What a task asks of a worker. -/
structure Wanted where
  methods : List Json
  descriptors : List Json
  certifications : List Json
  venue : Json

/-- Every requested method is supported. -/
def methodsMatch (wanted : List Json) (required : Json) : Except Err Bool :=
  if wanted = [] then .ok true
  else do
    let supported ← required.getD "attestation_methods_supported" (.arr [])
    return Json.subset wanted (← (supported.or (.arr [])).toSet)

/-- Every requested descriptor type is supported; a worker that declares none accepts all. -/
def descriptorsMatch (wanted : List Json) (required : Json) : Except Err Bool :=
  if wanted = [] then .ok true
  else do
    if ← required.contains "descriptor_types_supported" then
      let supported ← required.getD "descriptor_types_supported" (.arr [])
      return Json.subset wanted (← (supported.or (.arr [])).toSet)
    else return true

/-- Every requested certification is held. -/
def certificationsMatch (wanted : List Json) (required : Json) : Except Err Bool :=
  if wanted = [] then .ok true
  else do
    let held ← required.getD "certifications" (.arr [])
    return Json.subset wanted (← certificationIds held)

/-- The requested venue is the worker's. -/
def venueMatch (wanted : Json) (required : Json) : Except Err Bool :=
  if wanted = .null then .ok true
  else do
    let location ← required.get "current_location"
    let venue ← (location.or (.obj [])).get "venue_id"
    return venue.pyEq wanted

/-- Run the second test only if the first one passed. -/
def andThen (a b : Except Err Bool) : Except Err Bool :=
  match a with
  | .ok true => b
  | r => r

/-- Whether a worker's `required` block meets a query; the tests run in this order and stop
at the first one that fails. -/
def matchesRequired (wanted : Wanted) (capabilities : Json) : Except Err Bool := do
  let block ← (capabilities.or (.obj [])).get "required"
  let required := block.or (.obj [])
  andThen (methodsMatch wanted.methods required) <|
    andThen (descriptorsMatch wanted.descriptors required) <|
    andThen (certificationsMatch wanted.certifications required) <|
    venueMatch wanted.venue required

/-- Keep the workers whose descriptor meets a query. -/
def filterWorkers (wanted : Wanted) : List WcpWorker → Except Err (List WcpWorker)
  | [] => .ok []
  | w :: ws => do
      let keep ← matchesRequired wanted w.capabilitiesJson
      let rest ← filterWorkers wanted ws
      return if keep then w :: rest else rest

/-- The workers of the requested classes, all of them when no class is requested. -/
def candidateWorkers (db : Db) (workerClassFilter : Json) : Except Err (List WcpWorker) :=
  if workerClassFilter.truthy then do
    let labels ← classLabels env workerClassFilter
    return db.workers.filter fun w => labels.contains (some w.workerClass)
  else .ok db.workers

/-- `CapabilitiesService.matching_workers`; `query` is the capability query, an object. -/
def matchingWorkers (db : Db) (query : Json) (workerClassFilter : Json) :
    Except Err (List WcpWorker) := do
  let candidates ← candidateWorkers env db workerClassFilter
  if query.truthy = false then return candidates
  else
    let methods ← ((← query.getD "attestation_methods" (.arr [])).or (.arr [])).toSet
    let descriptors ← ((← query.getD "descriptor_types" (.arr [])).or (.arr [])).toSet
    let certifications ← ((← query.getD "certifications" (.arr [])).or (.arr [])).toSet
    let venue ← query.get "location_venue_id"
    filterWorkers ⟨methods, descriptors, certifications, venue⟩ candidates

end Wcp.Coordinator
