import Wcp.Coordinator.Atomicity
import Wcp.Sdk.Session
/-!
# Publishing capabilities

`publish_capabilities` sends the descriptor of a worker under the name of the method that
reads one.  That method has no parameter for a descriptor, so the call never binds and
nothing reaches the coordinator (`publish_not_published`).  The descriptor does reach it
under the name of the method that writes one (`upsert_published`).
-/

namespace Wcp.Sdk

open Wcp.Base
open Wcp.Coordinator (Env Err World Db WorkerClass dispatch)

structure CapabilityDescriptor where
  workerId : String
  principalId : String
  workerClass : WorkerClass
  currentLocation : Json
  attestationMethodsSupported : Json
  attestationKeys : Json
  availableWindows : Json := .arr []
  certifications : Json := .arr []
  policyWindows : Json := .arr []
  classExtension : Json := .obj []
  asOf : Option String := none
  schemaVersion : String := "wcp/0.2"

/-- `CapabilityDescriptor.to_dict`, at the time `now`. -/
def CapabilityDescriptor.toDict (d : CapabilityDescriptor) (now : DateTime) : Json :=
  let asOf := match d.asOf with
    | some t => if t = "" then now.isoformat else t
    | none => now.isoformat
  .obj [
    ("schema_version", .str d.schemaVersion),
    ("worker_id", .str d.workerId),
    ("principal_id", .str d.principalId),
    ("class", .str d.workerClass.value),
    ("required", .obj [
      ("current_location", d.currentLocation),
      ("available_windows", d.availableWindows),
      ("attestation_methods_supported", d.attestationMethodsSupported),
      ("certifications", d.certifications),
      ("policy_windows", d.policyWindows),
      ("attestation_keys", d.attestationKeys),
      ("as_of", .str asOf)]),
    ("class_extension", d.classExtension)]

variable {env : Env}

/-- The parameters that `WorkerSession.publish_capabilities` sends. -/
def publishParams (identity : WorkerIdentity env) (d : CapabilityDescriptor) (now : DateTime) :
    Json :=
  .obj [("worker_id", .str identity.did), ("capabilities", d.toDict now)]

/-- The RPC that `WorkerSession.publish_capabilities` sends, dispatched. -/
def publishCapabilities (identity : WorkerIdentity env) (d : CapabilityDescriptor)
    (now : DateTime) : Coordinator.Action Json :=
  dispatch env (.str "capabilities/list") (publishParams identity d now)

/-- A worker's row that holds a descriptor. -/
def Published (d : CapabilityDescriptor) (now : DateTime) (db : Db) : Prop :=
  ∃ row, db.findWorker d.workerId = some row ∧ row.capabilitiesJson = d.toDict now ∧
    row.principalId = d.principalId

/-- The method that reads capabilities takes no descriptor: the call raises, and changes
nothing. -/
theorem publishCapabilities_raises (identity : WorkerIdentity env) (d : CapabilityDescriptor)
    (now : DateTime) (w : World) :
    publishCapabilities identity d now w = (.error .typeError, w) := rfl

/-- Whatever the state of the coordinator, publishing does not succeed and leave the descriptor in
the worker's row. -/
theorem publish_not_published (env : Env) (identity : WorkerIdentity env)
    (d : CapabilityDescriptor) (now : DateTime) (w : World) :
    ¬ ∃ result w', publishCapabilities identity d now w = (.ok result, w') ∧
      Published d now w'.db := by
  rintro ⟨result, w', hok, -⟩
  rw [publishCapabilities_raises] at hok
  cases hok

/-- A descriptor of a worker that registered under the all-zero key. -/
def zeroDescriptor : CapabilityDescriptor where
  workerId := zeroIdentity.did
  principalId := "did:wcp:principal"
  workerClass := .human
  currentLocation := .obj [("site", .str "dock 4")]
  attestationMethodsSupported := .arr [.str "gps_track"]
  attestationKeys := .arr []

/-- A descriptor that is published does not even reach the row of its own worker. -/
theorem zeroDescriptor_not_published :
    ¬ ∃ result w', publishCapabilities zeroIdentity zeroDescriptor (.utc Coordinator.newYear2026)
        (Coordinator.initial []) = (.ok result, w') ∧
      Published zeroDescriptor (.utc Coordinator.newYear2026) w'.db := by
  rintro ⟨result, w', hok, -⟩
  rw [publishCapabilities_raises] at hok
  cases hok

/-! ## The method that writes -/

section Upsert

open Wcp.Coordinator (storeWorker flush upsertCapabilities upsert_ends upsertChecks
  resolveOrRefuse writeDb_bind)

variable {w : World}

theorem findWorker_updateWorker {db : Db} {id : String}
    {f : Coordinator.WcpWorker → Coordinator.WcpWorker} (hf : ∀ r, (f r).workerId = r.workerId) :
    (db.updateWorker id f).findWorker id = (db.findWorker id).map f := by
  rw [Db.updateWorker, Db.findWorker, Db.findWorker, List.find?_map]
  have hsame :
      (fun r : Coordinator.WcpWorker => decide ((if r.workerId = id then f r else r).workerId =
      id)) = fun r => decide (r.workerId = id) := by
    funext r
    split
    · rw [hf]
    · rfl
  show Option.map _ (List.find? (fun r => decide ((if r.workerId = id then f r else r).workerId =
    id)) _) = _
  rw [hsame]
  cases hfind : db.workers.find? fun r => decide (r.workerId = id) with
  | none => rfl
  | some row =>
      have hid : row.workerId = id := by simpa using List.find?_some hfind
      simp [hid]

/-- The row that is stored holds the descriptor, whether it is new or not. -/
theorem storeWorker_holds {existing : Option Coordinator.WcpWorker} {did principal : String}
    {workerClass : WorkerClass} {capabilities ttlSeconds : Json} {asOf : DateTime}
    (hclean : w.doomed = false) (hprincipal : env.bindColumn (.str principal) = some principal)
    (hint : env.bindsInt ttlSeconds = true) (hexisting : w.db.findWorker did = existing) :
    Exec.Ends (storeWorker env existing did workerClass capabilities (.str principal) ttlSeconds
        asOf) w
      fun r w' => r = .ok () ∧ ∃ row, w'.db.findWorker did = some row ∧
        row.capabilitiesJson = capabilities ∧ row.principalId = principal := by
  cases existing with
  | none =>
      simp only [storeWorker, hprincipal, hint]
      refine writeDb_bind ?_
      unfold Exec.Ends flush
      rw [if_neg (by simp [hclean])]
      refine ⟨rfl, ⟨did, principal, workerClass, capabilities, 1, ttlSeconds, env.storeTime asOf⟩,
        ?_,
        rfl, rfl⟩
      rw [Db.findWorker, List.find?_append]
      have hnone : w.db.workers.find? (fun w => w.workerId = did) = none := hexisting
      rw [hnone]
      simp
  | some row =>
      have hid : row.workerId = did := by simpa using List.find?_some hexisting
      simp only [storeWorker, hprincipal, hint, hid]
      refine ⟨rfl, _, (findWorker_updateWorker ?_).trans (congrArg _ hexisting), rfl, rfl⟩
      exact fun _ => rfl

/-- Sent under the name of the method that writes, with the principal, a descriptor of a known
version reaches the row of its worker wherever the driver stores its ids. -/
theorem upsert_published (identity : WorkerIdentity env) {d : CapabilityDescriptor}
    (hnames : d.workerId = identity.did)
    (hversion : d.schemaVersion = "wcp/0.1" ∨ d.schemaVersion = "wcp/0.2")
    (hkey : env.bindText (.str identity.did) = some identity.did)
    (hprincipal : env.bindText (.str d.principalId) = some d.principalId)
    (hint : env.bindsInt (.int 3600) = true) (hclean : w.doomed = false) (now : DateTime) :
    ∃ result w', dispatch env (.str "capabilities/upsert")
        (.obj [("worker_id", .str identity.did), ("capabilities", d.toDict now),
          ("principal_id", .str d.principalId)]) w = (.ok result, w') ∧
      Published d now w'.db := by
  obtain ⟨resolved, hresolve, -⟩ := resolve_did identity
  have hdid : Json.str identity.did = .str resolved.did := Coordinator.resolve_text hresolve
  have hchecks : upsertChecks env w.db (.str identity.did) (d.toDict now) =
      .ok (resolved, d.workerClass, w.db.findWorker identity.did) := by
    have hresolved :
        resolveOrRefuse env "DID_NOT_RESOLVED: " (.str identity.did) = .ok resolved := by
      rw [resolveOrRefuse, hresolve]
    have hfind : w.db.getWorker env (.str identity.did) = .ok (w.db.findWorker identity.did) := by
      rw [Db.getWorker, Coordinator.lookupKey_of_hashable rfl, Coordinator.comparedText_str hkey]
      rfl
    simp only [upsertChecks, bind_eq_ok]
    refine ⟨resolved, hresolved, .str d.schemaVersion, rfl, (), ?_, .str d.workerClass.value, rfl,
      d.workerClass, ?_, _, hfind, rfl⟩
    · rw [Exec.ensure, if_pos (hversion.imp (congrArg Json.str) (congrArg Json.str))]
    · have hclass : WorkerClass.ofValue (.str d.workerClass.value) = some d.workerClass := by
        cases d.workerClass <;> decide +kernel
      rw [Coordinator.namedClass, hclass]
  have hends : Exec.Ends (upsertCapabilities env (.str identity.did) (d.toDict now)
      (.str d.principalId) (.int 3600)) w
      fun r w' => (∃ result, r = .ok result) ∧ Published d now w'.db := by
    refine upsert_ends (fun e he => ?_) fun resolved' workerClass existing hfound => ?_
    · cases hchecks.symm.trans he
    · cases hchecks.symm.trans hfound
      have hcolumn : env.bindColumn (.str d.principalId) = some d.principalId := by
        rw [Coordinator.Driver.bindColumn, if_neg (by simp), hprincipal]
      rw [← Json.str.inj hdid, ← hnames]
      refine Exec.Ends.bind (Exec.Ends.mono (storeWorker_holds hclean hcolumn hint rfl) ?_)
      rintro r w' ⟨rfl, hrow⟩
      exact Exec.Ends.pure ⟨⟨_, rfl⟩, hrow⟩
  obtain ⟨⟨result, hresult⟩, hpublished⟩ := hends
  refine ⟨result, _, Prod.ext ?_ rfl, hpublished⟩
  show Except.mapError Coordinator.mapException (upsertCapabilities env (.str identity.did)
    (d.toDict now) (.str d.principalId) (.int 3600) w).1 = _
  rw [hresult]
  rfl

end Upsert

end Wcp.Sdk
