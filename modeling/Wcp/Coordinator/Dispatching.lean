import Wcp.Coordinator.Authorship
import Wcp.Coordinator.Taxonomy
/-!
# A dispatched request and the taxonomy

`MapsFailures` is what a dispatched request should do whatever its parameters are:
return, or raise an error of the protocol, which is `-32602` where a parameter is
missing or unknown.  `dispatch_maps_iff` is the exact condition in every state that
events reach: the parameters bind, and the values that the method comes to use have
the shapes that it needs.
-/

namespace Wcp.Coordinator

open Wcp.Base
open Wcp.Base.Exec

variable {env : Env} {w : World} {ms : List (String × Json)}

/-! ## Binding -/

namespace Signature

variable {sig : Signature}

/-- A required member is missing, or there is one that the method neither defines nor collects. -/
def Refuses (sig : Signature) (ms : List (String × Json)) : Prop :=
  (∃ key ∈ sig.required, ms.lookup key = none) ∨
    (sig.takesRest = false ∧ ∃ m ∈ ms, m.1 ∉ sig.names)

/-- The members bind to the parameters; `self` is never collected. -/
structure Binds (sig : Signature) (ms : List (String × Json)) : Prop where
  required : ∀ key ∈ sig.required, (ms.lookup key).isSome = true
  known : ∀ m ∈ ms, m.1 ∈ sig.names ∨ (sig.takesRest = true ∧ m.1 ≠ "self")

theorem Binds.not_refuses (h : sig.Binds ms) : ¬ sig.Refuses ms := by
  rintro (⟨key, hkey, hnone⟩ | ⟨hrest, m, hm, hunknown⟩)
  · have hsome := h.required key hkey
    rw [hnone] at hsome
    cases hsome
  · rcases h.known m hm with hknown | ⟨htakes, -⟩
    · exact hunknown hknown
    · cases hrest.symm.trans htakes

theorem binds_iff : sig.Binds ms ↔
    (sig.required.all fun key => (ms.lookup key).isSome) = true ∧
      (ms.all fun m => sig.names.contains m.1 || (sig.takesRest && m.1 != "self")) = true := by
  simp only [List.all_eq_true, Bool.or_eq_true, Bool.and_eq_true, List.contains_iff_mem,
    bne_iff_ne]
  exact ⟨fun h => ⟨h.required, h.known⟩, fun h => ⟨h.1, h.2⟩⟩

theorem bindParams_of_binds (h : sig.Binds ms) : sig.bindParams (.obj ms) = .ok ms := by
  obtain ⟨hrequired, hknown⟩ := binds_iff.1 h
  unfold bindParams ensure
  dsimp only
  rw [if_pos hrequired, if_pos hknown]
  rfl

theorem bindParams_of_not_binds (h : ¬ sig.Binds ms) :
    sig.bindParams (.obj ms) = .error .typeError := by
  unfold bindParams ensure
  dsimp only
  by_cases hrequired : (sig.required.all fun key => (ms.lookup key).isSome) = true
  · have hunknown := fun hknown => h (binds_iff.2 ⟨hrequired, hknown⟩)
    rw [if_pos hrequired, if_neg hunknown]
    rfl
  · rw [if_neg hrequired]
    rfl

end Signature

/-! ## Methods -/

/-- The values that a method comes to use have the shapes that it needs. -/
def CallOperands (env : Env) (w : World) (name : String) (ms : List (String × Json)) : Prop :=
  match name with
  | "capabilities/list" =>
      ListOperands env ((capabilitiesList env).signature.arg ms "worker_id")
  | "capabilities/upsert" =>
      let arg := (capabilitiesUpsert env).signature.arg ms
      UpsertOperands env w.db (arg "worker_id") (arg "capabilities") (arg "principal_id")
        (arg "ttl_seconds")
  | "capabilities/subscribe" =>
      let arg := (capabilitiesSubscribe env).signature.arg ms
      SubscribeOperands env (arg "agent_did") (arg "since_revision")
  | "tasks/post" =>
      let arg := (tasksPost env).signature.arg ms
      PostRequestOperands env w (arg "task") (arg "expiry")
  | "tasks/claim" =>
      let arg := (tasksClaim env).signature.arg ms
      ClaimOperands env w (arg "task_id") (arg "worker_id") (arg "eta")
        (arg "acceptance_attestation") (arg "bid")
  | "tasks/execute" =>
      ExecuteOpenOperands env w.db ((tasksExecuteOpen env).signature.arg ms "claim_id")
  | "tasks/execute.event" =>
      let arg := (tasksExecuteEvent env).signature.arg ms
      ExecuteEventOperands env w.db (arg "claim_id") (arg "event_type") (arg "timestamp")
        (arg "payload") (arg "sig")
  | "tasks/attest" =>
      let arg := (tasksAttest env).signature.arg ms
      AttestOperands env w.db (arg "claim_id") (arg "attestations")
  | "tasks/supervise" =>
      SuperviseOperands env w.db ((tasksSupervise env).signature.arg ms "claim_id")
  | "tasks/abort" =>
      AbortOperands env w.db ((tasksAbort env).signature.arg ms "claim_id")
  | "audit/observe" =>
      let arg := (auditObserve env).signature.arg ms
      ObserveOperands env (arg "claim_id") (arg "task_id")
  | _ => True

/-- What the methods rely on in a state: that it is ready, that the requirements are valid and
that the workers of the claims resolve. -/
structure World.Dispatches (env : Env) (w : World) : Prop where
  ready : w.Ready
  valid : w.db.Valid env
  workers : ∀ c ∈ w.db.claims, Resolves env c.workerId

theorem body_maps (h : w.Dispatches env) {name : String} {m : Method}
    (hm : (name, m) ∈ methods env) (ms : List (String × Json)) :
    RaisesOnly Mapped (m.body ms w).1 ↔ CallOperands env w name ms := by
  obtain ⟨⟨hclean, hwf⟩, hvalid, hworkers⟩ := h
  simp only [methods, List.mem_cons, Prod.mk.injEq, List.not_mem_nil, or_false] at hm
  rcases hm with ⟨rfl, rfl⟩ | ⟨rfl, rfl⟩ | ⟨rfl, rfl⟩ | ⟨rfl, rfl⟩ | ⟨rfl, rfl⟩ | ⟨rfl, rfl⟩ |
    ⟨rfl, rfl⟩ | ⟨rfl, rfl⟩ | ⟨rfl, rfl⟩ | ⟨rfl, rfl⟩ | ⟨rfl, rfl⟩
  · exact mapped_listCapabilities w.db _
  · exact upsertCapabilities_maps hclean _ _ _ _
  · exact createSubscription_maps hclean _ _ _
  · exact post_maps hclean _ _ _
  · exact claim_maps hclean hvalid
  · exact executeOpen_maps hclean
  · exact executeEvent_maps hclean hworkers _ _ _ _
  · have hbody := Exec.bind_pure_apply
      (attest env ((tasksAttest env).signature.arg ms "claim_id")
        ((tasksAttest env).signature.arg ms "attestations")) AttestResult.toJson w
    refine (iff_of_eq (congrArg (fun r => RaisesOnly Mapped r.1) hbody)).trans ?_
    exact raisesOnly_map.trans (attest_maps hclean hwf hvalid hworkers)
  · exact supervise_maps hclean _ _
  · exact abort_maps hclean hwf _ _
  · refine Iff.trans ?_ (mapped_observeAudit w.tick w.db _ _)
    exact raisesOnly_bind.trans (and_iff_left fun _ _ => raisesOnly_pure _)

/-! ## Dispatch -/

/-- A request that returns or raises an error of the protocol, which is `-32602` where the
parameters are refused. -/
structure MapsFailures (sig : Signature) (ms : List (String × Json)) (r : Except Err Json) :
    Prop where
  taxonomy : ∀ e, r = .error e → ∃ code message, e = .raised (.jsonRpc code message)
  refused : sig.Refuses ms → ∃ message, r = .error (.raised (.jsonRpc invalidParamsCode message))

theorem lookup_methods {name : String} {m : Method} (hm : (name, m) ∈ methods env) :
    (methods env).lookup name = some m := by
  simp only [methods, List.mem_cons, Prod.mk.injEq, List.not_mem_nil, or_false] at hm
  rcases hm with ⟨rfl, rfl⟩ | ⟨rfl, rfl⟩ | ⟨rfl, rfl⟩ | ⟨rfl, rfl⟩ | ⟨rfl, rfl⟩ | ⟨rfl, rfl⟩ |
    ⟨rfl, rfl⟩ | ⟨rfl, rfl⟩ | ⟨rfl, rfl⟩ | ⟨rfl, rfl⟩ | ⟨rfl, rfl⟩ <;> rfl

theorem raisesOnly_mapException {r : Except Err Json} :
    (∀ e, r.mapError mapException = .error e →
      ∃ code message, e = .raised (.jsonRpc code message)) ↔ RaisesOnly Mapped r := by
  cases r with
  | ok a => exact iff_of_true (by simp [Except.mapError]) (raisesOnly_ok a)
  | error e =>
      rw [raisesOnly_error, ← mapException_iff]
      constructor
      · intro h
        exact h _ rfl
      · intro h e' he
        rw [← Except.error.inj he]
        exact h

theorem dispatch_maps (h : w.Dispatches env) {name : String} {m : Method}
    (hm : (name, m) ∈ methods env) (ms : List (String × Json)) :
    MapsFailures m.signature ms (dispatch env (.str name) (.obj ms) w).1 ↔
      m.signature.Binds ms ∧ CallOperands env w name ms := by
  have hdispatch : (dispatch env (.str name) (.obj ms) w).1 =
      (m.call (.obj ms) w).1.mapError mapException := by
    unfold dispatch
    dsimp only
    rw [lookup_methods hm, Json.or_obj]
    rfl
  rw [hdispatch]
  by_cases hbinds : m.signature.Binds ms
  · have hcall : m.call (.obj ms) w = m.body ms w := by
      rw [Method.call, Signature.bindParams_of_binds hbinds]
      rfl
    rw [hcall, and_iff_right hbinds, ← body_maps h hm, ← raisesOnly_mapException]
    constructor
    · intro hmaps
      exact hmaps.taxonomy
    · intro htaxonomy
      exact ⟨htaxonomy, fun hrefuses => absurd hrefuses hbinds.not_refuses⟩
  · have hcall : m.call (.obj ms) w = (.error .typeError, w) := by
      rw [Method.call, Signature.bindParams_of_not_binds hbinds]
      rfl
    rw [hcall]
    refine iff_of_false (fun hmaps => ?_) fun h => hbinds h.1
    obtain ⟨code, message, he⟩ := hmaps.taxonomy _ rfl
    cases he

theorem served_dispatches (env : Env) (exceptions : Exceptions) (workers : List WcpWorker)
    (history : List Event) : (served env exceptions workers history).Dispatches env := by
  obtain ⟨hready, hvalid, hworkers⟩ := @served_invariant
    (fun db => db.Valid env ∧ ∀ c ∈ db.claims, Resolves env c.workerId) env exceptions workers
    history ⟨fun _ h => absurd h List.not_mem_nil, fun _ h => absurd h List.not_mem_nil⟩
    fun _ _ _ _ hchange h => ⟨hchange.valid h.1, hchange.workers h.2⟩
  exact ⟨hready, hvalid, hworkers⟩

/-- In every state that events reach, a dispatched request maps its failures exactly if its
parameters bind and the values that the method comes to use have the shapes that it needs. -/
theorem dispatch_maps_iff (env : Env) (exceptions : Exceptions) (workers : List WcpWorker)
    (history : List Event) {name : String} {m : Method} (hm : (name, m) ∈ methods env)
    (ms : List (String × Json)) :
    MapsFailures m.signature ms
        (dispatch env (.str name) (.obj ms) (served env exceptions workers history)).1 ↔
      m.signature.Binds ms ∧ CallOperands env (served env exceptions workers history) name ms :=
  dispatch_maps (served_dispatches env exceptions workers history) hm ms

/-- The request of a listing that names a worker. -/
theorem dispatch_maps_list :
    MapsFailures (capabilitiesList localEnv).signature [("worker_id", .str zeroDid)]
      (dispatch localEnv (.str "capabilities/list") (.obj [("worker_id", .str zeroDid)])
        (served localEnv localExceptions [] [])).1 :=
  (dispatch_maps_iff localEnv localExceptions [] [] (.head _) _).2
    ⟨Signature.binds_iff.2 ⟨rfl, rfl⟩, .str zeroDid, rfl, rfl⟩

/-- An abort with the member that an earlier version of the protocol had. -/
def legacyAbort : List (String × Json) := [
  ("claim_id", .str "id-1"),
  ("reason", .str "done"),
  ("proposed_settlement", .obj [])]

/-- The unknown member of the abort raises a `TypeError`, and so does an agent DID that is a number
an `AttributeError`: neither is turned into an error of the protocol. -/
theorem legacy_abort_unmapped :
    ¬ MapsFailures (tasksAbort localEnv).signature legacyAbort
        (dispatch localEnv (.str "tasks/abort") (.obj legacyAbort)
          (served localEnv localExceptions [] [])).1 ∧
      ¬ MapsFailures (capabilitiesSubscribe localEnv).signature [("agent_did", .int 1)]
        (dispatch localEnv (.str "capabilities/subscribe") (.obj [("agent_did", .int 1)])
          (served localEnv localExceptions [] [])).1 := by
  constructor
  · intro h
    obtain ⟨code, message, he⟩ := h.taxonomy .typeError rfl
    cases he
  · intro h
    obtain ⟨code, message, he⟩ := h.taxonomy .attributeError rfl
    cases he

end Wcp.Coordinator
