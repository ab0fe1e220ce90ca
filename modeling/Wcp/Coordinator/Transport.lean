import Wcp.Coordinator.Atomicity
import Wcp.Coordinator.Isolation
/-!
# From requests to calls

A request over either transport asks for at most one call of a service (`Request.asks`), and
leaves what this call leaves, or nothing (`serve_refines`).  So the database after any history of
requests is the one after the committed calls alone, each made again when it was made
(`served_replays`).
-/

namespace Wcp.Coordinator

open Wcp.Base
open Wcp.Base.Exec

variable {env : Env} {exceptions : Exceptions} {w : World}

/-! ## What a request asks for -/

/-- The call that a method makes with the values bound to its parameters; `capabilities/list` and
`audit/observe` only read. -/
def serviceCall (env : Env) (name : String) (ms : List (String × Json)) : Option Call :=
  match name with
  | "capabilities/upsert" =>
      let arg := (capabilitiesUpsert env).signature.arg ms
      some (.upsertCapabilities (arg "worker_id") (arg "capabilities") (arg "principal_id")
        (arg "ttl_seconds"))
  | "capabilities/subscribe" =>
      let arg := (capabilitiesSubscribe env).signature.arg ms
      some (.createSubscription (arg "agent_did") (arg "filter") (arg "since_revision"))
  | "tasks/post" =>
      let sig := (tasksPost env).signature
      some (.post (sig.arg ms "task") (sig.arg ms "expiry") ((Json.obj (sig.rest ms)).or .null))
  | "tasks/claim" =>
      let arg := (tasksClaim env).signature.arg ms
      some (.claim (arg "task_id") (arg "worker_id") (arg "eta") (arg "acceptance_attestation")
        (arg "bid"))
  | "tasks/execute" => some (.executeOpen ((tasksExecuteOpen env).signature.arg ms "claim_id"))
  | "tasks/execute.event" =>
      let arg := (tasksExecuteEvent env).signature.arg ms
      some (.executeEvent (arg "claim_id") (arg "event_type") (arg "timestamp") (arg "payload")
        (arg "sig"))
  | "tasks/attest" =>
      let arg := (tasksAttest env).signature.arg ms
      some (.attest (arg "claim_id") (arg "attestations"))
  | "tasks/supervise" =>
      let arg := (tasksSupervise env).signature.arg ms
      some (.supervise (arg "claim_id") (arg "handoff_reason") (arg "urgency"))
  | "tasks/abort" =>
      let arg := (tasksAbort env).signature.arg ms
      some (.abort (arg "claim_id") (arg "reason") (arg "state_snapshot"))
  | _ => none

/-- The call that a method makes with the `params` of a request, if these bind. -/
def Method.asks (env : Env) (m : Method) (name : String) (params : Json) : Option Call :=
  match m.signature.bindParams params with
  | .ok ms => serviceCall env name ms
  | .error _ => none

/-- The call that a dispatched request makes. -/
def dispatched (env : Env) (method params : Json) : Option Call :=
  match method with
  | .str name =>
      ((methods env).lookup name).bind fun m => m.asks env name (params.or (.obj []))
  | _ => none

def Request.asks (env : Env) : Request → Option Call
  | .rpc payload =>
      if member payload "jsonrpc" = .str "2.0" then
        dispatched env (member payload "method") ((member payload "params").or (.obj []))
      else none
  | .ws (some (.obj req)) =>
      dispatched env (member req "method") ((member req "params").or (.obj []))
  | .ws _ => none

/-- A POST is committed once it has a reply, and a message on the socket once its reply is a
result. -/
def Request.commits (reply : Option Json) : Request → Bool
  | .rpc _ => reply.isSome
  | .ws _ => !carriesError reply

/-! ## One request -/

theorem body_asks {name : String} {m : Method} (hm : (name, m) ∈ methods env)
    (ms : List (String × Json)) :
    (∃ call, serviceCall env name ms = some call ∧ m.body ms = serviceMethod env call) ∨
      (serviceCall env name ms = none ∧ ∀ w, (m.body ms w).2 = w) := by
  simp only [methods, List.mem_cons, Prod.mk.injEq, List.not_mem_nil, or_false] at hm
  rcases hm with ⟨rfl, rfl⟩ | ⟨rfl, rfl⟩ | ⟨rfl, rfl⟩ | ⟨rfl, rfl⟩ | ⟨rfl, rfl⟩ | ⟨rfl, rfl⟩ |
    ⟨rfl, rfl⟩ | ⟨rfl, rfl⟩ | ⟨rfl, rfl⟩ | ⟨rfl, rfl⟩ | ⟨rfl, rfl⟩
  · exact .inr ⟨rfl, fun _ => rfl⟩
  · exact .inl ⟨_, rfl, rfl⟩
  · exact .inl ⟨_, rfl, rfl⟩
  · exact .inl ⟨_, rfl, rfl⟩
  · exact .inl ⟨_, rfl, rfl⟩
  · exact .inl ⟨_, rfl, rfl⟩
  · exact .inl ⟨_, rfl, rfl⟩
  · exact .inl ⟨_, rfl, rfl⟩
  · exact .inl ⟨_, rfl, rfl⟩
  · exact .inl ⟨_, rfl, rfl⟩
  · exact .inr ⟨rfl, fun _ => rfl⟩

/-- What a dispatched request does: a call, whose exceptions are translated, or nothing. -/
def Asks (env : Env) (m : Action Json) : Option Call → Prop
  | some call => ∀ w, m w =
      ((serviceMethod env call w).1.mapError mapException, (serviceMethod env call w).2)
  | none => ∀ w, (m w).2 = w

theorem call_asks {name : String} {m : Method} (hm : (name, m) ∈ methods env) (params : Json) :
    Asks env (Exec.mapError mapException (m.call params)) (m.asks env name params) := by
  unfold Method.asks
  cases hms : m.signature.bindParams params with
  | error e =>
      have hcall : ∀ w, m.call params w = (.error e, w) := by
        intro w
        rw [Method.call, hms]
        rfl
      intro w
      exact congrArg Prod.snd (hcall w)
  | ok ms =>
      have hcall : m.call params = m.body ms := by
        rw [Method.call, hms]
        rfl
      rw [hcall]
      rcases body_asks hm ms with ⟨call, hasks, hbody⟩ | ⟨hnone, hbody⟩
      · show Asks env _ (serviceCall env name ms)
        rw [hasks, hbody]
        exact fun _ => rfl
      · show Asks env _ (serviceCall env name ms)
        rw [hnone]
        exact hbody

theorem dispatch_asks (method params : Json) :
    Asks env (dispatch env method params) (dispatched env method params) := by
  have hother : ∀ v : Json, Asks env (if v.hashable then
      Exec.raise (.raised (.jsonRpc methodNotFoundCode ("no such method: " ++ env.str v)))
      else Exec.raise .typeError) none := by
    intro v w
    split <;> rfl
  cases method with
  | str name =>
      unfold dispatch dispatched
      dsimp only
      cases hm : (methods env).lookup name with
      | none => exact fun _ => rfl
      | some m => exact call_asks (mem_methods_of_lookup hm) _
  | _ => exact hother _

theorem dispatched_or (method params : Json) :
    dispatched env method (params.or (.obj [])) = dispatched env method params := by
  unfold dispatched
  rw [or_or]

/-- A transaction that is committed leaves what the call leaves, and one that only reads leaves
the database as it is. -/
theorem Asks.settled {m : Action Json} {asked : Option Call} (h : Asks env m asked)
    (hclean : w.doomed = false) :
    (w.settle (m w)).db = asked.elim w.db fun call => (step env w call).db := by
  cases asked with
  | none =>
      rcases hm : m w with ⟨r, w'⟩
      have hw' : w' = w := (congrArg Prod.snd hm).symm.trans (h w)
      rw [hw']
      by_cases hr : r = .error (.raised .database)
      · rw [hr]
        rfl
      · exact settle_of_clean hr hclean
  | some call =>
      rw [h w, settle_mapException, Option.elim_some, step_eq_settle]

theorem rpc_dispatches {payload : List (String × Json)} {name : String}
    (hmethod : member payload "method" = .str name)
    (hversion : member payload "jsonrpc" = .str "2.0") :
    rpc env exceptions payload w =
      let outcome := dispatch env (.str name) ((member payload "params").or (.obj [])) w
      w.respond (rpcReply exceptions (member payload "id") outcome.1) outcome := by
  unfold rpc
  rw [hmethod]
  exact if_pos hversion

theorem rpc_invalid {payload : List (String × Json)}
    (h : (∀ name, member payload "method" ≠ .str name) ∨
      member payload "jsonrpc" ≠ .str "2.0") :
    rpc env exceptions payload w = w.respond
      (errorReply (member payload "id") invalidRequestCode "Invalid Request") (.ok .null, w) := by
  unfold rpc
  dsimp only
  split
  · next name hmethod =>
      rcases h with h | h
      · exact absurd hmethod (h name)
      · exact if_neg h
  · rfl

theorem rpc_refines (hclean : w.doomed = false) (payload : List (String × Json)) :
    (rpc env exceptions payload w).2.db =
      if (rpc env exceptions payload w).1.isSome then
        (Request.asks env (.rpc payload)).elim w.db fun call => (step env w call).db
      else w.db := by
  have hrespond : ∀ {m : Action Json} {asked : Option Call}, Asks env m asked → ∀ reply : Json,
      (w.respond reply (m w)).2.db = if (w.respond reply (m w)).1.isSome then
        asked.elim w.db fun call => (step env w call).db else w.db := by
    intro m asked hasks reply
    unfold World.respond
    split
    · exact hasks.settled hclean
    · rfl
  have hinvalid : (∀ name, member payload "method" ≠ .str name) ∨
      member payload "jsonrpc" ≠ .str "2.0" → Request.asks env (.rpc payload) = none →
      (rpc env exceptions payload w).2.db = if (rpc env exceptions payload w).1.isSome then
        (Request.asks env (.rpc payload)).elim w.db fun call => (step env w call).db
        else w.db := by
    intro h hnone
    rw [rpc_invalid h, hnone]
    exact @hrespond (pure .null) none (fun _ => rfl) _
  by_cases hversion : member payload "jsonrpc" = .str "2.0"
  · have hasks : Request.asks env (.rpc payload) =
        dispatched env (member payload "method") ((member payload "params").or (.obj [])) :=
      if_pos hversion
    cases hmethod : member payload "method" with
    | str name =>
        rw [rpc_dispatches hmethod hversion, hasks, hmethod]
        exact hrespond (dispatch_asks _ _) _
    | _ =>
        refine hinvalid (.inl fun name => by rw [hmethod]; simp) ?_
        rw [hasks, hmethod]
        rfl
  · exact hinvalid (.inr hversion) (if_neg hversion)

/-- A message on the socket is answered with an error and rolled back, or with a result and
committed. -/
theorem ws_dispatches (req : List (String × Json)) :
    let outcome := dispatch env (member req "method") ((member req "params").or (.obj [])) w
    (∃ e, ws env exceptions (some (.obj req)) w =
        (some (wsError exceptions (member req "id") e), w.rollback outcome)) ∨
      ∃ result, outcome.1 = .ok result ∧ outcome.2.doomed = false ∧
        ws env exceptions (some (.obj req)) w =
          (some (resultReply (member req "id") result), w.settle outcome) := by
  unfold ws World.reply
  dsimp only
  split
  · next result hresult =>
      split
      · exact .inl ⟨_, rfl⟩
      · next hclean => exact .inr ⟨result, hresult, by simpa using hclean, rfl⟩
  · next e _ => exact .inl ⟨e, rfl⟩

theorem ws_refines (hclean : w.doomed = false) (message : Option Json) :
    (ws env exceptions message w).2.db =
      if carriesError (ws env exceptions message w).1 then w.db
      else (Request.asks env (.ws message)).elim w.db fun call => (step env w call).db := by
  have herror : ∀ (id : Json) (e : Err), carriesError (some (wsError exceptions id e)) = true := by
    intro id e
    unfold wsError
    split <;> rfl
  cases message with
  | none => rfl
  | some v =>
      cases v with
      | obj req =>
          have hasks := @dispatch_asks env (member req "method")
            ((member req "params").or (.obj []))
          rcases @ws_dispatches env exceptions w req with ⟨e, hws⟩ | ⟨result, -, -, hws⟩
          · rw [hws, herror]
            rfl
          · rw [hws]
            exact hasks.settled hclean
      | _ => rfl

def Request.committed (env : Env) (exceptions : Exceptions) (w : World) (request : Request) :
    Option Call :=
  if request.commits (serve env exceptions request w).1 then request.asks env else none

/-- A request leaves what the call that it asks for leaves, if it is committed, and nothing
otherwise. -/
theorem serve_refines (hclean : w.doomed = false) (request : Request) :
    (serve env exceptions request w).2.db = (request.committed env exceptions w).elim w.db
      fun call => (step env w call).db := by
  unfold Request.committed
  cases request with
  | rpc payload =>
      refine (rpc_refines hclean payload).trans ?_
      show _ = Option.elim (if (rpc env exceptions payload w).1.isSome then _ else none) _ _
      split <;> rfl
  | ws message =>
      refine (ws_refines hclean message).trans ?_
      show _ = Option.elim (if (!carriesError (ws env exceptions message w).1) = true then _
        else none) _ _
      cases carriesError (ws env exceptions message w).1 <;> rfl

/-! ## Whole histories -/

def Event.committed (env : Env) (exceptions : Exceptions) (w : World) : Event → Option Call
  | .request r => r.committed env exceptions w
  | .call c => some c

/-- The calls that a history commits, each with its moment and its answer. -/
def committed (env : Env) (exceptions : Exceptions) : World → List Event → List Served
  | _, [] => []
  | w, event :: history =>
      ((event.committed env exceptions w).map fun call =>
        Served.mk w.tick call (serviceMethod env call w).1).toList ++
        committed env exceptions (eventStep env exceptions w event) history

theorem eventStep_refines (hclean : w.doomed = false) (event : Event) :
    (eventStep env exceptions w event).db =
      (event.committed env exceptions w).elim w.db fun call => (step env w call).db := by
  cases event with
  | request r => exact serve_refines hclean r
  | call c => rfl

theorem committed_none {event : Event} (h : event.committed env exceptions w = none)
    (history : List Event) : committed env exceptions w (event :: history) =
      committed env exceptions (eventStep env exceptions w event) history := by
  rw [committed, h]
  rfl

theorem committed_some {event : Event} {call : Call}
    (h : event.committed env exceptions w = some call) (history : List Event) :
    committed env exceptions w (event :: history) =
      ⟨w.tick, call, (serviceMethod env call w).1⟩ ::
        committed env exceptions (eventStep env exceptions w event) history := by
  rw [committed, h]
  rfl

theorem replay_committed {history : List Event} (h : w.Ready) (n : Nat) :
    replies env ⟨w.db, n, false⟩ (committed env exceptions w history) =
        (committed env exceptions w history).map (·.answer) ∧
      (replay env ⟨w.db, n, false⟩ (committed env exceptions w history)).db =
        (run (eventStep env exceptions) w history).db := by
  induction history generalizing w n with
  | nil => exact ⟨rfl, rfl⟩
  | cons event history ih =>
      have hnext : (eventStep env exceptions w event).Ready := by
        obtain ⟨hclean, call, hchanges⟩ := @eventStep_transacted env w exceptions h event
        exact ⟨hclean, hchanges.wellFormed h.2⟩
      have hdb := @eventStep_refines env exceptions w h.1 event
      have hnow : World.mk w.db w.tick false = w := by
        rw [← h.1]
      cases hcall : event.committed env exceptions w with
      | none =>
          rw [hcall, Option.elim_none] at hdb
          rw [committed_none hcall, ← hdb]
          exact ih hnext n
      | some call =>
          rw [hcall, Option.elim_some] at hdb
          have hstep : step env w call =
              ⟨(eventStep env exceptions w event).db, (step env w call).tick, false⟩ := by
            rw [hdb, ← step_doomed env w call]
          obtain ⟨hreplies, hreplay⟩ := ih hnext (step env w call).tick
          rw [committed_some hcall]
          refine ⟨?_, ?_⟩
          · show (serviceMethod env call ⟨w.db, w.tick, false⟩).1 ::
              replies env (step env ⟨w.db, w.tick, false⟩ call) _ = _ :: _
            rw [hnow, hstep, hreplies]
          · show (replay env (step env ⟨w.db, w.tick, false⟩ call) _).db = _
            rw [hnow, hstep, hreplay]
            rfl

/-- After any history of requests and calls, the database is the one that the committed calls
leave, made again one after the other, each when it was made; and each gets the answer it got. -/
theorem served_replays (env : Env) (exceptions : Exceptions) (workers : List WcpWorker)
    (history : List Event) :
    replies env (initial workers) (committed env exceptions (initial workers) history) =
        (committed env exceptions (initial workers) history).map (·.answer) ∧
      (served env exceptions workers history).db =
        (replay env (initial workers) (committed env exceptions (initial workers) history)).db := by
  obtain ⟨hreplies, hreplay⟩ := @replay_committed env exceptions (initial workers) history
    ⟨rfl, initial_wellFormed workers⟩ 0
  exact ⟨hreplies, hreplay.symm⟩

end Wcp.Coordinator
