import Wcp.Sdk.V2Worker
/-!
# The active job of the web app

`ExecuteSession` drives one claim from its first `tasks/execute` to the reply to `tasks/attest`.
Any number of them may be open at once, with any number of calls under way, whose replies come in
any order or never.  A completion that is shown or reported is one that the coordinator has
stored, and it is reported once for a task (`completion_reported_once`).

The call of the Cancel button carries a parameter that `tasks/abort` does not have, so it is
refused in every state: no session is ever shown as aborted, and no job is cancelled.
-/

namespace Wcp.Sdk.Execute

open Wcp.Base
open Wcp.Coordinator

/-! ## The component -/

inductive LocalState where
  | opening
  | executing
  | attesting
  | settled
  | disputed
  | aborted
  | supervising
  | error
deriving DecidableEq

/-- A function that awaits a call, with what it sends of its own. -/
inductive Caller where
  | execute
  | sendHeartbeat (now : DateTime)
  | submitAttestation (evidence : List Json)
  | escalate (reason : String) (now : DateTime)
  | abort (reason : String) (now : DateTime)

/-- A call of a session: the reply that the coordinator gave to it, if it was served, and whether
its promise was settled. -/
structure RpcCall where
  caller : Caller
  reply : Option (Option Json)
  done : Bool

def Caller.method : Caller → String
  | .execute => "tasks/execute"
  | .sendHeartbeat _ => "tasks/execute.event"
  | .submitAttestation _ => "tasks/attest"
  | .escalate _ _ => "tasks/supervise"
  | .abort _ _ => "tasks/abort"

/-- `ExecuteSession`: its properties, its state, the calls it made, and what `onComplete` was
called with. -/
structure ExecuteSession (env : Env) where
  identity : WorkerIdentity env
  claimId : Json
  state : LocalState
  evidence : List Json
  verifierDecision : Option Json
  mounted : Bool
  calls : List RpcCall
  completions : List LocalState

variable {env : Env}

/-- `{ last_event_at: new Date().toISOString() }`. -/
def stateSnapshot (now : DateTime) : Json := .obj [("last_event_at", .str (toISOString now))]

/-- `res.verifier_decision`, which throws if there is no result to take it from; only an object
has such a member. -/
def readDecision : Json → Option (Option Json)
  | .null => none
  | .obj ms => some (ms.lookup "verifier_decision")
  | _ => some none

namespace ExecuteSession

variable (l : ExecuteSession env)

def params : Caller → Json
  | .execute => .obj [("claim_id", l.claimId)]
  | .sendHeartbeat now => .obj [
      ("claim_id", l.claimId),
      ("event_type", .str "heartbeat"),
      ("timestamp", .str (toISOString now)),
      ("payload", heartbeatPayload l.claimId),
      ("sig", typescriptSign l.identity (heartbeatBody l.claimId now))]
  | .submitAttestation evidence => .obj [
      ("claim_id", l.claimId),
      ("attestations", .arr evidence)]
  | .escalate reason now => .obj [
      ("claim_id", l.claimId),
      ("handoff_reason", .str reason),
      ("state_snapshot", stateSnapshot now),
      ("urgency", .str "high")]
  | .abort reason now => .obj [
      ("claim_id", l.claimId),
      ("reason", .str reason),
      ("state_snapshot", stateSnapshot now),
      ("proposed_settlement", .str "refund")]

def send (caller : Caller) : ExecuteSession env :=
  { l with calls := l.calls ++ [⟨caller, none, false⟩] }

/-- `setState`; nothing is set in a component that is gone. -/
def setState (state : LocalState) : ExecuteSession env :=
  if l.mounted then { l with state := state } else l

def setVerifierDecision (decision : Option Json) : ExecuteSession env :=
  if l.mounted then { l with verifierDecision := decision } else l

/-- A session when its first effect has run. -/
def mount (identity : WorkerIdentity env) (claimId : Json) : ExecuteSession env :=
  send ⟨identity, claimId, .opening, [], none, true, [], []⟩ .execute

/-- The timer of `sendHeartbeat`, which runs while the session is executing. -/
def tick (now : DateTime) : ExecuteSession env :=
  if l.mounted = true ∧ l.state = .executing then l.send (.sendHeartbeat now) else l

def attachEvidence (e : Json) : ExecuteSession env :=
  if l.mounted then { l with evidence := l.evidence ++ [e] } else l

def submitAttestation : ExecuteSession env :=
  if l.mounted then (l.setState .attesting).send (.submitAttestation l.evidence) else l

def escalate (reason : String) (now : DateTime) : ExecuteSession env :=
  if l.mounted then (l.setState .supervising).send (.escalate reason now) else l

def abort (reason : String) (now : DateTime) : ExecuteSession env :=
  if l.mounted then l.send (.abort reason now) else l

def onComplete (state : LocalState) : ExecuteSession env :=
  { l with completions := l.completions ++ [state] }

/-- How a function goes on when its call returns. -/
def resolved (res : Json) : Caller → ExecuteSession env
  | .execute => l.setState .executing
  | .submitAttestation _ =>
      match readDecision res with
      | none => l.setState .error
      | some decision =>
          if decision = some (.str "pass") then
            ((l.setVerifierDecision decision).setState .settled).onComplete .settled
          else (l.setVerifierDecision decision).setState .error
  | .abort _ _ => (l.setState .aborted).onComplete .aborted
  | .sendHeartbeat _ | .escalate _ _ => l

/-- How a function goes on when its call throws; `escalate` and `abort` do not catch it. -/
def rejected : Caller → ExecuteSession env
  | .execute | .submitAttestation _ => l.setState .error
  | .sendHeartbeat _ | .escalate _ _ | .abort _ _ => l

/-- A call is marked as settled. -/
def finish (j : Nat) : ExecuteSession env :=
  { l with calls := l.calls.modify j fun c => { c with done := true } }

/-- The reply to a call arrives. -/
def receive (j : Nat) : ExecuteSession env :=
  match l.calls[j]? with
  | some c =>
      match c.done, c.reply with
      | false, some reply =>
          match V2.callResult reply with
          | some res => (l.finish j).resolved res c.caller
          | none => (l.finish j).rejected c.caller
      | _, _ => l
  | none => l

/-- A call fails without a reply. -/
def lose (j : Nat) : ExecuteSession env :=
  match l.calls[j]? with
  | some c => if c.done then l else (l.finish j).rejected c.caller
  | none => l

/-- The coordinator has served a call. -/
def answered (j : Nat) (reply : Option Json) : ExecuteSession env :=
  { l with calls := l.calls.modify j fun c => { c with reply := some reply } }

end ExecuteSession

/-! ## Sessions of a coordinator -/

/-- A coordinator and the sessions of all contractors. -/
structure Shift (env : Env) where
  world : World
  sessions : List (ExecuteSession env)

/-- What happens next. -/
inductive Input (env : Env) where
  | elsewhere (e : Event)
  | mount (identity : WorkerIdentity env) (claimId : Json)
  | unmount (i : Nat)
  | tick (i : Nat) (now : DateTime)
  | attachEvidence (i : Nat) (e : Json)
  | submitAttestation (i : Nat)
  | escalate (i : Nat) (reason : String) (now : DateTime)
  | abort (i : Nat) (reason : String) (now : DateTime)
  | serve (i j id : Nat)
  | receive (i j : Nat)
  | lose (i j : Nat)

section Step

variable (exceptions : Exceptions)

/-- The coordinator serves a call, under the id that the client gave to it. -/
def Shift.serve (s : Shift env) (i j id : Nat) : Shift env :=
  match s.sessions[i]? with
  | some l =>
      match l.calls[j]? with
      | some c =>
          if c.reply = none then
            let request := V2.message id c.caller.method (l.params c.caller)
            let outcome := Coordinator.serve env exceptions request s.world
            ⟨outcome.2, s.sessions.modify i fun l => l.answered j outcome.1⟩
          else s
      | none => s
  | none => s

def Shift.modify (s : Shift env) (i : Nat) (f : ExecuteSession env → ExecuteSession env) :
    Shift env :=
  { s with sessions := s.sessions.modify i f }

def step (s : Shift env) : Input env → Shift env
  | .elsewhere e => { s with world := eventStep env exceptions s.world e }
  | .mount identity claimId => { s with sessions := s.sessions ++ [.mount identity claimId] }
  | .unmount i => s.modify i fun l => { l with mounted := false }
  | .tick i now => s.modify i fun l => l.tick now
  | .attachEvidence i e => s.modify i fun l => l.attachEvidence e
  | .submitAttestation i => s.modify i fun l => l.submitAttestation
  | .escalate i reason now => s.modify i fun l => l.escalate reason now
  | .abort i reason now => s.modify i fun l => l.abort reason now
  | .serve i j id => s.serve exceptions i j id
  | .receive i j => s.modify i fun l => l.receive j
  | .lose i j => s.modify i fun l => l.lose j

end Step

/-! ## What the coordinator answers -/

section Served

open Wcp.Base.Exec

variable {exceptions : Exceptions} {w : World}

/-- A claim is stored, on a task that is completed. -/
def Completed (env : Env) (db : Db) (claimId : Json) (t : WcpTask) : Prop :=
  ∃ c, db.Holds c t ∧ env.lookupKey "claim_id" claimId = .ok (some c.claimId) ∧ t.state = .completed

/-- A claim of a state is there still, and a task with the id is completed. -/
def Completes (id : String) (db db' : Db) : Prop :=
  db'.claims = db.claims ∧ ∃ t ∈ db'.tasks, t.taskId = id ∧ t.state = .completed

theorem routeDecision_completes {t : WcpTask} {claimId accountingRef : Json} {attempt : Nat}
    {remaining : Int} {aggregate : VerificationOutcome} (hpass : aggregate.decision = .pass)
    (ht : ∃ r ∈ w.db.tasks, r.taskId = t.taskId) :
    Ends (routeDecision env t claimId attempt remaining accountingRef aggregate) w fun r w' =>
      r = .ok () → Completes t.taskId w.db w'.db := by
  unfold routeDecision
  split
  · refine writeDb_bind (append_bind ?_ (fun _ => by simp) (by simp))
    intro r entry _ _ _ _ _ _ _ _
    obtain ⟨row, hrow, hid⟩ := ht
    refine Ends.pure fun _ => ⟨rfl, _, List.mem_map_of_mem hrow, ?_⟩
    rw [if_pos hid]
    exact ⟨hid, rfl⟩
  · next hfail => cases hfail.symm.trans hpass
  · next hreview => cases hreview.symm.trans hpass

theorem attestWrites_completes {plan : AttestPlan} {claimId : Json}
    {aggregate : VerificationOutcome} (hpass : aggregate.decision = .pass)
    (htask : plan.task ∈ w.db.tasks) :
    Ends (attestWrites env plan claimId aggregate) w fun r w' => ∀ answer, r = .ok answer →
      Completes plan.task.taskId w.db w'.db := by
  unfold attestWrites
  refine writeDb_bind (append_bind ?_ (fun _ => by simp) (by simp))
  intro r entry _ _ _ _ _ _ _ _
  refine Ends.lift_bind (fun accountingRef _ => ?_) fun e _ => by simp
  refine Ends.bind (Ends.mono (routeDecision_completes hpass ?_) ?_)
  · refine ⟨_, List.mem_map_of_mem htask, ?_⟩
    rw [if_pos rfl]
  · rintro (e | u) w' hw'
    · simp
    · exact flush_bind (fun _ => Ends.pure fun _ _ => hw' rfl) (by simp)

/-- A passing attestation completes the task of its claim, which was not completed. -/
theorem attest_pass (claimId attestations : Json) :
    Ends (attest env claimId attestations) w fun r w' => ∀ answer, r = .ok answer →
      answer.verifierDecision = .pass → ∃ c t t', w.db.Holds c t ∧
        env.lookupKey "claim_id" claimId = .ok (some c.claimId) ∧ t.state ≠ .completed ∧
        w'.db.Holds c t' ∧ t'.taskId = t.taskId ∧ t'.state = .completed := by
  refine attest_ends (fun e _ => by simp) (fun plan e w' _ _ _ => by simp) ?_
  rintro plan aggregate w' hplan hagg ⟨⟨added, hdb, -⟩, -⟩
  obtain ⟨hct, hstate, -⟩ := attestPlan_eq_ok.1 hplan
  obtain ⟨hholds, hkey⟩ := claimAndTask_key hct
  have hclaims : w'.db.claims = w.db.claims := by rw [hdb]
  have htasks : w'.db.tasks = w.db.tasks := by rw [hdb]
  have hopen : plan.task.state ≠ .completed := by
    rcases attestCheckState_eq_ok hstate with h | h | h <;> simp [h]
  obtain ⟨ms, hobj⟩ := attestPlan_descriptor hplan
  have hcases := @attestWrites_cases env w' plan claimId aggregate ms hobj
  by_cases hpass : aggregate.decision = .pass
  · refine Ends.mono (attestWrites_completes hpass (htasks ▸ hholds.task)) ?_
    intro r w₂ hwritten answer hanswer _
    obtain ⟨hclaims₂, t', ht', hid, hdone⟩ := hwritten answer hanswer
    refine ⟨plan.claim, plan.task, t', hholds, hkey, hopen, ⟨?_, ht', ?_⟩, hid, hdone⟩
    · rw [hclaims₂, hclaims]
      exact hholds.claim
    · rw [hholds.same, hid]
  · refine Ends.mono hcases ?_
    intro r w₂ hwritten answer hanswer hdecision
    split at hwritten
    · rw [hwritten.1] at hanswer
      rw [← Except.ok.inj hanswer] at hdecision
      exact absurd hdecision hpass
    · split at hwritten
      · rw [hwritten.1] at hanswer
        cases hanswer
      · rw [hwritten] at hanswer
        cases hanswer

theorem answer_pass {answer : AttestResult}
    (h : readDecision answer.toJson = some (some (.str "pass"))) :
    answer.verifierDecision = .pass := by
  have hvalue : answer.verifierDecision.value = "pass" :=
    Json.str.inj (Option.some.inj (Option.some.inj h))
  cases hdecision : answer.verifierDecision with
  | pass => rfl
  | _ =>
      rw [hdecision] at hvalue
      exact absurd hvalue (by decide)

/-- A call that returns a passing decision completes the task of its claim, which was not
completed before. -/
theorem attest_call {l : ExecuteSession env} {evidence : List Json} {id : Nat} {res : Json}
    (h : V2.callResult (serve env exceptions (V2.message id "tasks/attest"
      (l.params (.submitAttestation evidence))) w).1 = some res)
    (hpass : readDecision res = some (some (.str "pass"))) :
    ∃ c t t', w.db.Holds c t ∧ env.lookupKey "claim_id" l.claimId = .ok (some c.claimId) ∧
      t.state ≠ .completed ∧
      (serve env exceptions (V2.message id "tasks/attest"
        (l.params (.submitAttestation evidence))) w).2.db.Holds c t' ∧
      t'.taskId = t.taskId ∧ t'.state = .completed := by
  have hdispatch := @dispatch_asks env (.str "tasks/attest")
    ((l.params (.submitAttestation evidence)).or (.obj []))
  rw [dispatched_or, show dispatched env (.str "tasks/attest")
    (l.params (.submitAttestation evidence)) = some (.attest l.claimId (.arr evidence)) from rfl]
    at hdispatch
  have hrun := hdispatch w
  rcases @V2.serve_message env exceptions w id "tasks/attest"
    (l.params (.submitAttestation evidence)) with ⟨e, hserve⟩ | ⟨result, hresult, hdoomed, hserve⟩
  · rw [hserve, V2.callResult_wsError] at h
    cases h
  · rw [hserve] at h ⊢
    obtain rfl : result = res := Option.some.inj h
    have hattest := @attest_pass env w l.claimId (.arr evidence)
    rw [settle_of_clean (fun heq => by cases hresult.symm.trans heq) hdoomed]
    rw [hrun, serviceMethod, bind_pure_apply] at hresult ⊢
    unfold Ends at hattest
    rcases hm : attest env l.claimId (.arr evidence) w with ⟨e | answer, w'⟩
    · rw [hm] at hresult
      cases hresult
    · rw [hm] at hresult hattest
      obtain rfl : answer.toJson = result := Except.ok.inj hresult
      exact hattest answer rfl (answer_pass hpass)

theorem abort_refused {l : ExecuteSession env} (reason : String) (now : DateTime) (id : Nat) :
    V2.callResult (serve env exceptions (V2.message id "tasks/abort"
        (l.params (.abort reason now))) w).1 = none ∧
      (serve env exceptions (V2.message id "tasks/abort" (l.params (.abort reason now))) w).2.db =
        w.db := by
  rcases @V2.serve_message env exceptions w id "tasks/abort" (l.params (.abort reason now)) with
    ⟨e, hserve⟩ | ⟨result, hresult, hdoomed, hserve⟩
  · rw [hserve]
    exact ⟨V2.callResult_wsError _ _, rfl⟩
  · cases hresult

theorem Completed.unique {db : Db} {claimId : Json} {t t' : WcpTask} (hwf : db.WellFormed)
    (h : Completed env db claimId t) (h' : Completed env db claimId t') : t = t' := by
  obtain ⟨c, hholds, hkey, -⟩ := h
  obtain ⟨c', hholds', hkey', -⟩ := h'
  have hid : c.claimId = c'.claimId := Option.some.inj (Except.ok.inj (hkey.symm.trans hkey'))
  have hsame : c = c' := hwf.claim_eq hholds.claim hholds'.claim hid
  refine hwf.task_eq hholds.task hholds'.task ?_
  rw [← hholds.same, hsame, hholds'.same]

theorem Completed.eventStep {claimId : Json} {t : WcpTask} (h : Completed env w.db claimId t)
    (hready : w.Ready) (e : Event) :
    Completed env (eventStep env exceptions w e).db claimId t := by
  obtain ⟨c, hholds, hkey, hdone⟩ := h
  obtain ⟨-, call, hchanges⟩ := @eventStep_transacted env w exceptions hready e
  obtain ⟨hmem, hkept⟩ := @Changes.invariant _ _ _ _
    (fun db => t ∈ db.tasks ∧ V2.ClaimsKept w.db db) hchanges hready.2
    ⟨hholds.task, .of_subset fun _ hc => hc⟩ fun _ _ hwf hchange hinv =>
      ⟨(hchange.terminal hwf hinv.1 (by rw [hdone]; rfl)).1,
        hinv.2.trans (V2.change_claimsKept hchange)⟩
  obtain ⟨c', hc', hid, htask, -⟩ := hkept c hholds.claim
  exact ⟨c', ⟨hc', hmem, htask.trans hholds.same⟩, hid ▸ hkey, hdone⟩

end Served

/-! ## One session -/

/-- The reply to an attestation that was served says that it passed. -/
def RpcCall.Passed (c : RpcCall) : Prop :=
  (∃ evidence, c.caller = .submitAttestation evidence) ∧
    ∃ res, c.reply.bind V2.callResult = some res ∧ readDecision res = some (some (.str "pass"))

theorem RpcCall.Passed.congr {c c' : RpcCall} (h : c.Passed) (hcaller : c'.caller = c.caller)
    (hreply : c'.reply = c.reply) : c'.Passed := by
  unfold RpcCall.Passed at h ⊢
  rwa [hcaller, hreply]

/-- The call with a number passed. -/
def ExecuteSession.PassedAt (l : ExecuteSession env) (j : Nat) : Prop :=
  ∃ c, l.calls[j]? = some c ∧ c.Passed

/-- What a session shows and reports rests on a call that passed; Cancel has no result. -/
structure ExecuteSession.Honest (l : ExecuteSession env) : Prop where
  state : l.state ≠ .aborted ∧ l.state ≠ .disputed ∧ (l.state = .settled → ∃ j, l.PassedAt j)
  completions : l.completions = [] ∨ l.completions = [.settled] ∧
    ∃ (j : Nat) (c : RpcCall), l.calls[j]? = some c ∧ c.done = true ∧ c.Passed
  refused : ∀ c ∈ l.calls, ∀ reason now, c.caller = .abort reason now →
    c.reply.bind V2.callResult = none
  once : ∀ i j, l.PassedAt i → l.PassedAt j → i = j

/-- A session that goes on: it is on the same claim, and no further call has passed. -/
structure ExecuteSession.Follows (l l' : ExecuteSession env) : Prop where
  honest : l.Honest → l'.Honest
  claim : l'.claimId = l.claimId
  passed : ∀ j, l'.PassedAt j → l.PassedAt j

namespace ExecuteSession

variable {l l' l'' : ExecuteSession env}

theorem Follows.refl : l.Follows l := ⟨fun h => h, rfl, fun _ h => h⟩

theorem Follows.trans (h : l.Follows l') (h' : l'.Follows l'') : l.Follows l'' :=
  ⟨fun hl => h'.honest (h.honest hl), h'.claim.trans h.claim,
    fun j hj => h.passed j (h'.passed j hj)⟩

theorem Follows.shown (hcalls : l'.calls = l.calls) (hclaim : l'.claimId = l.claimId)
    (hcompletions : l'.completions = l.completions)
    (hstate : l'.state = l.state ∨ l'.state ≠ .aborted ∧ l'.state ≠ .disputed ∧
      (l'.state = .settled → ∃ j, l.PassedAt j)) : l.Follows l' := by
  have hpassed : ∀ j, l'.PassedAt j ↔ l.PassedAt j := by
    intro j
    unfold PassedAt
    rw [hcalls]
  refine ⟨fun h => ⟨?_, ?_, ?_, ?_⟩, hclaim, fun j => (hpassed j).1⟩
  · simp only [hpassed]
    rcases hstate with hsame | hnew
    · rw [hsame]
      exact h.state
    · exact hnew
  · rw [hcompletions, hcalls]
    exact h.completions
  · rw [hcalls]
    exact h.refused
  · intro i j hi hj
    exact h.once i j ((hpassed i).1 hi) ((hpassed j).1 hj)

theorem Follows.setState {state : LocalState} (hne : state ≠ .aborted ∧ state ≠ .disputed)
    (hsettled : state = .settled → ∃ j, l.PassedAt j) : l.Follows (l.setState state) := by
  unfold ExecuteSession.setState
  split
  · exact .shown rfl rfl rfl (.inr ⟨hne.1, hne.2, hsettled⟩)
  · exact .refl

theorem passedAt_send {caller : Caller} {j : Nat} (h : (l.send caller).PassedAt j) :
    l.PassedAt j := by
  obtain ⟨c, hc, hpassed⟩ := h
  unfold ExecuteSession.send at hc
  dsimp only at hc
  rcases Nat.lt_or_ge j l.calls.length with hj | hj
  · rw [List.getElem?_append_left hj] at hc
    exact ⟨c, hc, hpassed⟩
  · rw [List.getElem?_append_right hj] at hc
    obtain rfl := List.mem_singleton.1 (List.mem_of_getElem? hc)
    obtain ⟨-, res, hres, -⟩ := hpassed
    cases hres

theorem Follows.send (caller : Caller) : l.Follows (l.send caller) := by
  have hkept : ∀ (j : Nat) (c : RpcCall), l.calls[j]? = some c →
      (l.send caller).calls[j]? = some c := by
    intro j c hc
    unfold ExecuteSession.send
    rwa [List.getElem?_append_left (List.getElem?_eq_some_iff.1 hc).1]
  refine ⟨fun h => ⟨?_, ?_, ?_, ?_⟩, rfl, fun j => passedAt_send⟩
  · refine ⟨h.state.1, h.state.2.1, fun hsettled => ?_⟩
    obtain ⟨j, c, hc, hpassed⟩ := h.state.2.2 hsettled
    exact ⟨j, c, hkept j c hc, hpassed⟩
  · rcases h.completions with hnil | ⟨hone, j, c, hc, hdone⟩
    · exact .inl hnil
    · exact .inr ⟨hone, j, c, hkept j c hc, hdone⟩
  · intro c hc reason now hcaller
    rcases List.mem_append.1 hc with hc | hc
    · exact h.refused c hc reason now hcaller
    · rw [List.mem_singleton.1 hc]
      rfl
  · intro i j hi hj
    exact h.once i j (passedAt_send hi) (passedAt_send hj)

theorem getElem?_finish {j k : Nat} {c : RpcCall} (h : (l.finish j).calls[k]? = some c) :
    ∃ c', l.calls[k]? = some c' ∧ c'.caller = c.caller ∧ c'.reply = c.reply := by
  unfold ExecuteSession.finish at h
  rw [List.getElem?_modify] at h
  obtain ⟨c', hc', rfl⟩ := Option.map_eq_some_iff.1 h
  refine ⟨c', hc', ?_⟩
  split <;> exact ⟨rfl, rfl⟩

theorem finish_getElem? {j k : Nat} {c : RpcCall} (h : l.calls[k]? = some c) :
    ∃ c', (l.finish j).calls[k]? = some c' ∧ c'.caller = c.caller ∧ c'.reply = c.reply ∧
      (c'.done = true ↔ k = j ∨ c.done = true) := by
  unfold ExecuteSession.finish
  rw [List.getElem?_modify, h]
  refine ⟨_, rfl, ?_⟩
  by_cases hk : j = k
  · simp [hk]
  · simp [hk, Ne.symm hk]

theorem passedAt_finish {j k : Nat} : (l.finish j).PassedAt k ↔ l.PassedAt k := by
  constructor
  · rintro ⟨c, hc, hpassed⟩
    obtain ⟨c', hc', hcaller, hreply⟩ := getElem?_finish hc
    exact ⟨c', hc', hpassed.congr hcaller hreply⟩
  · rintro ⟨c, hc, hpassed⟩
    obtain ⟨c', hc', hcaller, hreply, -⟩ := finish_getElem? (j := j) hc
    exact ⟨c', hc', hpassed.congr hcaller hreply⟩

theorem Follows.finish (j : Nat) : l.Follows (l.finish j) := by
  refine ⟨fun h => ⟨?_, ?_, ?_, ?_⟩, rfl, fun k => passedAt_finish.1⟩
  · simp only [passedAt_finish]
    exact h.state
  · rcases h.completions with hnil | ⟨hone, k, c, hc, hdone, hpassed⟩
    · exact .inl hnil
    · obtain ⟨c', hc', hcaller, hreply, hdone'⟩ := finish_getElem? (j := j) hc
      exact .inr ⟨hone, k, c', hc', hdone'.2 (.inr hdone), hpassed.congr hcaller hreply⟩
  · intro c hc reason now hcaller
    obtain ⟨k, hk⟩ := List.mem_iff_getElem?.1 hc
    obtain ⟨c', hc', hcaller', hreply⟩ := getElem?_finish hk
    rw [← hreply]
    exact h.refused c' (List.mem_of_getElem? hc') reason now (hcaller'.trans hcaller)
  · intro i k hi hk
    exact h.once i k (passedAt_finish.1 hi) (passedAt_finish.1 hk)

theorem Follows.setVerifierDecision (decision : Option Json) :
    l.Follows (l.setVerifierDecision decision) := by
  unfold ExecuteSession.setVerifierDecision
  split
  · exact .shown rfl rfl rfl (.inl rfl)
  · exact .refl

theorem passedAt_of_calls (hcalls : l'.calls = l.calls) {j : Nat} (h : l'.PassedAt j) :
    l.PassedAt j := by
  unfold PassedAt at h ⊢
  rwa [← hcalls]

@[simp] theorem claimId_setState (state : LocalState) :
    (l.setState state).claimId = l.claimId := by
  unfold ExecuteSession.setState
  split <;> rfl

@[simp] theorem calls_setState (state : LocalState) : (l.setState state).calls = l.calls := by
  unfold ExecuteSession.setState
  split <;> rfl

@[simp] theorem calls_setVerifierDecision (decision : Option Json) :
    (l.setVerifierDecision decision).calls = l.calls := by
  unfold ExecuteSession.setVerifierDecision
  split <;> rfl

@[simp] theorem completions_setState (state : LocalState) :
    (l.setState state).completions = l.completions := by
  unfold ExecuteSession.setState
  split <;> rfl

@[simp] theorem completions_setVerifierDecision (decision : Option Json) :
    (l.setVerifierDecision decision).completions = l.completions := by
  unfold ExecuteSession.setVerifierDecision
  split <;> rfl

/-- A completion is reported where there was none, once a call that passed is settled. -/
theorem Honest.completed (h : l.Honest) (hnil : l.completions = []) {j : Nat} {c : RpcCall}
    (hc : l.calls[j]? = some c) (hdone : c.done = true) (hpassed : c.Passed) :
    (l.onComplete .settled).Honest := by
  refine ⟨h.state, .inr ⟨?_, j, c, hc, hdone, hpassed⟩, h.refused, h.once⟩
  unfold ExecuteSession.onComplete
  rw [hnil]
  rfl

/-- A call that passed is settled: the completion is shown and reported. -/
theorem Follows.settle {j : Nat} {c : RpcCall} (hc : l.calls[j]? = some c) (hdone : c.done = false)
    (hpassed : c.Passed) (decision : Option Json) :
    l.Follows ((((l.finish j).setVerifierDecision decision).setState .settled).onComplete
      .settled) := by
  have hshown : l.Follows (((l.finish j).setVerifierDecision decision).setState .settled) := by
    refine (Follows.finish j).trans ((Follows.setVerifierDecision decision).trans ?_)
    refine .setState (by decide) fun _ => ⟨j, ?_⟩
    unfold PassedAt
    rw [calls_setVerifierDecision]
    exact passedAt_finish.2 ⟨c, hc, hpassed⟩
  refine ⟨fun h => ?_, hshown.claim, hshown.passed⟩
  obtain ⟨c', hc', hcaller, hreply, hdone'⟩ := finish_getElem? (j := j) hc
  refine (hshown.honest h).completed (j := j) (c := c') ?_ ?_ (hdone'.2 (.inl rfl))
    (hpassed.congr hcaller hreply)
  · rw [completions_setState, completions_setVerifierDecision]
    -- an earlier completion was for a call that passed, which is this one
    refine h.completions.resolve_right fun hone => ?_
    obtain ⟨-, k, c'', hk, hdone'', hpassed'⟩ := hone
    obtain rfl := h.once k j ⟨c'', hk, hpassed'⟩ ⟨c, hc, hpassed⟩
    obtain rfl : c'' = c := Option.some.inj (hk.symm.trans hc)
    cases hdone.symm.trans hdone''
  · rw [calls_setState, calls_setVerifierDecision]
    exact hc'

theorem Follows.receive (j : Nat) : l.Follows (l.receive j) := by
  unfold ExecuteSession.receive
  split
  · next c hc =>
      split
      · next reply hdone hreply =>
          split
          · next res hres =>
              cases hcaller : c.caller with
              | execute => exact (Follows.finish j).trans (.setState (by decide) (by simp))
              | sendHeartbeat now => exact .finish j
              | escalate reason now => exact .finish j
              | abort reason now =>
                  refine ⟨fun h => ?_, ?_, ?_⟩
                  · have hnone := h.refused c (List.mem_of_getElem? hc) reason now hcaller
                    rw [hreply, Option.bind_some, hres] at hnone
                    cases hnone
                  · exact claimId_setState .aborted
                  · intro k hk
                    exact passedAt_finish.1 (passedAt_of_calls (calls_setState .aborted) hk)
              | submitAttestation evidence =>
                  unfold ExecuteSession.resolved
                  dsimp only
                  split
                  · exact (Follows.finish j).trans (.setState (by decide) (by simp))
                  · next decision hdecision =>
                      split
                      · next hpass =>
                          refine .settle hc hdone ⟨⟨evidence, hcaller⟩, res, ?_, ?_⟩ decision
                          · rw [hreply, Option.bind_some, hres]
                          · rw [hdecision, hpass]
                      · exact ((Follows.finish j).trans (.setVerifierDecision decision)).trans
                          (.setState (by decide) (by simp))
          · cases hcaller : c.caller with
            | execute => exact (Follows.finish j).trans (.setState (by decide) (by simp))
            | submitAttestation evidence =>
                exact (Follows.finish j).trans (.setState (by decide) (by simp))
            | _ => exact .finish j
      · exact .refl
  · exact .refl

theorem Follows.lose (j : Nat) : l.Follows (l.lose j) := by
  unfold ExecuteSession.lose
  split
  · next c hc =>
      split
      · exact .refl
      · cases hcaller : c.caller with
        | execute => exact (Follows.finish j).trans (.setState (by decide) (by simp))
        | submitAttestation evidence =>
            exact (Follows.finish j).trans (.setState (by decide) (by simp))
        | _ => exact .finish j
  · exact .refl

theorem passedAt_answered {j k : Nat} {reply : Option Json}
    (h : (l.answered j reply).PassedAt k) : l.PassedAt k ∨ k = j ∧ ∃ c, l.calls[j]? = some c ∧
      RpcCall.Passed { c with reply := some reply } := by
  obtain ⟨c', hc', hpassed⟩ := h
  unfold ExecuteSession.answered at hc'
  rw [List.getElem?_modify] at hc'
  obtain ⟨c, hc, rfl⟩ := Option.map_eq_some_iff.1 hc'
  by_cases hk : j = k
  · rw [if_pos hk] at hpassed
    exact .inr ⟨hk.symm, c, hk ▸ hc, hpassed⟩
  · rw [if_neg hk] at hpassed
    exact .inl ⟨c, hc, hpassed⟩

theorem answered_getElem? {j k : Nat} {reply : Option Json} {c : RpcCall}
    (hnone : ∀ c, l.calls[j]? = some c → c.reply = none) (hc : l.calls[k]? = some c)
    (hpassed : c.Passed) : (l.answered j reply).calls[k]? = some c := by
  have hne : j ≠ k := by
    rintro rfl
    obtain ⟨-, res, hres, -⟩ := hpassed
    rw [hnone c hc] at hres
    cases hres
  unfold ExecuteSession.answered
  rw [List.getElem?_modify, hc]
  simp [hne]

/-- The coordinator answers a call: at most one call of the session has passed. -/
theorem Honest.answered (h : l.Honest) {j : Nat} {c : RpcCall} {reply : Option Json}
    (hc : l.calls[j]? = some c) (hnone : c.reply = none)
    (hrefused : ∀ reason now, c.caller = .abort reason now → V2.callResult reply = none)
    (honce : RpcCall.Passed { c with reply := some reply } → ∀ k, ¬ l.PassedAt k) :
    (l.answered j reply).Honest := by
  have hnew : ∀ c', l.calls[j]? = some c' → c'.reply = none := by
    intro c' hc'
    rw [← Option.some.inj (hc.symm.trans hc')]
    exact hnone
  refine ⟨⟨h.state.1, h.state.2.1, fun hsettled => ?_⟩, ?_, ?_, ?_⟩
  · obtain ⟨k, c', hk, hpassed⟩ := h.state.2.2 hsettled
    exact ⟨k, c', answered_getElem? hnew hk hpassed, hpassed⟩
  · rcases h.completions with hnil | ⟨hone, k, c', hk, hdone, hpassed⟩
    · exact .inl hnil
    · exact .inr ⟨hone, k, c', answered_getElem? hnew hk hpassed, hdone, hpassed⟩
  · intro c' hc' reason now hcaller
    obtain ⟨k, hk⟩ := List.mem_iff_getElem?.1 hc'
    unfold ExecuteSession.answered at hk
    rw [List.getElem?_modify] at hk
    obtain ⟨c'', hc'', rfl⟩ := Option.map_eq_some_iff.1 hk
    by_cases hjk : j = k
    · obtain rfl : c = c'' := Option.some.inj (hc.symm.trans (hjk ▸ hc''))
      rw [if_pos hjk] at hcaller ⊢
      exact hrefused reason now hcaller
    · rw [if_neg hjk] at hcaller ⊢
      exact h.refused c'' (List.mem_of_getElem? hc'') reason now hcaller
  · intro i k hi hk
    rcases passedAt_answered hi with hiold | ⟨rfl, c', hc', hpassed⟩
    · rcases passedAt_answered hk with hkold | ⟨rfl, c', hc', hpassed⟩
      · exact h.once i k hiold hkold
      · obtain rfl : c = c' := Option.some.inj (hc.symm.trans hc')
        exact absurd hiold (honce hpassed i)
    · rcases passedAt_answered hk with hkold | ⟨rfl, -⟩
      · obtain rfl : c = c' := Option.some.inj (hc.symm.trans hc')
        exact absurd hkold (honce hpassed k)
      · rfl

theorem mount_honest (identity : WorkerIdentity env) (claimId : Json) :
    (mount identity claimId).Honest := by
  refine (Follows.send .execute).honest ⟨by simp, .inl rfl, fun c hc => ?_, fun i j hi => ?_⟩
  · cases hc
  · obtain ⟨c, hc, -⟩ := hi
    cases hc

theorem not_passedAt_mount (identity : WorkerIdentity env) (claimId : Json) (j : Nat) :
    ¬ (mount identity claimId).PassedAt j := by
  intro h
  obtain ⟨c, hc, -⟩ := passedAt_send h
  cases hc

theorem Follows.guarded {p : Prop} [Decidable p] (h : l.Follows l') :
    l.Follows (if p then l' else l) := by
  split
  · exact h
  · exact .refl

end ExecuteSession

/-! ## Whole runs -/

open ExecuteSession

/-- What holds of all sessions: a call that passed has completed the task of its claim, and no
other call has. -/
structure Shift.Sound (s : Shift env) : Prop where
  ready : s.world.Ready
  honest : ∀ l ∈ s.sessions, l.Honest
  passed : ∀ l ∈ s.sessions, ∀ j, l.PassedAt j → ∃ t, Completed env s.world.db l.claimId t
  once : ∀ (i i' j j' : Nat) (l l' : ExecuteSession env), s.sessions[i]? = some l →
    s.sessions[i']? = some l' → l.PassedAt j → l'.PassedAt j' →
    ∀ t, Completed env s.world.db l.claimId t → Completed env s.world.db l'.claimId t → i = i'

section Runs

variable {exceptions : Exceptions} {s : Shift env}

theorem Shift.Sound.follow (h : s.Sound) {sessions : List (ExecuteSession env)}
    (hfollows : ∀ (i : Nat) (l' : ExecuteSession env), sessions[i]? = some l' →
      ∃ l, s.sessions[i]? = some l ∧ l.Follows l') :
    Shift.Sound { s with sessions := sessions } := by
  have hmem : ∀ l' ∈ sessions, ∃ l ∈ s.sessions, l.Follows l' := by
    intro l' hl'
    obtain ⟨i, hi⟩ := List.mem_iff_getElem?.1 hl'
    obtain ⟨l, hl, hfollow⟩ := hfollows i l' hi
    exact ⟨l, List.mem_of_getElem? hl, hfollow⟩
  refine ⟨h.ready, fun l' hl' => ?_, fun l' hl' j hj => ?_, ?_⟩
  · obtain ⟨l, hl, hfollow⟩ := hmem l' hl'
    exact hfollow.honest (h.honest l hl)
  · obtain ⟨l, hl, hfollow⟩ := hmem l' hl'
    rw [hfollow.claim]
    exact h.passed l hl j (hfollow.passed j hj)
  · intro i i' j j' a b ha hb hj hj' t ht ht'
    obtain ⟨l, hl, hfollow⟩ := hfollows i a ha
    obtain ⟨l', hl', hfollow'⟩ := hfollows i' b hb
    rw [hfollow.claim] at ht
    rw [hfollow'.claim] at ht'
    exact h.once i i' j j' l l' hl hl' (hfollow.passed j hj) (hfollow'.passed j' hj') t ht ht'

theorem Shift.Sound.modify (h : s.Sound) {i : Nat} {f : ExecuteSession env → ExecuteSession env}
    (hf : ∀ l : ExecuteSession env, l.Follows (f l)) : (s.modify i f).Sound := by
  refine h.follow fun k l' hl' => ?_
  rw [List.getElem?_modify] at hl'
  obtain ⟨l, hl, rfl⟩ := Option.map_eq_some_iff.1 hl'
  refine ⟨l, hl, ?_⟩
  split
  · exact hf l
  · exact .refl

theorem Shift.Sound.elsewhere (h : s.Sound) (e : Event) :
    Shift.Sound { s with world := eventStep env exceptions s.world e } := by
  have hready : (eventStep env exceptions s.world e).Ready := by
    obtain ⟨hclean, call, hchanges⟩ := @eventStep_transacted env s.world exceptions h.ready e
    exact ⟨hclean, hchanges.wellFormed h.ready.2⟩
  refine ⟨hready, h.honest, fun l hl j hj => ?_, ?_⟩
  · obtain ⟨t, ht⟩ := h.passed l hl j hj
    exact ⟨t, ht.eventStep h.ready e⟩
  · intro i i' j j' l l' hl hl' hj hj' t ht ht'
    obtain ⟨r, hr⟩ := h.passed l (List.mem_of_getElem? hl) j hj
    obtain ⟨r', hr'⟩ := h.passed l' (List.mem_of_getElem? hl') j' hj'
    obtain rfl := Completed.unique hready.2 (hr.eventStep h.ready e) ht
    obtain rfl := Completed.unique hready.2 (hr'.eventStep h.ready e) ht'
    exact h.once i i' j j' l l' hl hl' hj hj' _ hr hr'

/-- The task that a served attestation completes is not one that an earlier one completed. -/
theorem Shift.Sound.fresh (h : s.Sound) {l l' : ExecuteSession env} {c : RpcCall} {id j : Nat}
    {request : Coordinator.Request}
    (hrequest : request = V2.message id c.caller.method (l.params c.caller))
    (hpassed : RpcCall.Passed
      { c with reply := some (Coordinator.serve env exceptions request s.world).1 })
    (hl' : l' ∈ s.sessions) (hj : l'.PassedAt j) {t : WcpTask}
    (ht : Completed env (Coordinator.serve env exceptions request s.world).2.db l.claimId t) :
    ¬ Completed env (Coordinator.serve env exceptions request s.world).2.db l'.claimId t := by
  intro ht'
  subst hrequest
  obtain ⟨⟨evidence, hcaller⟩, res, hres, hdecision⟩ := hpassed
  have hready := (@Shift.Sound.elsewhere env exceptions s h (.request
    (V2.message id c.caller.method (l.params c.caller)))).ready
  rw [hcaller] at hres ht ht' hready
  obtain ⟨b, t₀, t₁, hholds, hkey, hopen, hholds', hid, hdone⟩ := attest_call hres hdecision
  obtain ⟨r, hr⟩ := h.passed l' hl' j hj
  have hkept := @Completed.eventStep env exceptions s.world l'.claimId r hr h.ready (.request
    (V2.message id "tasks/attest" (l.params (.submitAttestation evidence))))
  obtain rfl : r = t := hkept.unique hready.2 ht'
  have hnew : t₁ = r := Completed.unique hready.2 ⟨b, hholds', hkey, hdone⟩ ht
  obtain ⟨_, hrholds, -, hrdone⟩ := hr
  have hsame : t₀ = r := by
    refine h.ready.2.task_eq hholds.task hrholds.task ?_
    rw [← hid, hnew]
  exact hopen (hsame ▸ hrdone)

theorem passed_completed {l : ExecuteSession env} {c : RpcCall} {id : Nat} {w : World}
    (hpassed : RpcCall.Passed { c with reply := some (Coordinator.serve env exceptions
      (V2.message id c.caller.method (l.params c.caller)) w).1 }) :
    ∃ t, Completed env (Coordinator.serve env exceptions
      (V2.message id c.caller.method (l.params c.caller)) w).2.db l.claimId t := by
  obtain ⟨⟨evidence, hcaller⟩, res, hres, hdecision⟩ := hpassed
  rw [hcaller] at hres ⊢
  obtain ⟨b, -, t, -, hkey, -, hholds, -, hdone⟩ := attest_call hres hdecision
  exact ⟨t, b, hholds, hkey, hdone⟩

theorem Shift.Sound.answered (h : s.Sound) {i j id : Nat} {l : ExecuteSession env} {c : RpcCall}
    {request : Coordinator.Request} (hl : s.sessions[i]? = some l) (hc : l.calls[j]? = some c)
    (hnone : c.reply = none)
    (hrequest : request = V2.message id c.caller.method (l.params c.caller)) :
    Shift.Sound ⟨(Coordinator.serve env exceptions request s.world).2, s.sessions.modify i
      fun l => l.answered j (Coordinator.serve env exceptions request s.world).1⟩ := by
  have hserved := @Shift.Sound.elsewhere env exceptions s h (.request request)
  have hfresh := fun hpassed l' hl' k hk t => @Shift.Sound.fresh env exceptions s h l l' c id k
    request hrequest hpassed hl' hk t
  have hcompleted := fun hpassed => @passed_completed env exceptions l c id s.world hpassed
  rw [← hrequest] at hcompleted
  have hmem := List.mem_of_getElem? hl
  have hget : ∀ (k : Nat) (l' : ExecuteSession env), (s.sessions.modify i fun l => l.answered j
      (Coordinator.serve env exceptions request s.world).1)[k]? = some l' →
      k = i ∧ l' = l.answered j (Coordinator.serve env exceptions request s.world).1 ∨
        k ≠ i ∧ s.sessions[k]? = some l' := by
    intro k l' hk
    rw [List.getElem?_modify] at hk
    obtain ⟨a, ha, rfl⟩ := Option.map_eq_some_iff.1 hk
    by_cases hik : i = k
    · obtain rfl : l = a := Option.some.inj (hl.symm.trans (hik ▸ ha))
      exact .inl ⟨hik.symm, if_pos hik⟩
    · exact .inr ⟨Ne.symm hik, by rw [if_neg hik, ha]⟩
  -- the calls that had passed, and this one
  have hpassedAt : ∀ {k : Nat}, (l.answered j
      (Coordinator.serve env exceptions request s.world).1).PassedAt k → l.PassedAt k ∨
        RpcCall.Passed { c with
          reply := some (Coordinator.serve env exceptions request s.world).1 } := by
    intro k hk
    rcases passedAt_answered hk with hk | ⟨-, c', hc', hpassed⟩
    · exact .inl hk
    · obtain rfl : c = c' := Option.some.inj (hc.symm.trans hc')
      exact .inr hpassed
  refine ⟨hserved.ready, fun l' hl' => ?_, fun l' hl' k hk => ?_, ?_⟩
  · obtain ⟨k, hk⟩ := List.mem_iff_getElem?.1 hl'
    rcases hget k l' hk with ⟨-, rfl⟩ | ⟨-, hk⟩
    · refine (h.honest l hmem).answered hc hnone (fun reason now hcaller => ?_)
        fun hpassed m hm => ?_
      · rw [hrequest, hcaller]
        exact (abort_refused reason now id).1
      · obtain ⟨t, ht⟩ := hcompleted hpassed
        exact hfresh hpassed l hmem m hm t ht ht
    · exact h.honest l' (List.mem_of_getElem? hk)
  · obtain ⟨k', hk'⟩ := List.mem_iff_getElem?.1 hl'
    rcases hget k' l' hk' with ⟨-, rfl⟩ | ⟨-, hk'⟩
    · rcases hpassedAt hk with hk | hpassed
      · exact hserved.passed l hmem k hk
      · exact hcompleted hpassed
    · exact hserved.passed l' (List.mem_of_getElem? hk') k hk
  · intro k k' m m' a b ha hb hm hm' t ht ht'
    rcases hget k a ha with ⟨rfl, rfl⟩ | ⟨-, hka⟩
    · rcases hget k' b hb with ⟨rfl, rfl⟩ | ⟨-, hkb⟩
      · rfl
      · rcases hpassedAt hm with hm | hpassed
        · exact hserved.once k k' m m' l b hl hkb hm hm' t ht ht'
        · exact absurd ht' (hfresh hpassed b (List.mem_of_getElem? hkb) m' hm' t ht)
    · rcases hget k' b hb with ⟨rfl, rfl⟩ | ⟨-, hkb⟩
      · rcases hpassedAt hm' with hm' | hpassed
        · exact hserved.once k k' m m' a l hka hl hm hm' t ht ht'
        · exact absurd ht (hfresh hpassed a (List.mem_of_getElem? hka) m hm t ht')
      · exact hserved.once k k' m m' a b hka hkb hm hm' t ht ht'

theorem Shift.Sound.serve (h : s.Sound) (i j id : Nat) : (s.serve exceptions i j id).Sound := by
  unfold Shift.serve
  split
  · next l hl =>
      split
      · next c hc =>
          split
          · next hnone => exact h.answered hl hc hnone rfl
          · exact h
      · exact h
  · exact h

theorem Shift.Sound.mounted (h : s.Sound) (identity : WorkerIdentity env) (claimId : Json) :
    Shift.Sound { s with sessions := s.sessions ++ [mount identity claimId] } := by
  have hmem : ∀ l ∈ s.sessions ++ [mount identity claimId], ∀ j, l.PassedAt j →
      l ∈ s.sessions := by
    intro l hl j hj
    rcases List.mem_append.1 hl with hl | hl
    · exact hl
    · rw [List.mem_singleton.1 hl] at hj
      exact absurd hj (not_passedAt_mount identity claimId j)
  have hget : ∀ (i : Nat) (l : ExecuteSession env),
      (s.sessions ++ [mount identity claimId])[i]? = some l → ∀ j, l.PassedAt j →
      s.sessions[i]? = some l := by
    intro i l hl j hj
    by_cases hi : i < s.sessions.length
    · rwa [List.getElem?_append_left hi] at hl
    · rw [List.getElem?_append_right (by omega)] at hl
      rw [List.mem_singleton.1 (List.mem_of_getElem? hl)] at hj
      exact absurd hj (not_passedAt_mount identity claimId j)
  refine ⟨h.ready, fun l hl => ?_, fun l hl j hj => h.passed l (hmem l hl j hj) j hj, ?_⟩
  · rcases List.mem_append.1 hl with hl | hl
    · exact h.honest l hl
    · rw [List.mem_singleton.1 hl]
      exact mount_honest identity claimId
  · intro i i' j j' l l' hl hl' hj hj'
    exact h.once i i' j j' l l' (hget i l hl j hj) (hget i' l' hl' j' hj') hj hj'

theorem Shift.Sound.step (h : s.Sound) (input : Input env) :
    (step exceptions s input).Sound := by
  cases input with
  | elsewhere e => exact h.elsewhere e
  | mount identity claimId => exact h.mounted identity claimId
  | unmount i => exact h.modify fun l => .shown rfl rfl rfl (.inl rfl)
  | tick i now => exact h.modify fun l => (Follows.send _).guarded
  | attachEvidence i e =>
      refine h.modify fun l => Follows.guarded ?_
      exact .shown rfl rfl rfl (.inl rfl)
  | submitAttestation i =>
      exact h.modify fun l => ((Follows.setState (by decide) (by simp)).trans (.send _)).guarded
  | escalate i reason now =>
      exact h.modify fun l => ((Follows.setState (by decide) (by simp)).trans (.send _)).guarded
  | abort i reason now => exact h.modify fun l => (Follows.send _).guarded
  | serve i j id => exact h.serve i j id
  | receive i j => exact h.modify fun l => .receive j
  | lose i j => exact h.modify fun l => .lose j

/-- A session that shows or reports a completion has a call that passed. -/
theorem ExecuteSession.Honest.passed {l : ExecuteSession env} (h : l.Honest)
    (hshown : l.state = .settled ∨ l.completions ≠ []) : ∃ j, l.PassedAt j := by
  rcases hshown with hsettled | hreported
  · exact h.state.2.2 hsettled
  · rcases h.completions with hnil | ⟨-, j, c, hc, -, hpassed⟩
    · exact absurd hnil hreported
    · exact ⟨j, c, hc, hpassed⟩

theorem serve_abort {i j id : Nat} {l : ExecuteSession env} {c : RpcCall} {reason : String}
    {now : DateTime} (hl : s.sessions[i]? = some l) (hc : l.calls[j]? = some c)
    (hcaller : c.caller = .abort reason now) :
    (s.serve exceptions i j id).world.db = s.world.db := by
  unfold Shift.serve
  simp only [hl, hc]
  split
  · dsimp only
    rw [hcaller]
    exact (@abort_refused env exceptions s.world l reason now id).2
  · rfl

end Runs

/-- Whatever contractors do in the web app, whatever else happens at the coordinator, and in
whatever order their calls are served and replies arrive: a session is never shown as aborted or
disputed, and Cancel changes nothing at the coordinator; a session reports nothing but one
completion; a completion that is shown or reported is of a claim whose task is completed, and no
two sessions report one for the same task. -/
theorem completion_reported_once (env : Env) (exceptions : Exceptions)
    (registered : List WcpWorker) (inputs : List (Input env)) :
    let s := run (step exceptions) (⟨initial registered, []⟩ : Shift env) inputs
    (∀ l ∈ s.sessions, l.state ≠ .aborted ∧ l.state ≠ .disputed ∧
      (l.completions = [] ∨ l.completions = [.settled]) ∧
      (l.state = .settled ∨ l.completions ≠ [] →
        ∃ t, Completed env s.world.db l.claimId t)) ∧
    (∀ (i j : Nat) (l l' : ExecuteSession env) (t : WcpTask), s.sessions[i]? = some l →
      s.sessions[j]? = some l' → l.completions ≠ [] → l'.completions ≠ [] →
      Completed env s.world.db l.claimId t → Completed env s.world.db l'.claimId t → i = j) ∧
    ∀ (i j id : Nat) (l : ExecuteSession env) (c : RpcCall) (reason : String) (now : DateTime),
      s.sessions[i]? = some l → l.calls[j]? = some c → c.caller = .abort reason now →
      (step exceptions s (.serve i j id)).world.db = s.world.db := by
  have h : Shift.Sound (run (step exceptions) (⟨initial registered, []⟩ : Shift env) inputs) := by
    refine @run_invariant _ _ (step exceptions) Shift.Sound (fun _ => True)
      (fun _ input h _ => h.step input) _ inputs ⟨⟨rfl, initial_wellFormed registered⟩,
        fun l hl => ?_, fun l hl => ?_, fun i i' j j' l l' hl => ?_⟩ fun _ _ => trivial
    · cases hl
    · cases hl
    · cases hl
  refine ⟨fun l hl => ?_, fun i j l l' t hl hl' hreported hreported' ht ht' => ?_, ?_⟩
  · have hl' := h.honest l hl
    refine ⟨hl'.state.1, hl'.state.2.1, ?_, fun hshown => ?_⟩
    · exact hl'.completions.imp_right And.left
    · obtain ⟨j, hj⟩ := hl'.passed hshown
      exact h.passed l hl j hj
  · obtain ⟨m, hm⟩ := (h.honest l (List.mem_of_getElem? hl)).passed (.inr hreported)
    obtain ⟨m', hm'⟩ := (h.honest l' (List.mem_of_getElem? hl')).passed (.inr hreported')
    exact h.once i j m m' l l' hl hl' hm hm' t ht ht'
  · intro i j id l c reason now hl hc hcaller
    exact serve_abort hl hc hcaller

/-- What a worker attests of the local task. -/
def zeroCoverage : Json :=
  (buildEvidence zeroIdentity localClaimId ⟨.sensorWitness, .str "coverage_map",
    .obj [("covered_polygon", .arr [])], .null, .utc newYear2030⟩).toDict

/-- A job is opened, cannot be cancelled, and is attested. -/
example : (run (step ⟨fun _ => "", fun _ => ""⟩) (⟨initial [zeroWorker], []⟩ : Shift doubledEnv) [
    .elsewhere (.call (.post (localTask anySensor) localDate .null)),
    .elsewhere (.request (V2.message 7 "tasks/claim"
      (Sdk.claimParams zeroIdentity (.str "t1") localDate .null (.utc newYear2026)))),
    .mount zeroIdentity localClaimId,
    .serve 0 0 1,
    .receive 0 0,
    .abort 0 "worker_initiated" (.utc newYear2030),
    .serve 0 1 2,
    .receive 0 1,
    .attachEvidence 0 zeroCoverage,
    .submitAttestation 0,
    .serve 0 2 3,
    .receive 0 2]).sessions.map (fun l => (l.state, l.completions)) = [(.settled, [.settled])] := by
  decide +kernel

end Wcp.Sdk.Execute
