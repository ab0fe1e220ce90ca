import Wcp.Coordinator.Lifecycle
import Wcp.Coordinator.Transport
import Wcp.Sdk.Interop
/-!
# Workers that run what is dispatched to them

A worker of the v2 API claims a task that is dispatched to it, opens its execution, runs its
handler and attests.  Any number of workers may be told of a task any number of times, and any of
them may fail anywhere: handlers are run for a task at most once, and only by the worker whose
claim on it the coordinator holds (`handler_once`).
-/

namespace Wcp.Sdk.V2

open Wcp.Base
open Wcp.Coordinator

variable {env : Env}

/-! ## Workers -/

/-- A worker as the coordinator sees it: its DID, what it reads in a dispatch (the id of the task
and the task, where it has a handler), and the parameters with which it claims a task. -/
structure Worker (env : Env) where
  did : String
  accepts : Json → Option (Json × Json)
  claimParams : Json → DateTime → DateTime → Json
  asks : ∀ taskId now signedAt, ∃ eta acceptance bid,
    dispatched env (.str "tasks/claim") (claimParams taskId now signedAt) =
      some (.claim taskId (.str did) eta acceptance bid)

/-- The members of a dispatch and of its task, if there is a handler for the task. -/
def handled (handlers : List String) (dispatch : Json) :
    Option (List (String × Json) × List (String × Json)) :=
  match dispatch with
  | .obj ms =>
      match (Coordinator.member ms "task").or (.obj []) with
      | .obj task =>
          match Coordinator.member task "descriptor_type" with
          | .str descriptorType =>
              if descriptorType ∈ handlers then some (ms, task) else none
          | _ => none
      | _ => none
  | _ => none

def Worker.python (identity : WorkerIdentity env) (handlers : List String) : Worker env where
  did := identity.did
  accepts dispatch := (handled handlers dispatch).map fun found =>
    (Coordinator.member found.1 "task_id", .obj found.2)
  claimParams taskId now signedAt :=
    Sdk.claimParams identity taskId (.str now.isoformat) .null signedAt
  asks _ _ _ := ⟨_, _, _, rfl⟩

/-- `Worker` of the TypeScript SDK; `??` passes over a null. -/
def Worker.typescript (identity : WorkerIdentity env) (handlers : List String) : Worker env where
  did := identity.did
  accepts dispatch := (handled handlers dispatch).map fun found =>
    let taskId := Coordinator.member found.1 "task_id"
    (if taskId = .null then Coordinator.member found.2 "task_id" else taskId, .obj found.2)
  claimParams taskId now signedAt := .obj [
    ("task_id", taskId),
    ("worker_id", .str identity.did),
    ("eta", .str (toISOString now)),
    ("acceptance_attestation",
      typescriptAcceptance identity taskId (.str (toISOString now)) signedAt)]
  asks _ _ _ := ⟨_, _, _, rfl⟩

/-! ## The lifecycle of a dispatched task -/

/-- What a lifecycle does next. -/
inductive Stage where
  | claiming
  | opening
  | handling
  | attesting
  | ended
deriving DecidableEq

/-- `_execute_full_lifecycle` of one dispatch: its worker, its task, the claim once it has one, and
whether the handler was called. -/
structure Lifecycle where
  worker : Nat
  taskId : Json
  task : Json
  stage : Stage
  claimId : Option Json
  started : Bool

/-- The result that a reply carries; an error is raised. -/
def callResult : Option Json → Option Json
  | some (.obj reply) => if (reply.lookup "error").isSome then none else reply.lookup "result"
  | _ => none

/-- After `tasks/claim`: a lifecycle whose call raised has ended. -/
def Lifecycle.claimed (l : Lifecycle) (result : Option Json) : Lifecycle :=
  match result with
  | some (.obj ms) =>
      match ms.lookup "claim_id" with
      | some claimId => { l with stage := .opening, claimId := some claimId }
      | none => { l with stage := .ended }
  | _ => { l with stage := .ended }

/-- After `tasks/execute`: the handler is called. -/
def Lifecycle.opened (l : Lifecycle) (result : Option Json) : Lifecycle :=
  match result with
  | some _ => { l with stage := .handling, started := true }
  | none => { l with stage := .ended }

/-- A coordinator and the lifecycles of all workers. -/
structure Fleet where
  world : World
  lifecycles : List Lifecycle

/-- What happens next.  A lifecycle goes on from one `await` to the next, or is ended by an
exception; the evidence it attests is whatever its attesters made. -/
inductive Input where
  | elsewhere (e : Event)
  | dispatch (worker : Nat) (payload : Json)
  | claim (i id : Nat) (now signedAt : DateTime)
  | openExecution (i id : Nat)
  | handled (i : Nat)
  | attest (i id : Nat) (evidence : List AttestationEvidence)
  | fail (i : Nat)

def message (id : Nat) (method : String) (params : Json) : Coordinator.Request :=
  .ws (some (.obj [
    ("jsonrpc", .str "2.0"),
    ("id", .int id),
    ("method", .str method),
    ("params", params)]))

/-- The claim that a lifecycle names in its calls. -/
def Lifecycle.claimParam (l : Lifecycle) : Json := l.claimId.getD .null

def Lifecycle.attestParams (l : Lifecycle) (evidence : List AttestationEvidence) : Json :=
  Sdk.attestParams l.claimParam evidence none

section Step

variable (env) (exceptions : Exceptions) (workers : Nat → Worker env)

/-- A lifecycle that is at a stage makes a call and goes on with its result. -/
def Fleet.call (s : Fleet) (i : Nat) (stage : Stage) (request : Lifecycle → Coordinator.Request)
    (next : Lifecycle → Option Json → Lifecycle) : Fleet :=
  match s.lifecycles[i]? with
  | some l =>
      if l.stage = stage then
        let outcome := serve env exceptions (request l) s.world
        ⟨outcome.2, s.lifecycles.set i (next l (callResult outcome.1))⟩
      else s
  | none => s

/-- A lifecycle goes on without a call. -/
def Fleet.move (s : Fleet) (i : Nat) (next : Lifecycle → Lifecycle) : Fleet :=
  match s.lifecycles[i]? with
  | some l => { s with lifecycles := s.lifecycles.set i (next l) }
  | none => s

def step (s : Fleet) : Input → Fleet
  | .elsewhere e => { s with world := eventStep env exceptions s.world e }
  | .dispatch k payload =>
      match (workers k).accepts payload with
      | some found =>
          let l : Lifecycle := ⟨k, found.1, found.2, .claiming, none, false⟩
          { s with lifecycles := s.lifecycles ++ [l] }
      | none => s
  | .claim i id now signedAt =>
      s.call env exceptions i .claiming
        (fun l => message id "tasks/claim" ((workers l.worker).claimParams l.taskId now signedAt))
        Lifecycle.claimed
  | .openExecution i id =>
      s.call env exceptions i .opening
        (fun l => message id "tasks/execute" (.obj [("claim_id", l.claimParam)])) Lifecycle.opened
  | .handled i =>
      s.move i fun l => if l.stage = .handling then { l with stage := .attesting } else l
  | .attest i id evidence =>
      if evidence = [] then
        s.move i fun l => if l.stage = .attesting then { l with stage := .ended } else l
      else
        s.call env exceptions i .attesting
          (fun l => message id "tasks/attest" (l.attestParams evidence))
          fun l _ => { l with stage := .ended }
  | .fail i => s.move i fun l => { l with stage := .ended }

end Step

/-! ## Claims -/

open Wcp.Base.Exec

variable {exceptions : Exceptions} {w : World}

/-- Every claim is stored still, on the same task and of the same worker. -/
def ClaimsKept (db db' : Db) : Prop :=
  ∀ c ∈ db.claims, ∃ c' ∈ db'.claims, c'.claimId = c.claimId ∧ c'.taskId = c.taskId ∧
    c'.accepted = c.accepted ∧ c'.workerId = c.workerId

theorem ClaimsKept.of_subset {db db' : Db} (h : ∀ c ∈ db.claims, c ∈ db'.claims) :
    ClaimsKept db db' :=
  fun c hc => ⟨c, h c hc, rfl, rfl, rfl, rfl⟩

theorem ClaimsKept.trans {a b c : Db} (h : ClaimsKept a b) (h' : ClaimsKept b c) :
    ClaimsKept a c := by
  intro x hx
  obtain ⟨y, hy, hid, htask, haccepted, hworker⟩ := h x hx
  obtain ⟨z, hz, hid', htask', haccepted', hworker'⟩ := h' y hy
  exact ⟨z, hz, hid'.trans hid, htask'.trans htask, haccepted'.trans haccepted,
    hworker'.trans hworker⟩

theorem ClaimsKept.of_beat {db db' : Db} {id : String} {beat : Option DateTime → Option DateTime}
    (h : db'.claims = (db.updateClaim id fun r =>
      { r with lastHeartbeatAt := beat r.lastHeartbeatAt }).claims) : ClaimsKept db db' := by
  intro x hx
  refine ⟨if x.claimId = id then { x with lastHeartbeatAt := beat x.lastHeartbeatAt } else x,
    ?_, ?_⟩
  · rw [h]
    exact List.mem_map_of_mem hx
  · split <;> exact ⟨rfl, rfl, rfl, rfl⟩

theorem change_claimsKept {call : Call} {db db' : Db} (h : Change env call db db') :
    ClaimsKept db db' := by
  have hsame : db'.claims = db.claims → ClaimsKept db db' := fun heq =>
    .of_subset fun c hc => heq ▸ hc
  cases h with
  | quiet htasks hclaims haudit => exact hsame hclaims
  | posted row entry hchecked hprogress hfresh hentry htasks hclaims => exact hsame hclaims
  | claimed t c entry ht hposted hfresh hsame' haccepted hid hbinds htype hentry htasks hclaims =>
      refine .of_subset fun x hx => ?_
      rw [hclaims]
      exact List.mem_append_left _ hx
  | moved c t p entry hholds hmove hreplay hpayload hentry hcall htasks hclaims =>
      exact hsame hclaims
  | event c t beat entry eventType hcall htype hholds hstate hentry htasks hclaims =>
      exact .of_beat hclaims
  | unrecorded c t p name hholds hmove hname hcall htasks hclaims => exact hsame hclaims
  | unheard c t beat hcall hholds hstate htasks hclaims => exact .of_beat hclaims

/-- What every event keeps: the lifecycle of the tasks, and the claims. -/
theorem eventStep_keeps (h : w.Ready) (hlifecycle : w.db.Lifecycle env) (e : Event) :
    (eventStep env exceptions w e).Ready ∧ (eventStep env exceptions w e).db.Lifecycle env ∧
      ClaimsKept w.db (eventStep env exceptions w e).db := by
  obtain ⟨hclean, call, hchanges⟩ := @eventStep_transacted env w exceptions h e
  refine ⟨⟨hclean, hchanges.wellFormed h.2⟩, ?_, ?_⟩
  · exact hchanges.invariant h.2 hlifecycle fun _ _ hwf hchange hinv => hchange.lifecycle hwf hinv
  · refine @Changes.invariant _ _ _ _ (ClaimsKept w.db) hchanges h.2 (.of_subset fun _ hc => hc) ?_
    exact fun _ _ _ hchange hinv => hinv.trans (change_claimsKept hchange)

/-- A call that returns a claim has added it, with a new id, on the task that it names. -/
theorem claim_grants {taskId eta acceptance bid : Json} {did : String} :
    Ends (claim env taskId (.str did) eta acceptance bid) w fun r w' => ∀ answer, r = .ok answer →
      ∃ c : WcpClaim, w'.db.claims = w.db.claims ++ [c] ∧ w.db.findClaim c.claimId = none ∧
        namesTask env c.taskId taskId = true ∧ c.accepted = true ∧ c.workerId = did ∧
        ∃ ms, answer = .obj (("claim_id", .str c.claimId) :: ms) := by
  unfold claim
  refine readDb_bind (fun task htask => ?_) fun e _ => by simp
  obtain ⟨hkey, -, -⟩ := claimLoadTask_eq_ok htask
  refine utcnow_bind (Ends.lift_bind (fun _ _ => ?_) fun e _ => by simp)
  refine readDb_bind (fun worker hworker => ?_) fun e _ => by simp
  have hdid : worker.workerId = did := lookupKey_text (claimLoadWorker_eq_ok hworker).1
  refine Ends.lift_bind (fun resolved _ => ?_) fun e _ => by simp
  refine readDb_bind (fun _ _ => ?_) fun e _ => by simp
  refine Ends.lift_bind (fun etaTime _ => ?_) fun e _ => by simp
  refine utcnow_bind (uuid4_bind (claimWrite_bind ?_ fun _ => by simp))
  intro c hid hsame haccepted hworkerId hfresh
  refine append_bind (fun r entry _ _ _ _ _ _ _ _ => ?_) (fun _ => by simp) (by simp)
  refine Ends.pure fun answer hanswer => ⟨c, rfl, ?_, ?_, haccepted, hworkerId.trans hdid, ?_⟩
  · rw [hid]
    exact hfresh
  · rw [hsame]
    exact namesTask_iff.2 hkey
  · cases hanswer
    rw [hid]
    exact ⟨_, rfl⟩

theorem serve_message (id : Nat) (method : String) (params : Json) :
    let outcome := dispatch env (.str method) (params.or (.obj [])) w
    (∃ e, serve env exceptions (message id method params) w =
        (some (wsError exceptions (.int id) e), w.rollback outcome)) ∨
      ∃ result, outcome.1 = .ok result ∧ outcome.2.doomed = false ∧
        serve env exceptions (message id method params) w =
          (some (resultReply (.int id) result), w.settle outcome) :=
  ws_dispatches _

theorem callResult_wsError (id : Json) (e : Err) :
    callResult (some (wsError exceptions id e)) = none := by
  unfold wsError
  split <;> rfl

theorem claim_call (worker : Worker env) (taskId : Json) (id : Nat) (now signedAt : DateTime)
    {result : Json} (h : callResult (serve env exceptions
      (message id "tasks/claim" (worker.claimParams taskId now signedAt)) w).1 = some result) :
    ∃ c : WcpClaim, c ∈ (serve env exceptions
        (message id "tasks/claim" (worker.claimParams taskId now signedAt)) w).2.db.claims ∧
      (∀ x ∈ w.db.claims, x.claimId ≠ c.claimId) ∧ namesTask env c.taskId taskId = true ∧
      c.accepted = true ∧ c.workerId = worker.did ∧
      ∃ ms, result = .obj (("claim_id", .str c.claimId) :: ms) := by
  obtain ⟨eta, acceptance, bid, hasks⟩ := worker.asks taskId now signedAt
  have hdispatch := @dispatch_asks env (.str "tasks/claim")
    ((worker.claimParams taskId now signedAt).or (.obj []))
  rw [dispatched_or, hasks] at hdispatch
  have hrun := hdispatch w
  rcases @serve_message env exceptions w id "tasks/claim" (worker.claimParams taskId now signedAt)
    with ⟨e, hserve⟩ | ⟨answer, hanswer, hclean, hserve⟩
  · rw [hserve, callResult_wsError] at h
    cases h
  · rw [hserve] at h ⊢
    obtain rfl : answer = result := Option.some.inj h
    rw [hrun] at hanswer hclean ⊢
    have hclaim : (claim env taskId (.str worker.did) eta acceptance bid w).1 = .ok answer := by
      cases hr : (claim env taskId (.str worker.did) eta acceptance bid w).1 with
      | error e =>
          have herror : (Except.error e : Except Err Json).mapError mapException = .ok answer :=
            hr ▸ hanswer
          cases herror
      | ok a =>
          have hok : (Except.ok a : Except Err Json).mapError mapException = .ok answer :=
            hr ▸ hanswer
          exact congrArg Except.ok (Except.ok.inj hok)
    obtain ⟨c, hclaims, hfresh, hnames, haccepted, hworker, hresult⟩ :=
      claim_grants answer hclaim
    refine ⟨c, ?_, findClaim_eq_none hfresh, hnames, haccepted, hworker, hresult⟩
    dsimp only
    rw [settle_of_clean (fun heq => by cases hanswer.symm.trans heq) hclean]
    show c ∈ (claim env taskId (.str worker.did) eta acceptance bid w).2.db.claims
    rw [hclaims]
    exact List.mem_append_right _ (List.mem_singleton_self c)

/-! ## Whole runs -/

/-- The claim that a lifecycle holds: stored, accepted, on its task and of its worker. -/
def Holds (workers : Nat → Worker env) (db : Db) (l : Lifecycle) (claimId : Json) : Prop :=
  ∃ c ∈ db.claims, claimId = .str c.claimId ∧ namesTask env c.taskId l.taskId = true ∧
    c.accepted = true ∧ c.workerId = (workers l.worker).did

/-- A lifecycle that had a result from `tasks/claim`. -/
def Lifecycle.Past (l : Lifecycle) : Prop := l.started = true ∨ l.stage = .opening

/-- What holds of a fleet: a lifecycle that called its handler holds a claim, and no two hold the
same. -/
structure Fleet.Sound (workers : Nat → Worker env) (s : Fleet) : Prop where
  ready : s.world.Ready
  lifecycle : s.world.db.Lifecycle env
  holds : ∀ l ∈ s.lifecycles, ∀ v, l.claimId = some v → Holds workers s.world.db l v
  distinct : ∀ (i j : Nat) (l l' : Lifecycle),
    s.lifecycles[i]? = some l → s.lifecycles[j]? = some l' → i ≠ j →
    ∀ v, l.claimId = some v → l'.claimId ≠ some v
  past : ∀ l ∈ s.lifecycles, l.Past → l.claimId ≠ none

variable {workers : Nat → Worker env} {s : Fleet}

theorem Holds.kept {db db' : Db} {l : Lifecycle} {v : Json} (h : Holds workers db l v)
    (hkept : ClaimsKept db db') : Holds workers db' l v := by
  obtain ⟨c, hc, hid, hnames, haccepted, hworker⟩ := h
  obtain ⟨c', hc', hid', htask, haccepted', hworker'⟩ := hkept c hc
  exact ⟨c', hc', by rw [hid, hid'], by rw [htask, hnames], haccepted'.trans haccepted,
    hworker'.trans hworker⟩

theorem Fleet.Sound.elsewhere (h : s.Sound workers) (e : Event) :
    Fleet.Sound workers { s with world := eventStep env exceptions s.world e } := by
  obtain ⟨hready, hlifecycle, hkept⟩ :=
    @eventStep_keeps env exceptions s.world h.ready h.lifecycle e
  exact ⟨hready, hlifecycle, fun l hl v hv => (h.holds l hl v hv).kept hkept, h.distinct, h.past⟩

/-- A lifecycle goes on with the claim it has, or with one that no other has. -/
theorem Fleet.Sound.set (h : s.Sound workers) {i : Nat} {l l' : Lifecycle}
    (hl : s.lifecycles[i]? = some l)
    (hclaim : l'.claimId = l.claimId ∨ ∀ l'' ∈ s.lifecycles, ∀ v, l'.claimId = some v →
      l''.claimId ≠ some v)
    (hholds : ∀ v, l'.claimId = some v → Holds workers s.world.db l' v)
    (hpast : l'.Past → l'.claimId ≠ none) :
    Fleet.Sound workers { s with lifecycles := s.lifecycles.set i l' } := by
  have hother : ∀ j l'', j ≠ i → s.lifecycles[j]? = some l'' →
      ∀ v, l'.claimId = some v → l''.claimId ≠ some v := by
    intro j l'' hj hl'' v hv
    rcases hclaim with hsame | hfresh
    · exact h.distinct i j l l'' hl hl'' (Ne.symm hj) v (hsame ▸ hv)
    · exact hfresh l'' (List.mem_of_getElem? hl'') v hv
  have hget : ∀ j l'', (s.lifecycles.set i l')[j]? = some l'' →
      (j = i ∧ l'' = l') ∨ (j ≠ i ∧ s.lifecycles[j]? = some l'') := by
    intro j l'' hj
    by_cases hij : j = i
    · rw [hij, List.getElem?_set_self (List.getElem?_eq_some_iff.1 hl).1] at hj
      exact .inl ⟨hij, (Option.some.inj hj).symm⟩
    · rw [List.getElem?_set_ne (Ne.symm hij)] at hj
      exact .inr ⟨hij, hj⟩
  have hmem : ∀ l'' ∈ s.lifecycles.set i l', l'' = l' ∨ l'' ∈ s.lifecycles := by
    intro l'' hl''
    obtain ⟨j, hj⟩ := List.mem_iff_getElem?.1 hl''
    rcases hget j l'' hj with ⟨-, heq⟩ | ⟨-, hj⟩
    · exact .inl heq
    · exact .inr (List.mem_of_getElem? hj)
  refine ⟨h.ready, h.lifecycle, fun l'' hl'' v hv => ?_, ?_, fun l'' hl'' hs => ?_⟩
  · rcases hmem l'' hl'' with rfl | hl''
    · exact hholds v hv
    · exact h.holds l'' hl'' v hv
  · intro j k a b ha hb hjk v hv
    rcases hget j a ha with ⟨hji, rfl⟩ | ⟨hji, ha'⟩
    · rcases hget k b hb with ⟨hki, -⟩ | ⟨hki, hb'⟩
      · exact absurd (hji.trans hki.symm) hjk
      · exact hother k b hki hb' v hv
    · rcases hget k b hb with ⟨hki, rfl⟩ | ⟨hki, hb'⟩
      · intro hv'
        exact hother j a hji ha' v hv' hv
      · exact h.distinct j k a b ha' hb' hjk v hv
  · rcases hmem l'' hl'' with rfl | hl''
    · exact hpast hs
    · exact h.past l'' hl'' hs

theorem Fleet.Sound.advance (h : s.Sound workers) {i : Nat} {l l' : Lifecycle}
    (hl : s.lifecycles[i]? = some l) (hworker : l'.worker = l.worker) (htask : l'.taskId = l.taskId)
    (hclaim : l'.claimId = l.claimId) (hpast : l'.Past → l'.claimId ≠ none) :
    Fleet.Sound workers { s with lifecycles := s.lifecycles.set i l' } := by
  refine h.set hl (.inl hclaim) (fun v hv => ?_) hpast
  obtain ⟨c, hc, hid, hnames, haccepted, hdid⟩ :=
    h.holds l (List.mem_of_getElem? hl) v (hclaim ▸ hv)
  exact ⟨c, hc, hid, by rw [htask, hnames], haccepted, by rw [hworker, hdid]⟩

theorem Fleet.Sound.call (h : s.Sound workers) {i : Nat} {stage : Stage}
    {request : Lifecycle → Coordinator.Request} {next : Lifecycle → Option Json → Lifecycle}
    (hnext : ∀ l, s.lifecycles[i]? = some l → l.stage = stage →
      let outcome := serve env exceptions (request l) s.world
      Fleet.Sound workers ⟨outcome.2, s.lifecycles⟩ →
        Fleet.Sound workers ⟨outcome.2, s.lifecycles.set i (next l (callResult outcome.1))⟩) :
    Fleet.Sound workers (s.call env exceptions i stage request next) := by
  unfold Fleet.call
  split
  · next l hl =>
      split
      · next hstage => exact hnext l hl hstage (h.elsewhere (.request (request l)))
      · exact h
  · exact h

theorem Fleet.Sound.move (h : s.Sound workers) {i : Nat} {next : Lifecycle → Lifecycle}
    (hnext : ∀ l, (next l).worker = l.worker ∧ (next l).taskId = l.taskId ∧
      (next l).claimId = l.claimId ∧ ((next l).Past → l.Past)) :
    Fleet.Sound workers (s.move i next) := by
  unfold Fleet.move
  split
  · next l hl =>
      obtain ⟨hworker, htask, hclaim, hpast⟩ := hnext l
      refine h.advance hl hworker htask hclaim fun hl' => ?_
      rw [hclaim]
      exact h.past l (List.mem_of_getElem? hl) (hpast hl')
  · exact h

theorem Fleet.Sound.ended (h : s.Sound workers) {i : Nat} {l : Lifecycle}
    (hl : s.lifecycles[i]? = some l) :
    Fleet.Sound workers { s with lifecycles := s.lifecycles.set i { l with stage := .ended } } := by
  refine h.advance hl rfl rfl rfl fun hpast => h.past l (List.mem_of_getElem? hl) ?_
  rcases hpast with hstarted | hstage
  · exact .inl hstarted
  · cases hstage

theorem Fleet.Sound.claim (h : s.Sound workers) (i id : Nat) (now signedAt : DateTime) :
    Fleet.Sound workers (step env exceptions workers s (.claim i id now signedAt)) := by
  refine h.call fun l hl hstage hserved => ?_
  have hcall := fun result => @claim_call env exceptions s.world (workers l.worker) l.taskId id now
    signedAt result
  cases hresult : callResult (serve env exceptions (message id "tasks/claim"
      ((workers l.worker).claimParams l.taskId now signedAt)) s.world).1 with
  | none => exact hserved.ended hl
  | some result =>
      obtain ⟨c, hc, hfresh, hnames, haccepted, hworker, ms, rfl⟩ := hcall result hresult
      refine hserved.set hl (.inr fun l'' hl'' v hv hv' => ?_) (fun v hv => ?_) fun _ => by
        simp [Lifecycle.claimed]
      · obtain ⟨c', hc', hid, -⟩ := h.holds l'' hl'' v hv'
        have hidc : v = .str c.claimId := (Option.some.inj hv).symm
        exact hfresh c' hc' (Json.str.inj (hid.symm.trans hidc))
      · exact ⟨c, hc, (Option.some.inj hv).symm, hnames, haccepted, hworker⟩

theorem Fleet.Sound.begun (h : s.Sound workers) {l : Lifecycle} (hnone : l.claimId = none)
    (hpast : ¬ l.Past) : Fleet.Sound workers { s with lifecycles := s.lifecycles ++ [l] } := by
  have hmem : ∀ l' ∈ s.lifecycles ++ [l], l' ∈ s.lifecycles ∨ l' = l := by
    intro l' hl'
    rcases List.mem_append.1 hl' with hl' | hl'
    · exact .inl hl'
    · exact .inr (List.mem_singleton.1 hl')
  have hold : ∀ (i : Nat) (l' : Lifecycle), (s.lifecycles ++ [l])[i]? = some l' → ∀ v,
      l'.claimId = some v → s.lifecycles[i]? = some l' := by
    intro i l' hl' v hv
    by_cases hi : i < s.lifecycles.length
    · rwa [List.getElem?_append_left hi] at hl'
    · rw [List.getElem?_append_right (by omega)] at hl'
      have heq : l' = l := List.mem_singleton.1 (List.mem_of_getElem? hl')
      rw [heq, hnone] at hv
      cases hv
  refine ⟨h.ready, h.lifecycle, fun l' hl' v hv => ?_, fun i j a b ha hb hij v hv hv' => ?_,
    fun l' hl' hl'past => ?_⟩
  · rcases hmem l' hl' with hl' | rfl
    · exact h.holds l' hl' v hv
    · cases hnone.symm.trans hv
  · exact h.distinct i j a b (hold i a ha v hv) (hold j b hb v hv') hij v hv hv'
  · rcases hmem l' hl' with hl' | rfl
    · exact h.past l' hl' hl'past
    · exact absurd hl'past hpast

theorem Fleet.Sound.step (h : s.Sound workers) (input : Input) :
    Fleet.Sound workers (step env exceptions workers s input) := by
  cases input with
  | elsewhere e => exact h.elsewhere e
  | dispatch k payload =>
      unfold V2.step
      dsimp only
      split
      · next found hfound => exact h.begun rfl (by simp [Lifecycle.Past])
      · exact h
  | claim i id now signedAt => exact h.claim i id now signedAt
  | openExecution i id =>
      refine h.call fun l hl hstage hserved => ?_
      cases callResult (serve env exceptions
          (message id "tasks/execute" (.obj [("claim_id", l.claimParam)])) s.world).1 with
      | none => exact hserved.ended hl
      | some result =>
          exact hserved.advance hl rfl rfl rfl fun _ =>
            h.past l (List.mem_of_getElem? hl) (.inr hstage)
  | handled i =>
      refine h.move fun l => ?_
      split
      · next hstage =>
          refine ⟨rfl, rfl, rfl, fun hpast => ?_⟩
          rcases hpast with hstarted | hopening
          · exact .inl hstarted
          · cases hopening
      · exact ⟨rfl, rfl, rfl, fun hpast => hpast⟩
  | attest i id evidence =>
      unfold V2.step
      dsimp only
      split
      · refine h.move fun l => ?_
        split
        · refine ⟨rfl, rfl, rfl, fun hpast => ?_⟩
          rcases hpast with hstarted | hopening
          · exact .inl hstarted
          · cases hopening
        · exact ⟨rfl, rfl, rfl, fun hpast => hpast⟩
      · exact h.call fun l hl _ hserved => hserved.ended hl
  | fail i =>
      refine h.move fun l => ⟨rfl, rfl, rfl, fun hpast => ?_⟩
      rcases hpast with hstarted | hopening
      · exact .inl hstarted
      · cases hopening

theorem initial_sound (workers : Nat → Worker env) (registered : List WcpWorker) :
    Fleet.Sound workers ⟨initial registered, []⟩ where
  ready := ⟨rfl, initial_wellFormed registered⟩
  lifecycle := initial_lifecycle env registered
  holds _ h := absurd h List.not_mem_nil
  distinct i _ _ _ h := by simp at h
  past _ h := absurd h List.not_mem_nil

theorem Fleet.Sound.once (h : s.Sound workers) {i j : Nat} {l l' : Lifecycle} {t : String}
    (hl : s.lifecycles[i]? = some l) (hl' : s.lifecycles[j]? = some l')
    (hnames : namesTask env t l.taskId = true) (hnames' : namesTask env t l'.taskId = true)
    (hpast : l.Past) (hpast' : l'.Past) : i = j := by
  by_contra hij
  obtain ⟨v, hv⟩ := Option.ne_none_iff_exists'.1 (h.past l (List.mem_of_getElem? hl) hpast)
  obtain ⟨v', hv'⟩ := Option.ne_none_iff_exists'.1 (h.past l' (List.mem_of_getElem? hl') hpast')
  obtain ⟨c, hc, rfl, hon, -⟩ := h.holds l (List.mem_of_getElem? hl) v hv
  obtain ⟨c', hc', rfl, hon', -⟩ := h.holds l' (List.mem_of_getElem? hl') v' hv'
  have htask : ∀ {id : String} {x : Json}, namesTask env t x = true → namesTask env id x = true →
      id = t := by
    intro id x ht hid
    rw [namesTask_iff] at ht hid
    exact (Option.some.inj (Except.ok.inj (ht.symm.trans hid))).symm
  -- the coordinator holds one claim on the task
  obtain ⟨r, hr, hrt⟩ := h.lifecycle.tasked c hc
  have hmem : c ∈ s.world.db.claimsOn r.taskId := mem_claimsOn.2 ⟨hc, hrt.symm⟩
  have hmem' : c' ∈ s.world.db.claimsOn r.taskId := by
    refine mem_claimsOn.2 ⟨hc', ?_⟩
    rw [hrt, htask hnames hon, htask hnames' hon']
  have hsame : c = c' := by
    have hone := h.lifecycle.claimed r hr
    unfold Db.ClaimedOnce at hone
    split at hone
    · rw [hone] at hmem
      cases hmem
    · obtain ⟨x, hx, -⟩ := hone
      rw [hx] at hmem hmem'
      rw [List.mem_singleton.1 hmem, List.mem_singleton.1 hmem']
  exact h.distinct i j l l' hl hl' hij _ hv (hsame ▸ hv')

/-- Whatever is dispatched to the workers of a coordinator, and wherever they fail: handlers are
called for a task at most once, and a lifecycle that called one holds the accepted claim of its
worker on the task. -/
theorem handler_once (env : Env) (exceptions : Exceptions) (workers : Nat → Worker env)
    (registered : List WcpWorker) (inputs : List Input) :
    let s := run (step env exceptions workers) ⟨initial registered, []⟩ inputs
    (∀ (i j : Nat) (l l' : Lifecycle) (t : String), s.lifecycles[i]? = some l →
      s.lifecycles[j]? = some l' → l.started = true → l'.started = true →
      namesTask env t l.taskId = true → namesTask env t l'.taskId = true → i = j) ∧
    ∀ l ∈ s.lifecycles, l.started = true →
      ∃ claimId, l.claimId = some claimId ∧ Holds workers s.world.db l claimId := by
  have h : Fleet.Sound workers
      (run (step env exceptions workers) ⟨initial registered, []⟩ inputs) :=
    @run_invariant _ _ (step env exceptions workers) (Fleet.Sound workers) (fun _ => True)
      (fun _ input h _ => h.step input) ⟨initial registered, []⟩ inputs
      (initial_sound workers registered) fun _ _ => trivial
  refine ⟨fun i j l l' t hl hl' hs hs' hnames hnames' => ?_, fun l hl hs => ?_⟩
  · exact h.once hl hl' hnames hnames' (.inl hs) (.inl hs')
  · obtain ⟨v, hv⟩ := Option.ne_none_iff_exists'.1 (h.past l hl (.inl hs))
    exact ⟨v, hv, h.holds l hl v hv⟩

def localDispatch : Json := .obj [
  ("task_id", .str "t1"),
  ("task", .obj [("descriptor_type", .str "d")])]

/-- Of two workers that are told of a task, the first to claim it runs it. -/
example : (run (step doubledEnv ⟨fun _ => "", fun _ => ""⟩ fun k =>
    if k = 0 then .python zeroIdentity ["d"] else .typescript zeroIdentity ["d"])
    ⟨initial [zeroWorker], []⟩ [
      .elsewhere (.call (.post (localTask anySensor) localDate .null)),
      .dispatch 0 localDispatch,
      .dispatch 1 localDispatch,
      .claim 0 7 (.utc newYear2030) (.utc newYear2026),
      .claim 1 7 (.utc newYear2030) (.utc newYear2026),
      .openExecution 0 8,
      .openExecution 1 8]).lifecycles.map (fun l => (l.started, l.stage)) =
    [(true, .handling), (false, .ended)] := by
  decide +kernel

end Wcp.Sdk.V2
