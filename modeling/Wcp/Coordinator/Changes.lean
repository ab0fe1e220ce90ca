import Wcp.Coordinator.Calls
import Wcp.Coordinator.Transactions
/-!
# What a call can do to the lifecycle tables

`Change` lists the changes that a call makes to the tasks, the claims and the
audit chain, each one with its guard and the entry it appends.  Every committed
call is a sequence of changes (`step_changes`), so an invariant of the
coordinator is proved once per change and never by unfolding a service method.
-/

namespace Wcp.Coordinator

open Wcp.Base
open Wcp.Base.Exec

/-! ## Well-formed databases -/

/-- The primary keys of the lifecycle tables are unique and every descriptor is an object. -/
structure Db.WellFormed (db : Db) : Prop where
  taskIds : (db.tasks.map (·.taskId)).Nodup
  claimIds : (db.claims.map (·.claimId)).Nodup
  descriptors : ∀ t ∈ db.tasks, ∃ ms, t.taskJson = .obj ms

section WellFormed

variable {db : Db}

theorem findTask_eq_some {id : String} {t : WcpTask} (h : db.findTask id = some t) :
    t ∈ db.tasks ∧ t.taskId = id :=
  ⟨List.mem_of_find?_eq_some h, by simpa using List.find?_some h⟩

theorem findClaim_eq_some {id : String} {c : WcpClaim} (h : db.findClaim id = some c) :
    c ∈ db.claims ∧ c.claimId = id :=
  ⟨List.mem_of_find?_eq_some h, by simpa using List.find?_some h⟩

theorem findTask_eq_none {id : String} (h : db.findTask id = none) :
    ∀ t ∈ db.tasks, t.taskId ≠ id := by
  simpa [Db.findTask] using h

theorem findClaim_eq_none {id : String} (h : db.findClaim id = none) :
    ∀ c ∈ db.claims, c.claimId ≠ id := by
  simpa [Db.findClaim] using h

theorem Db.WellFormed.task_eq (hwf : db.WellFormed) {t t' : WcpTask} (ht : t ∈ db.tasks)
    (ht' : t' ∈ db.tasks) (hid : t.taskId = t'.taskId) : t = t' :=
  List.inj_on_of_nodup_map hwf.taskIds ht ht' hid

theorem Db.WellFormed.findTask (hwf : db.WellFormed) {t : WcpTask} (ht : t ∈ db.tasks) :
    db.findTask t.taskId = some t := by
  cases hfind : db.findTask t.taskId with
  | none => exact absurd rfl (findTask_eq_none hfind t ht)
  | some t' =>
      obtain ⟨ht', hid⟩ := findTask_eq_some hfind
      rw [hwf.task_eq ht' ht hid]

theorem Db.WellFormed.claim_eq (hwf : db.WellFormed) {c c' : WcpClaim} (hc : c ∈ db.claims)
    (hc' : c' ∈ db.claims) (hid : c.claimId = c'.claimId) : c = c' :=
  List.inj_on_of_nodup_map hwf.claimIds hc hc' hid

end WellFormed

/-! ## Progress -/

/-- How far a task has come. -/
structure Progress where
  state : TaskState
  used : Nat
deriving DecidableEq

def WcpTask.progress (t : WcpTask) : Progress := ⟨t.state, t.attestationAttemptsUsed⟩

def WcpTask.withProgress (t : WcpTask) (p : Progress) : WcpTask :=
  { t with state := p.state, attestationAttemptsUsed := p.used }

@[simp] theorem WcpTask.withProgress_taskId (t : WcpTask) (p : Progress) :
    (t.withProgress p).taskId = t.taskId := rfl

@[simp] theorem WcpTask.withProgress_taskJson (t : WcpTask) (p : Progress) :
    (t.withProgress p).taskJson = t.taskJson := rfl

@[simp] theorem WcpTask.withProgress_progress (t : WcpTask) (p : Progress) :
    (t.withProgress p).progress = p := rfl

/-- The task rows after one task has moved on. -/
def Db.progressed (db : Db) (id : String) (p : Progress) : List WcpTask :=
  db.tasks.map fun t => if t.taskId = id then t.withProgress p else t

def WcpAudit.payloadMember (e : WcpAudit) (key : String) : Option Json :=
  match e.payloadJson with
  | .obj ms => ms.lookup key
  | _ => none

namespace TaskState

def all : List TaskState :=
  [posted, claimed, executing, supervising, attesting, rechecking, completed, voided, aborted]

/-- `TaskState(v)`. -/
def ofValue (v : Json) : Option TaskState := all.find? fun s => v = .str s.value

@[simp] theorem ofValue_value (s : TaskState) : ofValue (.str s.value) = some s := by
  cases s <;> decide +kernel

end TaskState

/-- What an entry of a claim says about the progress of its task. -/
def replayEntry (p : Progress) (e : WcpAudit) : Progress :=
  if e.eventType = "task_claimed" then ⟨.claimed, 0⟩
  else if e.eventType = "execution_started" then { p with state := .executing }
  else if e.eventType = "heartbeat_timeout" then { p with state := .supervising }
  else if e.eventType = "supervision_handoff" then
    { p with state := ((e.payloadMember "new_state").bind TaskState.ofValue).getD p.state }
  else if e.eventType = "attestation_attempt" then
    ⟨.attesting, (((e.payloadMember "attempt_number").bind Json.asInt).map Int.toNat).getD p.used⟩
  else if e.eventType = "recheck_requested" then { p with state := .rechecking }
  else if e.eventType = "task_completed" then { p with state := .completed }
  else if e.eventType = "task_voided" then { p with state := .voided }
  else if e.eventType = "task_aborted" then { p with state := .aborted }
  else p

/-- The moves of a claimed task, named by the event that records them; `limit` is the
number of attestation attempts it admits. -/
inductive Move (limit : Int) : String → Progress → Progress → Prop
  | opened {s : TaskState} {used : Nat} (hs : s = .claimed ∨ s = .supervising) :
      Move limit "execution_started" ⟨s, used⟩ ⟨.executing, used⟩
  | timedOut {s : TaskState} {used : Nat} (hs : s = .executing ∨ s = .supervising) :
      Move limit "heartbeat_timeout" ⟨s, used⟩ ⟨.supervising, used⟩
  | handedOver {s : TaskState} {used : Nat} (hs : s = .executing ∨ s = .supervising) :
      Move limit "supervision_handoff" ⟨s, used⟩ ⟨supervisedState s, used⟩
  | attempted {s : TaskState} {used : Nat}
      (hs : s = .executing ∨ s = .supervising ∨ s = .rechecking) :
      Move limit "attestation_attempt" ⟨s, used⟩ ⟨.attesting, used + 1⟩
  | rechecked {used : Nat} (hused : used < limit) :
      Move limit "recheck_requested" ⟨.attesting, used⟩ ⟨.rechecking, used⟩
  | completed {used : Nat} : Move limit "task_completed" ⟨.attesting, used⟩ ⟨.completed, used⟩
  | voided {used : Nat} (hused : limit ≤ used) :
      Move limit "task_voided" ⟨.attesting, used⟩ ⟨.voided, used⟩
  | aborted {s : TaskState} {used : Nat} (hs : s.isTerminal = false) :
      Move limit "task_aborted" ⟨s, used⟩ ⟨.aborted, used⟩

/-- The attempts a task admits, one if its descriptor holds no number. -/
def WcpTask.attemptLimit (env : Env) (t : WcpTask) : Int :=
  match maxAttempts env t.taskJson with
  | .ok limit => limit
  | .error _ => 1

/-! ## Changes -/

/-- The claim a change is about, with its task. -/
structure Db.Holds (db : Db) (c : WcpClaim) (t : WcpTask) : Prop where
  claim : c ∈ db.claims
  task : t ∈ db.tasks
  same : c.taskId = t.taskId

/-- The events that the coordinator records in its own name. -/
def coordinatorAuthored : List String :=
  ["heartbeat_timeout", "recheck_requested", "task_completed", "task_voided"]

/-- Who records a move: the coordinator, or the worker of the claim. -/
def moveActor (worker name : String) : String :=
  if name ∈ coordinatorAuthored then coordinatorDid else worker

/-- An entry about a task, recorded by an actor. -/
structure WcpAudit.AuthoredBy (e : WcpAudit) (actor taskId : String) : Prop where
  actorDid : e.actorDid = actor
  taskId : e.taskId = some taskId

/-- A DID that names a key. -/
def Resolves (env : Env) (did : String) : Prop := ∃ r, resolve env (.str did) = .ok r

/-- One change of the tasks, the claims and the audit chain. -/
inductive Change (env : Env) (call : Call) (db db' : Db) : Prop
  /-- A write to other tables, or none. -/
  | quiet (htasks : db'.tasks = db.tasks) (hclaims : db'.claims = db.claims)
      (haudit : db'.audit = db.audit)
  | posted (row : WcpTask) (entry : WcpAudit)
      (hchecked : ∃ fresh task expiry plan, postChecks env fresh task expiry = .ok plan ∧
        row.taskJson = plan.task)
      (hprogress : row.progress = ⟨.posted, 0⟩) (hfresh : db.findTask row.taskId = none)
      (hentry : entry.claimId = none)
      (htasks : db'.tasks = db.tasks ++ [row]) (hclaims : db'.claims = db.claims)
      (haudit : db'.audit = db.audit ++ [entry])
      (hauthor : Resolves env entry.actorDid ∧ entry.AuthoredBy entry.actorDid row.taskId)
  | claimed (t : WcpTask) (c : WcpClaim) (entry : WcpAudit)
      (ht : t ∈ db.tasks) (hposted : t.state = .posted) (hfresh : db.findClaim c.claimId = none)
      (hsame : c.taskId = t.taskId) (haccepted : c.accepted = true) (hid : c.claimId ≠ "")
      (hbinds : env.bindText (.str c.claimId) = some c.claimId)
      (htype : entry.eventType = "task_claimed") (hentry : entry.claimId = some c.claimId)
      (htasks : db'.tasks = db.progressed t.taskId ⟨.claimed, t.attestationAttemptsUsed⟩)
      (hclaims : db'.claims = db.claims ++ [c]) (haudit : db'.audit = db.audit ++ [entry])
      (hauthor : Resolves env c.workerId ∧ entry.AuthoredBy c.workerId t.taskId)
  /-- A move of the task of a claim.  Only an attestation completes a task. -/
  | moved (c : WcpClaim) (t : WcpTask) (p : Progress) (entry : WcpAudit) (hholds : db.Holds c t)
      (hmove : Move (t.attemptLimit env) entry.eventType t.progress p)
      (hreplay : replayEntry t.progress entry = p) (hpayload : ∃ ms, entry.payloadJson = .obj ms)
      (hentry : entry.claimId = some c.claimId)
      (hcall : p.state = .completed → ∃ claimId attestations, call = .attest claimId attestations)
      (htasks : db'.tasks = db.progressed t.taskId p) (hclaims : db'.claims = db.claims)
      (haudit : db'.audit = db.audit ++ [entry])
      (hauthor : entry.AuthoredBy (moveActor c.workerId entry.eventType) t.taskId)
  /-- An event of a worker, which may set the time of the last heartbeat. -/
  | event (c : WcpClaim) (t : WcpTask) (beat : Option DateTime → Option DateTime)
      (entry : WcpAudit) (eventType : Json)
      (hcall : ∃ claimId timestamp payload sig,
        call = .executeEvent claimId eventType timestamp payload sig)
      (htype : env.bindColumn eventType = some entry.eventType) (hholds : db.Holds c t)
      (hstate : t.state = .executing) (hentry : entry.claimId = some c.claimId)
      (htasks : db'.tasks = db.tasks)
      (hclaims : db'.claims = (db.updateClaim c.claimId fun r =>
        { r with lastHeartbeatAt := beat r.lastHeartbeatAt }).claims)
      (haudit : db'.audit = db.audit ++ [entry])
      (hauthor : entry.AuthoredBy c.workerId t.taskId)
  /-- A move that no entry records: the call names the claim by a list or an object, and the
  statement that reads the predecessor of the entry is refused unsent. -/
  | unrecorded (c : WcpClaim) (t : WcpTask) (p : Progress) (name : String) (hholds : db.Holds c t)
      (hmove : Move (t.attemptLimit env) name t.progress p) (hname : name ∉ coordinatorAuthored)
      (hcall : env.unsent call.claimId = true)
      (htasks : db'.tasks = db.progressed t.taskId p) (hclaims : db'.claims = db.claims)
      (haudit : db'.audit = db.audit)
  /-- A heartbeat that sets the time and that no entry records, for the same reason. -/
  | unheard (c : WcpClaim) (t : WcpTask) (beat : Option DateTime → Option DateTime)
      (hcall : env.unsent call.claimId = true) (hholds : db.Holds c t)
      (hstate : t.state = .executing) (htasks : db'.tasks = db.tasks)
      (hclaims : db'.claims = (db.updateClaim c.claimId fun r =>
        { r with lastHeartbeatAt := beat r.lastHeartbeatAt }).claims)
      (haudit : db'.audit = db.audit)

def Changes (env : Env) (call : Call) : Db → Db → Prop := Relation.ReflTransGen (Change env call)

variable {env : Env} {call : Call} {db db' : Db} {w : World}

theorem Changes.refl : Changes env call db db := Relation.ReflTransGen.refl

theorem Changes.one (h : Change env call db db') : Changes env call db db' :=
  Relation.ReflTransGen.single h

/-! ## Task rows -/

theorem mem_progressed {id : String} {p : Progress} {t : WcpTask} :
    t ∈ db.progressed id p ↔
      (∃ old ∈ db.tasks, old.taskId = id ∧ t = old.withProgress p) ∨
        (t ∈ db.tasks ∧ t.taskId ≠ id) := by
  unfold Db.progressed
  rw [List.mem_map]
  constructor
  · rintro ⟨old, hold, rfl⟩
    by_cases hid : old.taskId = id
    · exact .inl ⟨old, hold, hid, if_pos hid⟩
    · exact .inr (by simpa [hid] using hold)
  · rintro (⟨old, hold, hid, rfl⟩ | ⟨ht, hid⟩)
    · exact ⟨old, hold, if_pos hid⟩
    · exact ⟨t, ht, if_neg hid⟩

theorem map_taskId_progressed (id : String) (p : Progress) :
    (db.progressed id p).map (·.taskId) = db.tasks.map (·.taskId) := by
  unfold Db.progressed
  rw [List.map_map]
  refine List.map_congr_left fun t _ => ?_
  by_cases hid : t.taskId = id <;> simp [hid]

theorem updateTask_progressed (hwf : db.WellFormed) {t : WcpTask} (ht : t ∈ db.tasks)
    {f : WcpTask → WcpTask} {p : Progress} (hf : f t = t.withProgress p) :
    (db.updateTask t.taskId f).tasks = db.progressed t.taskId p := by
  refine List.map_congr_left fun r hr => ?_
  by_cases hid : r.taskId = t.taskId
  · rw [hwf.task_eq hr ht hid, if_pos rfl, if_pos rfl, hf]
  · rw [if_neg hid, if_neg hid]

theorem getD_eq_ok {v d r : Json} {key : String} (h : v.getD key d = (.ok r : Except Err Json)) :
    ∃ ms, v = .obj ms ∧ r = (ms.lookup key).getD d := by
  cases v with
  | obj ms => exact ⟨ms, rfl, (Except.ok.inj h).symm⟩
  | _ => cases h

/-- What the checks of `post` establish: the descriptor is an object and its attestation
requirement is valid. -/
theorem postChecks_valid {fresh : String} {task expiry : Json} {plan : PostPlan}
    (h : postChecks env fresh task expiry = .ok plan) :
    ∃ ms, plan.task = .obj ms ∧ validateAttestationRequirement env
      ((ms.lookup "attestation_requirement").getD (.obj [])) = .ok () := by
  simp only [postChecks, bind_eq_ok] at h
  obtain ⟨_, -, _, -, req, hreq, _, -, _, hvalid, _, -, _, -, _, -, _, -, named, -, _, -, _, -,
    _, -, _, -, h⟩ := h
  obtain ⟨ms, rfl, rfl⟩ := getD_eq_ok hreq
  cases h
  refine ⟨_, rfl, ?_⟩
  rw [Json.lookup_setItem_ne ms _ (by decide)]
  exact hvalid

theorem map_claimId_updateClaim (id : String) (beat : Option DateTime → Option DateTime) :
    (db.updateClaim id fun r => { r with lastHeartbeatAt := beat r.lastHeartbeatAt }).claims.map
      (·.claimId) = db.claims.map (·.claimId) := by
  unfold Db.updateClaim
  rw [List.map_map]
  refine List.map_congr_left fun c _ => ?_
  by_cases hid : c.claimId = id <;> simp [hid]

theorem descriptors_progressed (hwf : db.WellFormed) (id : String) (p : Progress) :
    ∀ t ∈ db.progressed id p, ∃ ms, t.taskJson = .obj ms := by
  intro t ht
  rcases mem_progressed.1 ht with ⟨old, hold, -, rfl⟩ | ⟨ht, -⟩
  · exact hwf.descriptors old hold
  · exact hwf.descriptors t ht

theorem Change.wellFormed (h : Change env call db db') (hwf : db.WellFormed) :
    db'.WellFormed := by
  cases h with
  | quiet htasks hclaims haudit =>
      exact ⟨htasks ▸ hwf.taskIds, hclaims ▸ hwf.claimIds, htasks ▸ hwf.descriptors⟩
  | posted row entry hchecked hprogress hfresh hentry htasks hclaims haudit hauthor =>
      obtain ⟨fresh, task, expiry, plan, hplan, hjson⟩ := hchecked
      refine ⟨?_, hclaims ▸ hwf.claimIds, ?_⟩
      · rw [htasks, List.map_append, List.map_singleton, ← List.concat_eq_append,
          List.nodup_concat]
        refine ⟨?_, hwf.taskIds⟩
        intro hmem
        obtain ⟨t, ht, hid⟩ := List.mem_map.1 hmem
        exact findTask_eq_none hfresh t ht hid
      · intro t ht
        rw [htasks] at ht
        rcases List.mem_append.1 ht with ht | ht
        · exact hwf.descriptors t ht
        · obtain ⟨ms, hobj, -⟩ := postChecks_valid hplan
          exact ⟨ms, by rw [List.mem_singleton.1 ht, hjson, hobj]⟩
  | claimed t c entry ht hposted hfresh hsame haccepted hid hbinds htype hentry htasks hclaims
      haudit hauthor =>
      refine ⟨?_, ?_, htasks ▸ descriptors_progressed hwf _ _⟩
      · rw [htasks, map_taskId_progressed]
        exact hwf.taskIds
      · rw [hclaims, List.map_append, List.map_singleton, ← List.concat_eq_append,
          List.nodup_concat]
        refine ⟨?_, hwf.claimIds⟩
        intro hmem
        obtain ⟨c', hc', hid'⟩ := List.mem_map.1 hmem
        exact findClaim_eq_none hfresh c' hc' hid'
  | moved c t p entry hholds hmove hreplay hpayload hentry hcall htasks hclaims haudit hauthor =>
      refine ⟨?_, hclaims ▸ hwf.claimIds, htasks ▸ descriptors_progressed hwf _ _⟩
      rw [htasks, map_taskId_progressed]
      exact hwf.taskIds
  | event c t beat entry eventType hcall htype hholds hstate hentry htasks hclaims haudit hauthor =>
      refine ⟨htasks ▸ hwf.taskIds, ?_, htasks ▸ hwf.descriptors⟩
      rw [hclaims, map_claimId_updateClaim]
      exact hwf.claimIds
  | unrecorded c t p name hholds hmove hname hcall htasks hclaims haudit =>
      refine ⟨?_, hclaims ▸ hwf.claimIds, htasks ▸ descriptors_progressed hwf _ _⟩
      rw [htasks, map_taskId_progressed]
      exact hwf.taskIds
  | unheard c t beat hcall hholds hstate htasks hclaims haudit =>
      refine ⟨htasks ▸ hwf.taskIds, ?_, htasks ▸ hwf.descriptors⟩
      rw [hclaims, map_claimId_updateClaim]
      exact hwf.claimIds

theorem Changes.wellFormed (h : Changes env call db db') (hwf : db.WellFormed) :
    db'.WellFormed := by
  induction h with
  | refl => exact hwf
  | tail _ hchange ih => exact hchange.wellFormed ih

theorem Changes.invariant {Inv : Db → Prop} (h : Changes env call db db') (hwf : db.WellFormed)
    (hinv : Inv db) (hstep : ∀ a b, a.WellFormed → Change env call a b → Inv a → Inv b) :
    Inv db' := by
  induction h with
  | refl => exact hinv
  | tail hbefore hlast ih => exact hstep _ _ (Changes.wellFormed hbefore hwf) hlast ih

end Wcp.Coordinator
