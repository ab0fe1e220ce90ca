import Wcp.Coordinator.Lifecycle
/-!
# Entries in the coordinator's name

The DID that the coordinator signs its own entries with names no key, so no
poster and no worker can have it.  The entries under it are therefore those of
the coordinator's own decisions, and they count them: one completion of a
completed task, one voiding of a voided one, and a recheck for every attempt
that failed with attempts left.
-/

namespace Wcp.Coordinator

open Wcp.Base

variable {env : Env} {call : Call} {db db' : Db}

theorem coordinatorDid_unresolved : ¬ Resolves env coordinatorDid := by
  rintro ⟨r, hr⟩
  obtain ⟨path, ⟨t, id, rest, ht, hsplit, hkey, hlength, -⟩, -, -⟩ := resolve_eq_ok_iff.1 hr
  have htext : coordinatorDid.toList = "did:wcp:".toList ++ "coordinator".toList := by decide
  have hparts : splitColon 1 "coordinator".toList = ["coordinator".toList] := by decide
  obtain rfl := List.append_cancel_left (ht.symm.trans htext)
  obtain ⟨rfl, -⟩ := List.cons.inj (hsplit.symm.trans hparts)
  have hbytes : (b58decode "coordinator".toList).toOption.map List.length = some 8 := by
    decide +kernel
  rw [hkey] at hbytes
  simp [Except.toOption] at hbytes
  omega

theorem Resolves.ne_coordinator {did : String} (h : Resolves env did) : did ≠ coordinatorDid := by
  rintro rfl
  exact coordinatorDid_unresolved h

/-! ## Counting -/

/-- The entries about a task of one type in the coordinator's name. -/
def Db.authored (db : Db) (taskId name : String) : Nat :=
  db.audit.countP fun e =>
    decide (e.actorDid = coordinatorDid ∧ e.taskId = some taskId ∧ e.eventType = name)

theorem authored_concat {entry : WcpAudit} (h : db'.audit = db.audit ++ [entry])
    (taskId name : String) :
    db'.authored taskId name = db.authored taskId name +
      if entry.actorDid = coordinatorDid ∧ entry.taskId = some taskId ∧ entry.eventType = name
      then 1 else 0 := by
  simp [Db.authored, h, List.countP_append, List.countP_singleton]

theorem authored_of_audit (h : db'.audit = db.audit) (taskId name : String) :
    db'.authored taskId name = db.authored taskId name := by
  rw [Db.authored, h, Db.authored]

theorem authored_other {entry : WcpAudit} (h : db'.audit = db.audit ++ [entry])
    (hactor : entry.actorDid ≠ coordinatorDid) (taskId name : String) :
    db'.authored taskId name = db.authored taskId name := by
  rw [authored_concat h, if_neg fun hentry => hactor hentry.1, Nat.add_zero]

/-- What the entries about a task count, by how far it has come. -/
structure Progress.Tallies (p : Progress) (completed voided rechecks : Nat) : Prop where
  completed : completed = if p.state = .completed then 1 else 0
  voided : voided = if p.state = .voided then 1 else 0
  rechecks : match p.state with
    | .rechecking => rechecks = p.used
    | .attesting | .completed | .voided => rechecks + 1 = p.used
    | .posted | .claimed | .executing | .supervising => rechecks = 0
    | .aborted => rechecks = p.used ∨ rechecks + 1 = p.used

theorem Move.tallies {limit : Int} {name : String} {p q : Progress} {a b r : Nat}
    (h : Move limit name p q) (hp : p.Tallies a b r) (hwithin : p.Within limit) :
    q.Tallies (a + if name = "task_completed" then 1 else 0)
      (b + if name = "task_voided" then 1 else 0)
      (r + if name = "recheck_requested" then 1 else 0) := by
  obtain ⟨rfl, rfl, hr⟩ := hp
  cases h with
  | opened hs => rcases hs with rfl | rfl <;> exact ⟨rfl, rfl, hr⟩
  | timedOut hs => rcases hs with rfl | rfl <;> exact ⟨rfl, rfl, hr⟩
  | handedOver hs => rcases hs with rfl | rfl <;> exact ⟨rfl, rfl, hr⟩
  | attempted hs =>
      simp only [Progress.Within] at hwithin
      rcases hs with rfl | rfl | rfl
      · exact ⟨rfl, rfl, by simp_all⟩
      · exact ⟨rfl, rfl, by simp_all⟩
      · exact ⟨rfl, rfl, by simp_all⟩
  | rechecked hused => exact ⟨rfl, rfl, hr⟩
  | completed => exact ⟨rfl, rfl, hr⟩
  | voided hused => exact ⟨rfl, rfl, hr⟩
  | @aborted s used hs =>
      simp only [Progress.Within] at hwithin
      cases s with
      | completed => cases hs
      | voided => cases hs
      | aborted => cases hs
      | rechecking => exact ⟨rfl, rfl, .inl hr⟩
      | attesting => exact ⟨rfl, rfl, .inr hr⟩
      | _ => exact ⟨rfl, rfl, .inl (by simp_all)⟩

/-- The entries in the coordinator's name are its own and count its decisions. -/
structure Db.Authorship (env : Env) (db : Db) : Prop where
  workers : ∀ c ∈ db.claims, Resolves env c.workerId
  names : ∀ e ∈ db.audit, e.actorDid = coordinatorDid →
    e.eventType ∈ coordinatorAuthored ∧ ∃ t ∈ db.tasks, e.taskId = some t.taskId
  tallies : ∀ t ∈ db.tasks, t.progress.Tallies (db.authored t.taskId "task_completed")
    (db.authored t.taskId "task_voided") (db.authored t.taskId "recheck_requested")

/-- The tally of a task, on a table where nothing was counted for it. -/
theorem Progress.Tallies.congr {p : Progress} {taskId : String}
    (h : p.Tallies (db.authored taskId "task_completed") (db.authored taskId "task_voided")
      (db.authored taskId "recheck_requested"))
    (hsame : ∀ name, db'.authored taskId name = db.authored taskId name) :
    p.Tallies (db'.authored taskId "task_completed") (db'.authored taskId "task_voided")
      (db'.authored taskId "recheck_requested") := by
  rw [hsame, hsame, hsame]
  exact h

/-- A new entry keeps the names when it is another actor's or one of the coordinator's own. -/
theorem Db.Authorship.names_concat {entry : WcpAudit} (h : db.Authorship env)
    (haudit : db'.audit = db.audit ++ [entry])
    (htasks : ∀ id, (∃ t ∈ db.tasks, t.taskId = id) → ∃ t ∈ db'.tasks, t.taskId = id)
    (hentry : entry.actorDid = coordinatorDid →
      entry.eventType ∈ coordinatorAuthored ∧ ∃ t ∈ db.tasks, entry.taskId = some t.taskId) :
    ∀ e ∈ db'.audit, e.actorDid = coordinatorDid →
      e.eventType ∈ coordinatorAuthored ∧ ∃ t ∈ db'.tasks, e.taskId = some t.taskId := by
  intro e he hactor
  rw [haudit, List.mem_append, List.mem_singleton] at he
  have hold : e.eventType ∈ coordinatorAuthored ∧ ∃ t ∈ db.tasks, e.taskId = some t.taskId := by
    rcases he with he | rfl
    · exact h.names e he hactor
    · exact hentry hactor
  obtain ⟨hname, t, ht, hid⟩ := hold
  obtain ⟨t', ht', hid'⟩ := htasks t.taskId ⟨t, ht, rfl⟩
  exact ⟨hname, t', ht', by rw [hid, hid']⟩

/-- An entry about a task counts for it under its own type, and for no other task. -/
theorem authored_moved {entry : WcpAudit} {worker taskId : String}
    (haudit : db'.audit = db.audit ++ [entry])
    (hauthor : entry.AuthoredBy (moveActor worker entry.eventType) taskId) {name : String}
    (hname : name ∈ coordinatorAuthored) (id : String) :
    db'.authored id name = db.authored id name +
      if id = taskId ∧ entry.eventType = name then 1 else 0 := by
  rw [authored_concat haudit, hauthor.actorDid, hauthor.taskId]
  congr 2
  rw [eq_iff_iff]
  constructor
  · rintro ⟨-, hid, htype⟩
    exact ⟨(Option.some.inj hid).symm, htype⟩
  · rintro ⟨rfl, rfl⟩
    exact ⟨if_pos hname, rfl, rfl⟩

theorem workers_beat {id : String} {beat : Option DateTime → Option DateTime}
    (h : ∀ c ∈ db.claims, Resolves env c.workerId) :
    ∀ c ∈ (db.updateClaim id fun r =>
      { r with lastHeartbeatAt := beat r.lastHeartbeatAt }).claims, Resolves env c.workerId := by
  intro c hc
  obtain ⟨old, hold, rfl⟩ := List.mem_map.1 hc
  have hresolves := h old hold
  split <;> exact hresolves

theorem Change.workers (h : Change env call db db') (hworkers : ∀ c ∈ db.claims,
    Resolves env c.workerId) : ∀ c ∈ db'.claims, Resolves env c.workerId := by
  cases h with
  | quiet htasks hclaims haudit => exact hclaims ▸ hworkers
  | posted row entry hchecked hprogress hfresh hentry htasks hclaims haudit hauthor =>
      exact hclaims ▸ hworkers
  | claimed t c entry ht hposted hfresh hsame haccepted hid hbinds htype hentry htasks hclaims
      haudit hauthor =>
      rw [hclaims, List.forall_mem_append, List.forall_mem_singleton]
      exact ⟨hworkers, hauthor.1⟩
  | moved c t p entry hholds hmove hreplay hpayload hentry hcall htasks hclaims haudit hauthor =>
      exact hclaims ▸ hworkers
  | event c t beat entry eventType hcall htype hholds hstate hentry htasks hclaims haudit hauthor =>
      exact hclaims ▸ workers_beat hworkers
  | unrecorded c t p name hholds hmove hname hcall htasks hclaims haudit =>
      exact hclaims ▸ hworkers
  | unheard c t beat hcall hholds hstate htasks hclaims haudit =>
      exact hclaims ▸ workers_beat hworkers

/-- Every entry in the coordinator's name stays about a task and under one of its names. -/
theorem Change.names_authored (h : Change env call db db') (hinv : db.Authorship env) :
    ∀ e ∈ db'.audit, e.actorDid = coordinatorDid →
      e.eventType ∈ coordinatorAuthored ∧ ∃ t ∈ db'.tasks, e.taskId = some t.taskId := by
  cases h with
  | quiet htasks hclaims haudit =>
      rw [haudit, htasks]
      exact hinv.names
  | posted row entry hchecked hprogress hfresh hentry htasks hclaims haudit hauthor =>
      refine hinv.names_concat haudit ?_ fun h => absurd h hauthor.1.ne_coordinator
      rintro id ⟨t, ht, hid⟩
      exact ⟨t, htasks ▸ List.mem_append_left _ ht, hid⟩
  | claimed t c entry ht hposted hfresh hsame haccepted hid hbinds htype hentry htasks hclaims
      haudit hauthor =>
      refine hinv.names_concat haudit ?_ fun h =>
        absurd (hauthor.2.actorDid.symm.trans h) hauthor.1.ne_coordinator
      rw [htasks]
      exact fun id h => exists_progressed h
  | moved c t p entry hholds hmove hreplay hpayload hentry hcall htasks hclaims haudit hauthor =>
      refine hinv.names_concat haudit ?_ fun hactor => ⟨?_, t, hholds.task, hauthor.taskId⟩
      · rw [htasks]
        exact fun id h => exists_progressed h
      · by_contra hname
        rw [hauthor.actorDid, moveActor, if_neg hname] at hactor
        exact (hinv.workers c hholds.claim).ne_coordinator hactor
  | event c t beat entry eventType hcall htype hholds hstate hentry htasks hclaims haudit hauthor =>
      refine hinv.names_concat haudit ?_ fun h => absurd (hauthor.actorDid.symm.trans h)
        (hinv.workers c hholds.claim).ne_coordinator
      rw [htasks]
      exact fun _ h => h
  | unrecorded c t p name hholds hmove hname hcall htasks hclaims haudit =>
      rw [haudit]
      intro e he hactor
      obtain ⟨hnamed, t', ht', hid⟩ := hinv.names e he hactor
      obtain ⟨t'', ht'', hid'⟩ := htasks ▸ @exists_progressed _ t.taskId _ p ⟨t', ht', rfl⟩
      exact ⟨hnamed, t'', ht'', by rw [hid, hid']⟩
  | unheard c t beat hcall hholds hstate htasks hclaims haudit =>
      rw [haudit, htasks]
      exact hinv.names

/-- Where nothing is counted anew, the rows that move as the tally says keep theirs. -/
theorem tallies_progressed (hwf : db.WellFormed) {t : WcpTask} (ht : t ∈ db.tasks) {p : Progress}
    (htasks : db'.tasks = db.progressed t.taskId p)
    (hrest : ∀ t' ∈ db.tasks, t'.taskId ≠ t.taskId →
      t'.progress.Tallies (db'.authored t'.taskId "task_completed")
        (db'.authored t'.taskId "task_voided") (db'.authored t'.taskId "recheck_requested"))
    (hmoved : p.Tallies (db'.authored t.taskId "task_completed")
      (db'.authored t.taskId "task_voided") (db'.authored t.taskId "recheck_requested")) :
    ∀ t' ∈ db'.tasks, t'.progress.Tallies (db'.authored t'.taskId "task_completed")
      (db'.authored t'.taskId "task_voided") (db'.authored t'.taskId "recheck_requested") := by
  rw [htasks]
  refine forall_progressed ?_ hrest
  intro old hold holdid
  obtain rfl := hwf.task_eq hold ht holdid
  rw [WcpTask.withProgress_taskId, WcpTask.withProgress_progress]
  exact hmoved

/-- The entries in the coordinator's name keep counting the moves of every task. -/
theorem Change.tallies_authored (h : Change env call db db') (hwf : db.WellFormed)
    (hlife : db.Lifecycle env) (hinv : db.Authorship env) :
    ∀ t ∈ db'.tasks, t.progress.Tallies (db'.authored t.taskId "task_completed")
      (db'.authored t.taskId "task_voided") (db'.authored t.taskId "recheck_requested") := by
  cases h with
  | quiet htasks hclaims haudit =>
      rw [htasks]
      exact fun t ht => (hinv.tallies t ht).congr (authored_of_audit haudit _)
  | posted row entry hchecked hprogress hfresh hentry htasks hclaims haudit hauthor =>
      have hkeep := authored_other haudit hauthor.1.ne_coordinator
      intro t ht
      rw [htasks, List.mem_append, List.mem_singleton] at ht
      rcases ht with ht | rfl
      · exact (hinv.tallies t ht).congr (hkeep _)
      · -- no entry in the coordinator's name is about a task that was not there
        have hzero : ∀ name, db'.authored t.taskId name = 0 := by
          intro name
          rw [hkeep, Db.authored, List.countP_eq_zero]
          intro e he hcounted
          obtain ⟨hcoord, hid, -⟩ := of_decide_eq_true hcounted
          obtain ⟨-, t', ht', hid'⟩ := hinv.names e he hcoord
          exact findTask_eq_none hfresh t' ht' (Option.some.inj (hid'.symm.trans hid))
        rw [hzero, hzero, hzero, hprogress]
        exact ⟨rfl, rfl, rfl⟩
  | claimed t c entry ht hposted hfresh hsame haccepted hid hbinds htype hentry htasks hclaims
      haudit hauthor =>
      have hactor : entry.actorDid ≠ coordinatorDid := by
        rw [hauthor.2.actorDid]
        exact hauthor.1.ne_coordinator
      have hkeep := authored_other haudit hactor
      refine tallies_progressed hwf ht htasks
        (fun t' ht' _ => (hinv.tallies t' ht').congr (hkeep _)) ?_
      have hold := hinv.tallies t ht
      rw [show t.progress = ⟨.posted, t.attestationAttemptsUsed⟩ by
        rw [WcpTask.progress, hposted]] at hold
      rw [hkeep, hkeep, hkeep]
      exact ⟨hold.completed, hold.voided, hold.rechecks⟩
  | moved c t p entry hholds hmove hreplay hpayload hentry hcall htasks hclaims haudit hauthor =>
      have hcount := fun {name} hname => @authored_moved db db' entry c.workerId t.taskId
        haudit hauthor name hname
      refine tallies_progressed hwf hholds.task htasks (fun t' ht' hne => ?_) ?_
      · refine (hinv.tallies t' ht').congr fun name => ?_
        rw [authored_concat haudit, hauthor.taskId, if_neg, Nat.add_zero]
        rintro ⟨-, hid, -⟩
        exact hne (Option.some.inj hid).symm
      · have htally := hmove.tallies (hinv.tallies t hholds.task) (hlife.within t hholds.task)
        rw [hcount (by decide), hcount (by decide), hcount (by decide)]
        simpa only [true_and] using htally
  | event c t beat entry eventType hcall htype hholds hstate hentry htasks hclaims haudit hauthor =>
      have hactor : entry.actorDid ≠ coordinatorDid := by
        rw [hauthor.actorDid]
        exact (hinv.workers c hholds.claim).ne_coordinator
      rw [htasks]
      exact fun t' ht' => (hinv.tallies t' ht').congr (authored_other haudit hactor _)
  | unrecorded c t p name hholds hmove hname hcall htasks hclaims haudit =>
      -- none of the names that are counted
      have hcounted : ∀ counted ∈ coordinatorAuthored, ¬ name = counted := by
        rintro counted hmem rfl
        exact hname hmem
      refine tallies_progressed hwf hholds.task htasks
        (fun t' ht' _ => (hinv.tallies t' ht').congr (authored_of_audit haudit _)) ?_
      have htally := hmove.tallies (hinv.tallies t hholds.task) (hlife.within t hholds.task)
      rw [if_neg (hcounted _ (by decide)), if_neg (hcounted _ (by decide)),
        if_neg (hcounted _ (by decide))] at htally
      exact htally.congr (authored_of_audit haudit _)
  | unheard c t beat hcall hholds hstate htasks hclaims haudit =>
      rw [htasks]
      exact fun t' ht' => (hinv.tallies t' ht').congr (authored_of_audit haudit _)

theorem Change.authorship (h : Change env call db db') (hwf : db.WellFormed)
    (hlife : db.Lifecycle env) (hinv : db.Authorship env) : db'.Authorship env where
  workers := h.workers hinv.workers
  names := h.names_authored hinv
  tallies := h.tallies_authored hwf hlife hinv

theorem initial_authorship (env : Env) (workers : List WcpWorker) :
    (initial workers).db.Authorship env :=
  ⟨fun _ h => absurd h List.not_mem_nil, fun _ h => absurd h List.not_mem_nil,
    fun _ h => absurd h List.not_mem_nil⟩

theorem reach_authorship (env : Env) (workers : List WcpWorker) (calls : List Call) :
    (reach env workers calls).db.Authorship env :=
  (@run_changes_invariant env (fun db => db.Lifecycle env ∧ db.Authorship env) (fun _ => True)
    (fun _ _ _ _ hwf hchange hinv =>
      ⟨hchange.lifecycle hwf hinv.1, hchange.authorship hwf hinv.1 hinv.2⟩)
    (initial workers) calls (initial_wellFormed workers)
    ⟨initial_lifecycle env workers, initial_authorship env workers⟩ fun _ _ => trivial).2.2

/-! ## Events of a worker's choice -/

/-- The one call with an event name of the caller's choice records it under a worker's name. -/
theorem executeEvent_actor {w : World} (claimId eventType timestamp payload sig : Json) :
    Exec.Ends (executeEvent env claimId eventType timestamp payload sig) w
      (Committed fun db => db.audit = w.db.audit ∨
        ∃ e, ∃ c ∈ w.db.claims, db.audit = w.db.audit ++ [e] ∧ e.actorDid = c.workerId) := by
  unfold executeEvent
  refine readDb_bind ?_ fun e _ => Committed.of (.inl rfl)
  rintro ⟨c, t⟩ hct
  have hclaim := (claimAndTask_key hct).1.claim
  refine Exec.Ends.require_bind ?_ fun _ => Committed.of (.inl rfl)
  intro _
  refine Exec.Ends.lift_bind ?_ fun e _ => Committed.of (.inl rfl)
  intro _ _
  refine recordHeartbeat_bind ?_ (fun e => Committed.of (.inl rfl)) fun _ => Committed.database
  intro beat
  refine append_bind ?_ (fun _ => Committed.database) fun _ _ => Committed.of (.inl rfl)
  rintro r entry storedType claim task - - - - ⟨prev, -, rfl⟩
  exact Exec.Ends.pure (Committed.of (.inr ⟨_, c, hclaim, rfl, rfl⟩))

theorem step_executeEvent_actor (w : World) (claimId eventType timestamp payload sig : Json) :
    (step env w (.executeEvent claimId eventType timestamp payload sig)).db.audit = w.db.audit ∨
      ∃ e, ∃ c ∈ w.db.claims,
        (step env w (.executeEvent claimId eventType timestamp payload sig)).db.audit =
          w.db.audit ++ [e] ∧ e.actorDid = c.workerId := by
  rw [step]
  exact settle_db (R := fun db : Db => db.audit = w.db.audit ∨
    ∃ e : WcpAudit, ∃ c ∈ w.db.claims, db.audit = w.db.audit ++ [e] ∧ e.actorDid = c.workerId)
    (.inl rfl) (executeEvent_actor claimId eventType timestamp payload sig)

/-! ## The count over runs -/

/-- What the entries in the coordinator's name say about a task. -/
structure CoordinatorEntries (db : Db) (t : WcpTask) : Prop where
  completed : db.authored t.taskId "task_completed" = if t.state = .completed then 1 else 0
  voided : db.authored t.taskId "task_voided" = if t.state = .voided then 1 else 0
  rechecking : t.state = .rechecking →
    db.authored t.taskId "recheck_requested" = t.attestationAttemptsUsed
  attested : t.state = .attesting ∨ t.state = .completed ∨ t.state = .voided →
    (db.authored t.taskId "recheck_requested" : Int) = t.attestationAttemptsUsed - 1
  unattested : t.state = .posted ∨ t.state = .claimed ∨ t.state = .executing ∨
    t.state = .supervising → db.authored t.taskId "recheck_requested" = 0
  aborted : t.state = .aborted →
    (db.authored t.taskId "recheck_requested" : Int) = t.attestationAttemptsUsed ∨
      (db.authored t.taskId "recheck_requested" : Int) = t.attestationAttemptsUsed - 1

theorem Db.Authorship.of (h : db.Authorship env) {t : WcpTask} (ht : t ∈ db.tasks) :
    CoordinatorEntries db t := by
  obtain ⟨hcompleted, hvoided, hrechecks⟩ := h.tallies t ht
  simp only [WcpTask.progress] at hrechecks
  refine ⟨hcompleted, hvoided, ?_, ?_, ?_, ?_⟩
  · intro hs
    simpa only [hs] using hrechecks
  · rintro (hs | hs | hs) <;> simp only [hs] at hrechecks <;> omega
  · rintro (hs | hs | hs | hs) <;> simpa only [hs] using hrechecks
  · intro hs
    simp only [hs] at hrechecks
    omega

/-- In every state that calls reach, the entries in the coordinator's name count its decisions on
every task and have names of its own, and an event of a worker's choice is not among them. -/
theorem reach_coordinatorEntries (env : Env) (workers : List WcpWorker) (calls : List Call) :
    (∀ t ∈ (reach env workers calls).db.tasks,
      CoordinatorEntries (reach env workers calls).db t) ∧
    (∀ e ∈ (reach env workers calls).db.audit, e.actorDid = coordinatorDid →
      e.eventType ∈ coordinatorAuthored) ∧
    ∀ claimId eventType timestamp payload sig e,
      e ∈ (reach env workers
        (calls ++ [.executeEvent claimId eventType timestamp payload sig])).db.audit →
      e ∉ (reach env workers calls).db.audit → e.actorDid ≠ coordinatorDid := by
  have hinv := reach_authorship env workers calls
  refine ⟨fun t ht => hinv.of ht, fun e he hactor => (hinv.names e he hactor).1, ?_⟩
  intro claimId eventType timestamp payload sig e he hnew
  rw [reach_snoc] at he
  rcases step_executeEvent_actor (reach env workers calls) claimId eventType timestamp payload sig
    with hsame | ⟨entry, c, hc, haudit, hactor⟩
  · rw [hsame] at he
    exact absurd he hnew
  · rw [haudit, List.mem_append, List.mem_singleton] at he
    rcases he with he | rfl
    · exact absurd he hnew
    · rw [hactor]
      exact (hinv.workers c hc).ne_coordinator

/-- A worker reports a completion of its own. -/
def localReported : List Call := localStart anySensor ++
  [.executeEvent localClaimId (.str "task_completed") localDate (.obj []) zeroSig]

/-- The report is stored, and the coordinator's count of completions stays at zero. -/
theorem reach_coordinatorEntries_reported :
    (∃ e ∈ (reach localEnv [zeroWorker] localReported).db.audit,
      decide (e.eventType = "task_completed") = true) ∧
    ∃ t ∈ (reach localEnv [zeroWorker] localReported).db.tasks,
      (reach localEnv [zeroWorker] localReported).db.authored t.taskId "task_completed" = 0 := by
  have hreported : ((reach localEnv [zeroWorker] localReported).db.audit.any fun e =>
      decide (e.eventType = "task_completed")) = true := by decide +kernel
  have hopen : ((reach localEnv [zeroWorker] localReported).db.tasks.any fun t =>
      decide (t.state = .executing)) = true := by decide +kernel
  obtain ⟨t, ht, hstate⟩ := List.any_eq_true.1 hopen
  have hentries := (reach_coordinatorEntries localEnv [zeroWorker] localReported).1 t ht
  refine ⟨List.any_eq_true.1 hreported, t, ht, ?_⟩
  rw [hentries.completed, of_decide_eq_true hstate]
  rfl

end Wcp.Coordinator
