import Wcp.Coordinator.Lifecycle
/-!
# The audit chain as a journal

A summary of the entries of a claim is a fold over them.  If the fold follows
every move of the task and ignores the events of workers, then in every state it
gives what it should for the progress of the task (`reach_summary`).  Replaying
the entries is one such summary and counting the entries of a type is another.
-/

namespace Wcp.Coordinator

open Wcp.Base

variable {env : Env} {call : Call} {db db' : Db}

/-! ## Entries of a claim -/

theorem entriesOf_of_audit (h : db'.audit = db.audit) (id : String) :
    db'.entriesOf id = db.entriesOf id := by
  unfold Db.entriesOf
  rw [h]

theorem entriesOf_concat {e : WcpAudit} (h : db'.audit = db.audit ++ [e]) (id : String) :
    db'.entriesOf id = db.entriesOf id ++ if e.claimId = some id then [e] else [] := by
  unfold Db.entriesOf
  rw [h, List.filter_append]
  by_cases hid : e.claimId = some id <;> simp [hid]

/-- Every entry of a claim is of a claim in the table, and every claim can be looked up under
its id. -/
structure Db.Filed (env : Env) (db : Db) : Prop where
  entries : ∀ e ∈ db.audit, ∀ id, e.claimId = some id → ∃ c ∈ db.claims, c.claimId = id
  keys : ∀ c ∈ db.claims, c.claimId ≠ "" ∧ env.bindText (.str c.claimId) = some c.claimId

theorem Db.Filed.concat {e : WcpAudit} (h : db.Filed env) (hclaims : db'.claims = db.claims)
    (haudit : db'.audit = db.audit ++ [e])
    (he : ∀ id, e.claimId = some id → ∃ c ∈ db.claims, c.claimId = id) : db'.Filed env := by
  refine ⟨?_, hclaims ▸ h.keys⟩
  rw [haudit, hclaims]
  intro e' he'
  rcases List.mem_append.1 he' with he' | he'
  · exact h.entries e' he'
  · rw [List.mem_singleton.1 he']
    exact he

theorem mem_beat {id : String} {beat : Option DateTime → Option DateTime} {c : WcpClaim}
    (hclaims : db'.claims = (db.updateClaim id fun r =>
      { r with lastHeartbeatAt := beat r.lastHeartbeatAt }).claims) (hc : c ∈ db'.claims) :
    ∃ old ∈ db.claims, old.claimId = c.claimId ∧ old.taskId = c.taskId := by
  rw [hclaims] at hc
  obtain ⟨old, hold, rfl⟩ := List.mem_map.1 hc
  refine ⟨old, hold, ?_⟩
  split <;> exact ⟨rfl, rfl⟩

theorem Change.filed (h : Change env call db db') (hfiled : db.Filed env) : db'.Filed env := by
  cases h with
  | quiet htasks hclaims haudit =>
      exact ⟨by rw [haudit, hclaims]; exact hfiled.entries, hclaims ▸ hfiled.keys⟩
  | posted row entry hchecked hprogress hfresh hentry htasks hclaims haudit hauthor =>
      refine hfiled.concat hclaims haudit fun id hid => ?_
      rw [hentry] at hid
      cases hid
  | claimed t c entry ht hposted hfresh hsame haccepted hid hbinds htype hentry htasks hclaims
      haudit hauthor =>
      refine ⟨?_, ?_⟩
      · rw [haudit, hclaims]
        intro e he id heid
        rcases List.mem_append.1 he with he | he
        · obtain ⟨c', hc', hid'⟩ := hfiled.entries e he id heid
          exact ⟨c', List.mem_append_left _ hc', hid'⟩
        · rw [List.mem_singleton.1 he, hentry] at heid
          exact ⟨c, by simp, Option.some.inj heid⟩
      · rw [hclaims]
        intro c' hc'
        rcases List.mem_append.1 hc' with hc' | hc'
        · exact hfiled.keys c' hc'
        · rw [List.mem_singleton.1 hc']
          exact ⟨hid, hbinds⟩
  | moved c t p entry hholds hmove hreplay hpayload hentry hcall htasks hclaims haudit hauthor =>
      refine hfiled.concat hclaims haudit fun id hid => ?_
      rw [hentry] at hid
      exact ⟨c, hholds.claim, Option.some.inj hid⟩
  | event c t beat entry eventType hcall htype hholds hstate hentry htasks hclaims haudit hauthor =>
      have hids : ∀ id, (∃ c ∈ db'.claims, c.claimId = id) ↔ ∃ c ∈ db.claims, c.claimId = id := by
        intro id
        rw [← List.mem_map, ← List.mem_map, hclaims, map_claimId_updateClaim]
      refine ⟨?_, ?_⟩
      · rw [haudit]
        intro e he id heid
        rw [hids]
        rcases List.mem_append.1 he with he | he
        · exact hfiled.entries e he id heid
        · rw [List.mem_singleton.1 he, hentry] at heid
          exact ⟨c, hholds.claim, Option.some.inj heid⟩
      · intro c' hc'
        obtain ⟨old, hold, hid, -⟩ := mem_beat hclaims hc'
        rw [← hid]
        exact hfiled.keys old hold
  | unrecorded c t p name hholds hmove hname hcall htasks hclaims haudit =>
      exact ⟨by rw [haudit, hclaims]; exact hfiled.entries, hclaims ▸ hfiled.keys⟩
  | unheard c t beat hcall hholds hstate htasks hclaims haudit =>
      refine ⟨?_, ?_⟩
      · rw [haudit]
        intro e he id heid
        obtain ⟨c', hc', hid⟩ := hfiled.entries e he id heid
        rw [← List.mem_map, hclaims, map_claimId_updateClaim, List.mem_map]
        exact ⟨c', hc', hid⟩
      · intro c' hc'
        obtain ⟨old, hold, hid, -⟩ := mem_beat hclaims hc'
        rw [← hid]
        exact hfiled.keys old hold

/-! ## Summaries -/

section Summary

variable {S : Type} (f : S → WcpAudit → S) (s₀ : S) (abs : Progress → S)

/-- The fold over the entries of every claim gives what it should for its task. -/
def Db.Summarised (db : Db) : Prop :=
  ∀ c t, db.Holds c t → (db.entriesOf c.claimId).foldl f s₀ = abs t.progress

/-- The fold follows the moves of a task. -/
structure Follows (Ok : Call → Prop) (env : Env) : Prop where
  claimed : ∀ e : WcpAudit, e.eventType = "task_claimed" → f s₀ e = abs ⟨.claimed, 0⟩
  moved : ∀ limit p q (e : WcpAudit), Move limit e.eventType p q → replayEntry p e = q →
    (∃ ms, e.payloadJson = .obj ms) → f (abs p) e = abs q
  event : ∀ claimId eventType timestamp payload sig (p : Progress) (e : WcpAudit),
    Ok (.executeEvent claimId eventType timestamp payload sig) →
    env.bindColumn eventType = some e.eventType → f (abs p) e = abs p
  sent : ∀ call, Ok call → env.unsent call.claimId = false

variable {f s₀ abs} {Ok : Call → Prop}

theorem Db.Lifecycle.holder_eq {c c' : WcpClaim} {t : WcpTask} (h : db.Lifecycle env)
    (hholds : db.Holds c t) (hc' : c' ∈ db.claims) (hsame : c'.taskId = t.taskId) : c' = c := by
  have hclaimed := h.claimed t hholds.task
  have hmem := mem_claimsOn.2 ⟨hholds.claim, hholds.same⟩
  have hmem' := mem_claimsOn.2 ⟨hc', hsame⟩
  unfold Db.ClaimedOnce at hclaimed
  split at hclaimed
  · rw [hclaimed] at hmem
    cases hmem
  · obtain ⟨x, hx, -⟩ := hclaimed
    rw [hx, List.mem_singleton] at hmem hmem'
    rw [hmem, hmem']

theorem Change.summarised (hfollows : Follows f s₀ abs Ok env) (hok : Ok call)
    (h : Change env call db db') (hwf : db.WellFormed) (hlife : db.Lifecycle env)
    (hfiled : db.Filed env) (hsum : db.Summarised f s₀ abs) : db'.Summarised f s₀ abs := by
  cases h with
  | quiet htasks hclaims haudit =>
      intro c t hholds
      rw [entriesOf_of_audit haudit]
      exact hsum c t ⟨hclaims ▸ hholds.claim, htasks ▸ hholds.task, hholds.same⟩
  | posted row entry hchecked hprogress hfresh hentry htasks hclaims haudit hauthor =>
      intro c t hholds
      have hc : c ∈ db.claims := hclaims ▸ hholds.claim
      have ht := hholds.task
      rw [htasks, List.mem_append, List.mem_singleton] at ht
      rw [entriesOf_concat haudit, hentry, if_neg (by simp), List.append_nil]
      rcases ht with ht | rfl
      · exact hsum c t ⟨hc, ht, hholds.same⟩
      · obtain ⟨t', ht', hid⟩ := hlife.tasked c hc
        exact absurd (hid.trans hholds.same) (findTask_eq_none hfresh t' ht')
  | claimed t c entry ht hposted hfresh hsame haccepted hid hbinds htype hentry htasks hclaims
      haudit hauthor =>
      intro c' t' hholds
      have hused : t.attestationAttemptsUsed = 0 := (hlife.of ht).unattested (.inl hposted)
      have hnone := (hlife.of ht).posted_iff.1 hposted
      have hc' := hholds.claim
      have ht' := hholds.task
      rw [hclaims, List.mem_append, List.mem_singleton] at hc'
      rw [htasks, mem_progressed] at ht'
      rw [entriesOf_concat haudit, hentry]
      rcases hc' with hc' | rfl
      · -- an earlier claim is on another task and has another id
        rw [if_neg, List.append_nil]
        · rcases ht' with ⟨old, hold, holdid, rfl⟩ | ⟨ht', -⟩
          · have hmem := mem_claimsOn.2 ⟨hc', hholds.same.trans holdid⟩
            rw [hnone] at hmem
            cases hmem
          · exact hsum c' t' ⟨hc', ht', hholds.same⟩
        · intro heq
          exact findClaim_eq_none hfresh c' hc' (Option.some.inj heq).symm
      · have hempty : db.entriesOf c'.claimId = [] := by
          rw [List.eq_nil_iff_forall_not_mem]
          intro e he
          obtain ⟨he, heid⟩ := List.mem_filter.1 he
          obtain ⟨c, hc, hcid⟩ := hfiled.entries e he c'.claimId (by simpa using heid)
          exact findClaim_eq_none hfresh c hc hcid
        rw [if_pos rfl, hempty, List.nil_append, List.foldl_cons, List.foldl_nil,
          hfollows.claimed entry htype]
        rcases ht' with ⟨old, -, -, rfl⟩ | ⟨-, hne⟩
        · rw [WcpTask.withProgress_progress, hused]
        · exact absurd (hholds.same.symm.trans hsame) hne
  | moved c t p entry hholds hmove hreplay hpayload hentry hcall htasks hclaims haudit hauthor =>
      intro c' t' hholds'
      have hc' : c' ∈ db.claims := hclaims ▸ hholds'.claim
      have ht' := hholds'.task
      rw [htasks, mem_progressed] at ht'
      rw [entriesOf_concat haudit, hentry]
      by_cases hcc : c' = c
      · rw [hcc, if_pos rfl, List.foldl_append, hsum c t hholds, List.foldl_cons, List.foldl_nil,
          hfollows.moved _ _ _ entry hmove hreplay hpayload]
        rcases ht' with ⟨old, -, -, rfl⟩ | ⟨-, hne⟩
        · rfl
        · exact absurd (hholds'.same.symm.trans (hcc ▸ hholds.same)) hne
      · rw [if_neg, List.append_nil]
        · rcases ht' with ⟨old, hold, hoid, rfl⟩ | ⟨ht', -⟩
          · exact absurd (hlife.holder_eq hholds hc' (hholds'.same.trans hoid)) hcc
          · exact hsum c' t' ⟨hc', ht', hholds'.same⟩
        · intro heq
          exact hcc (hwf.claim_eq hc' hholds.claim (Option.some.inj heq).symm)
  | event c t beat entry eventType hcall htype hholds hstate hentry htasks hclaims haudit hauthor =>
      intro c' t' hholds'
      obtain ⟨claimId, timestamp, payload, sig, rfl⟩ := hcall
      obtain ⟨old, hold, hid, hsame⟩ := mem_beat hclaims hholds'.claim
      have hbefore := hsum old t' ⟨hold, htasks ▸ hholds'.task, hsame.trans hholds'.same⟩
      rw [hid] at hbefore
      rw [entriesOf_concat haudit]
      split
      · rw [List.foldl_append, hbefore, List.foldl_cons, List.foldl_nil,
          hfollows.event _ _ _ _ _ _ entry hok htype]
      · rw [List.append_nil, hbefore]
  | unrecorded c t p name hholds hmove hname hcall htasks hclaims haudit =>
      cases (hfollows.sent call hok).symm.trans hcall
  | unheard c t beat hcall hholds hstate htasks hclaims haudit =>
      cases (hfollows.sent call hok).symm.trans hcall

/-- A summary that follows the moves is right in every state that admissible calls reach. -/
theorem reach_summary (hfollows : Follows f s₀ abs Ok env) (workers : List WcpWorker)
    {calls : List Call} (hok : ∀ call ∈ calls, Ok call) :
    (reach env workers calls).db.Filed env ∧
      (reach env workers calls).db.Summarised f s₀ abs := by
  obtain ⟨-, -, hfiled, hsum⟩ := @run_changes_invariant env
    (fun db => db.Lifecycle env ∧ db.Filed env ∧ db.Summarised f s₀ abs) Ok
    (fun call db db' hcall hwf hchange hinv =>
      ⟨hchange.lifecycle hwf hinv.1, hchange.filed hinv.2.1,
        hchange.summarised hfollows hcall hwf hinv.1 hinv.2.1 hinv.2.2⟩)
    (initial workers) calls (initial_wellFormed workers)
    ⟨initial_lifecycle env workers,
      ⟨fun _ h => absurd h List.not_mem_nil, fun _ h => absurd h List.not_mem_nil⟩,
      fun _ _ h => absurd h.claim List.not_mem_nil⟩ hok
  exact ⟨hfiled, hsum⟩

end Summary

/-! ## Append only -/

theorem Change.audit_prefix (h : Change env call db db') : db.audit <+: db'.audit := by
  cases h with
  | quiet htasks hclaims haudit => exact haudit ▸ List.prefix_rfl
  | posted _ _ _ _ _ _ _ _ haudit _ => exact haudit ▸ List.prefix_append _ _
  | claimed _ _ _ _ _ _ _ _ _ _ _ _ _ _ haudit _ => exact haudit ▸ List.prefix_append _ _
  | moved _ _ _ _ _ _ _ _ _ _ _ _ haudit _ => exact haudit ▸ List.prefix_append _ _
  | event _ _ _ _ _ _ _ _ _ _ _ _ haudit _ => exact haudit ▸ List.prefix_append _ _
  | unrecorded _ _ _ _ _ _ _ _ _ _ haudit => exact haudit ▸ List.prefix_rfl
  | unheard _ _ _ _ _ _ _ _ haudit => exact haudit ▸ List.prefix_rfl

theorem run_audit_prefix (env : Env) {w : World} (hwf : w.db.WellFormed) (later : List Call) :
    w.db.audit <+: (run (step env) w later).db.audit :=
  (@run_changes_invariant env (fun db => w.db.audit <+: db.audit) (fun _ => True)
    (fun _ _ _ _ _ hchange hinv => hinv.trans hchange.audit_prefix)
    w later hwf List.prefix_rfl fun _ _ => trivial).2

/-! ## Replaying a journal -/

/-- The event names that the coordinator gives its own entries. -/
def coordinatorEvents : List String := ["task_claimed", "execution_started", "heartbeat_timeout",
  "supervision_handoff", "attestation_attempt", "recheck_requested", "task_completed",
  "task_voided", "task_aborted"]

/-- Whether a call is an event of a worker under one of some names. -/
def Call.usesEvent (names : List String) : Call → Bool
  | .executeEvent _ eventType _ _ _ => decide (eventType ∈ names.map Json.str)
  | _ => false

theorem eventType_notMem {names : List String} (hnames : ∀ n ∈ names, '_' ∈ n.toList)
    {claimId eventType timestamp payload sig : Json} {stored : String}
    (hok : (Call.executeEvent claimId eventType timestamp payload sig).usesEvent names = false)
    (hbind : env.bindColumn eventType = some stored) : stored ∉ names := by
  intro hmem
  have hstr := bindText_underscore (bindColumn_eq_some hbind).2 (hnames stored hmem)
  simp only [Call.usesEvent, decide_eq_false_iff_not] at hok
  exact hok (List.mem_map.2 ⟨stored, hmem, hstr.symm⟩)

theorem replay_follows (env : Env) (p₀ : Progress) :
    Follows replayEntry p₀ id (fun call => call.usesEvent coordinatorEvents = false ∧
      env.unsent call.claimId = false) env where
  claimed e he := by rw [replayEntry, if_pos he]; rfl
  moved limit p q e _ hreplay _ := hreplay
  event claimId eventType timestamp payload sig p e hok hbind := by
    have hnot := eventType_notMem (by decide +kernel) hok.1 hbind
    simp only [coordinatorEvents, List.mem_cons, List.not_mem_nil, or_false, not_or] at hnot
    simp [replayEntry, hnot]
  sent call hok := hok.2

/-- As long as no worker uses the coordinator's event names and no call names its claim by a
value that cannot be queried for, replaying the entries of a claim gives the progress of its
task; and whatever is called, no entry is altered or removed. -/
theorem reach_replays (env : Env) (workers : List WcpWorker) (calls : List Call)
    (hcalls : ∀ call ∈ calls, call.usesEvent coordinatorEvents = false ∧
      env.unsent call.claimId = false) :
    (∀ c ∈ (reach env workers calls).db.claims, ∃ t,
      (reach env workers calls).db.findTask c.taskId = some t ∧
      ∀ p, ((reach env workers calls).db.entriesOf c.claimId).foldl replayEntry p =
        ⟨t.state, t.attestationAttemptsUsed⟩) ∧
    ∀ before later : List Call,
      (reach env workers before).db.audit <+: (reach env workers (before ++ later)).db.audit := by
  obtain ⟨hwf, hlife⟩ := reach_lifecycle env workers calls
  refine ⟨?_, ?_⟩
  · intro c hc
    obtain ⟨t, ht, hid⟩ := hlife.tasked c hc
    refine ⟨t, hid ▸ hwf.findTask ht, fun p => ?_⟩
    exact (reach_summary (replay_follows env p) workers hcalls).2 c t ⟨hc, ht, hid.symm⟩
  · intro before later
    unfold reach
    rw [run_append]
    exact run_audit_prefix env (reach_lifecycle env workers before).1 later

theorem reach_replays_completed :
    (reach localEnv [zeroWorker] localCompleted).db.claims ≠ [] ∧
      ∀ c ∈ (reach localEnv [zeroWorker] localCompleted).db.claims, ∃ t,
        (reach localEnv [zeroWorker] localCompleted).db.findTask c.taskId = some t ∧
        ∀ p, ((reach localEnv [zeroWorker] localCompleted).db.entriesOf c.claimId).foldl
          replayEntry p = ⟨t.state, t.attestationAttemptsUsed⟩ := by
  refine ⟨by decide +kernel, ?_⟩
  exact (reach_replays localEnv [zeroWorker] localCompleted (by decide)).1

/-- The task is aborted, and its claim is named by an object. -/
def localUnrecorded : List Call := localStart anySensor ++ [
  .abort (.obj [("claim_id", localClaimId)]) (.str "rain") .null]

/-- The claim is found under the object and the task is aborted, but no entry says so: the
replay ends where the task was before. -/
theorem unrecorded_abort_not_replayed :
    (∀ call ∈ localUnrecorded, call.usesEvent coordinatorEvents = false) ∧
      ∃ c ∈ (reach localEnv [zeroWorker] localUnrecorded).db.claims, ∃ t,
        (reach localEnv [zeroWorker] localUnrecorded).db.findTask c.taskId = some t ∧
        t.state = .aborted ∧
        ((reach localEnv [zeroWorker] localUnrecorded).db.entriesOf c.claimId).foldl
          replayEntry ⟨.claimed, 0⟩ = ⟨.executing, t.attestationAttemptsUsed⟩ := by
  have hcheck : ((reach localEnv [zeroWorker] localUnrecorded).db.claims.any fun c =>
      ((reach localEnv [zeroWorker] localUnrecorded).db.findTask c.taskId).any fun t =>
        decide (t.state = .aborted ∧
          ((reach localEnv [zeroWorker] localUnrecorded).db.entriesOf c.claimId).foldl
            replayEntry ⟨.claimed, 0⟩ = ⟨.executing, t.attestationAttemptsUsed⟩)) = true := by
    decide +kernel
  obtain ⟨c, hc, hcheck⟩ := List.any_eq_true.1 hcheck
  obtain ⟨t, ht, hcheck⟩ := (Option.any_eq_true _ _).1 hcheck
  obtain ⟨hstate, hreplay⟩ := of_decide_eq_true hcheck
  exact ⟨by decide, c, hc, t, ht, hstate, hreplay⟩

/-! ## What the record says about the outcome -/

/-- The event names on which the answer of `observe_audit` reports. -/
def reportedEvents : List String :=
  ["task_completed", "task_voided", "task_aborted", "attestation_attempt"]

/-- How many entries of a type the progress of a task accounts for. -/
def Progress.tally (name : String) (p : Progress) : Nat :=
  if name = "task_completed" then if p.state = .completed then 1 else 0
  else if name = "task_voided" then if p.state = .voided then 1 else 0
  else if name = "task_aborted" then if p.state = .aborted then 1 else 0
  else p.used

/-- Count the entries of a type. -/
def countEvent (name : String) (n : Nat) (e : WcpAudit) : Nat :=
  if e.eventType = name then n + 1 else n

/-- Whether every reported entry carries an object. -/
def checkPayload (ok : Bool) (e : WcpAudit) : Bool :=
  ok && (decide (e.eventType ∉ reportedEvents) || decide (e.payloadJson ≠ .null))

theorem Move.tally {limit : Int} {moved : String} {p q : Progress} (h : Move limit moved p q)
    {name : String} (hname : name ∈ reportedEvents) :
    q.tally name = p.tally name + if moved = name then 1 else 0 := by
  simp only [reportedEvents, List.mem_cons, List.not_mem_nil, or_false] at hname
  cases h with
  | opened hs => rcases hs with rfl | rfl <;> rcases hname with rfl | rfl | rfl | rfl <;> rfl
  | timedOut hs => rcases hs with rfl | rfl <;> rcases hname with rfl | rfl | rfl | rfl <;> rfl
  | handedOver hs => rcases hs with rfl | rfl <;> rcases hname with rfl | rfl | rfl | rfl <;> rfl
  | attempted hs =>
      rcases hs with rfl | rfl | rfl <;> rcases hname with rfl | rfl | rfl | rfl <;> rfl
  | rechecked hused => rcases hname with rfl | rfl | rfl | rfl <;> rfl
  | completed => rcases hname with rfl | rfl | rfl | rfl <;> rfl
  | voided hused => rcases hname with rfl | rfl | rfl | rfl <;> rfl
  | @aborted s used hs =>
      rcases hname with rfl | rfl | rfl | rfl
      all_goals cases s <;> first | rfl | cases hs

/-- The calls that report nothing in the coordinator's place, and do nothing that it cannot
record. -/
def Call.honest (env : Env) (call : Call) : Prop :=
  call.usesEvent reportedEvents = false ∧ env.unsent call.claimId = false

instance (call : Call) : Decidable (call.honest env) :=
  inferInstanceAs (Decidable (_ ∧ _))

theorem count_follows (env : Env) {name : String} (hname : name ∈ reportedEvents) :
    Follows (countEvent name) 0 (Progress.tally name) (Call.honest env) env where
  claimed e he := by
    rw [countEvent, he]
    simp only [reportedEvents, List.mem_cons, List.not_mem_nil, or_false] at hname
    rcases hname with rfl | rfl | rfl | rfl <;> rfl
  moved limit p q e hmove _ _ := by
    rw [hmove.tally hname, countEvent]
    split <;> rfl
  event claimId eventType timestamp payload sig p e hok hbind := by
    have hnot := eventType_notMem (by decide +kernel) hok.1 hbind
    rw [countEvent, if_neg]
    rintro rfl
    exact hnot hname
  sent call hok := hok.2

theorem payload_follows (env : Env) :
    Follows checkPayload true (fun _ => true) (Call.honest env) env where
  claimed e he := by simp [checkPayload, he, reportedEvents]
  moved limit p q e _ _ hpayload := by
    obtain ⟨ms, hms⟩ := hpayload
    simp [checkPayload, hms]
  event claimId eventType timestamp payload sig p e hok hbind := by
    have hnot := eventType_notMem (by decide +kernel) hok.1 hbind
    simp [checkPayload, hnot]
  sent call hok := hok.2

theorem foldl_countEvent (name : String) (es : List WcpAudit) (n : Nat) :
    es.foldl (countEvent name) n = n + es.countP fun e => e.eventType = name := by
  induction es generalizing n with
  | nil => rfl
  | cons e es ih =>
      rw [List.foldl_cons, ih, List.countP_cons, countEvent]
      by_cases he : e.eventType = name
      · simp [he]
        omega
      · simp [he]

theorem foldl_checkPayload {es : List WcpAudit} {ok : Bool}
    (h : es.foldl checkPayload ok = true) :
    ok = true ∧ ∀ e ∈ es, e.eventType ∈ reportedEvents → e.payloadJson ≠ .null := by
  induction es generalizing ok with
  | nil => exact ⟨h, fun e he => absurd he List.not_mem_nil⟩
  | cons e es ih =>
      obtain ⟨hok, hrest⟩ := ih h
      simp only [checkPayload, Bool.and_eq_true, Bool.or_eq_true, decide_eq_true_eq] at hok
      refine ⟨hok.1, ?_⟩
      intro e' he' hreported
      rcases List.mem_cons.1 he' with rfl | he'
      · exact hok.2.resolve_left fun hnot => hnot hreported
      · exact hrest e' he' hreported

/-- The entries that end a task. -/
def terminalEvents : List String := ["task_completed", "task_voided", "task_aborted"]

/-- The answer of `observe_audit` tells the outcome of a task. -/
structure ObservedAudit.Truthful (o : ObservedAudit) (t : WcpTask) : Prop where
  completed : o.taskCompletedPayload ≠ .null ↔ t.state = .completed
  voided : o.taskVoidedPayload ≠ .null ↔ t.state = .voided
  aborted : o.taskAbortedPayload ≠ .null ↔ t.state = .aborted
  once : (o.entries.filter fun e => e.eventType ∈ terminalEvents).length ≤ 1
  attempts : o.attestationAttempts = t.attestationAttemptsUsed

theorem observeAudit_claim {id : String} (query : Nat) (hne : id ≠ "")
    (hbinds : env.bindText (.str id) = some id) :
    observeAudit env query db (.str id) .null =
      .ok (observed (env.ascending query (db.entriesOf id))
        (some (verifyChain env (query + 1) db id))) := by
  have htruthy : (Json.str id).truthy = true := by simpa [Json.truthy] using hne
  unfold observeAudit
  simp only [htruthy, true_or, if_true, comparedText_str hbinds, Exec.ensure]
  rfl

theorem firstPayload_ne_null {rows : List WcpAudit} {name : String}
    (hpayload : ∀ e ∈ rows, e.eventType = name → e.payloadJson ≠ .null) :
    firstPayload rows name ≠ .null ↔ rows.countP (fun e => e.eventType = name) ≠ 0 := by
  unfold firstPayload
  cases hfind : rows.find? fun e => e.eventType = name with
  | none =>
      have hcount : rows.countP (fun e => e.eventType = name) = 0 := by
        rw [List.countP_eq_zero]
        simpa using hfind
      simp [hcount]
  | some e =>
      have hmem := List.mem_of_find?_eq_some hfind
      have htype : e.eventType = name := by simpa using List.find?_some hfind
      have hcount : rows.countP (fun e => e.eventType = name) ≠ 0 := by
        rw [Ne, List.countP_eq_zero]
        exact fun hnone => hnone e hmem (by simpa using htype)
      simpa [hcount] using hpayload e hmem htype

theorem countP_terminal_le (rows : List WcpAudit) :
    (rows.filter fun e => e.eventType ∈ terminalEvents).length ≤
      rows.countP (fun e => e.eventType = "task_completed") +
        rows.countP (fun e => e.eventType = "task_voided") +
        rows.countP (fun e => e.eventType = "task_aborted") := by
  rw [← List.countP_eq_length_filter]
  induction rows with
  | nil => simp
  | cons e rows ih =>
      simp only [List.countP_cons, terminalEvents, List.mem_cons, List.not_mem_nil, or_false,
        decide_eq_true_eq] at ih ⊢
      split_ifs <;> first | omega | tauto

/-- A record whose counts follow the progress of the task tells its outcome. -/
theorem truthful_of_tally {rows : List WcpAudit} {t : WcpTask} {verifyOk : Option Bool}
    (hcount : ∀ name ∈ reportedEvents,
      rows.countP (fun e => e.eventType = name) = t.progress.tally name)
    (hpayload : ∀ e ∈ rows, e.eventType ∈ reportedEvents → e.payloadJson ≠ .null) :
    (observed rows verifyOk).Truthful t := by
  have hshown : ∀ name ∈ reportedEvents,
      firstPayload rows name ≠ .null ↔ t.progress.tally name ≠ 0 := by
    intro name hname
    rw [firstPayload_ne_null fun e he htype => hpayload e he (htype ▸ hname), hcount name hname]
  have hc := hcount "task_completed" (by decide)
  have hv := hcount "task_voided" (by decide)
  have ha := hcount "task_aborted" (by decide)
  have hn := hcount "attestation_attempt" (by decide)
  refine ⟨?_, ?_, ?_, ?_, ?_⟩
  · refine (hshown "task_completed" (by decide)).trans ?_
    by_cases hs : t.state = .completed <;> simp [Progress.tally, WcpTask.progress, hs]
  · refine (hshown "task_voided" (by decide)).trans ?_
    by_cases hs : t.state = .voided <;> simp [Progress.tally, WcpTask.progress, hs]
  · refine (hshown "task_aborted" (by decide)).trans ?_
    by_cases hs : t.state = .aborted <;> simp [Progress.tally, WcpTask.progress, hs]
  · refine (countP_terminal_le rows).trans ?_
    rw [hc, hv, ha]
    cases hs : t.state <;> simp [Progress.tally, WcpTask.progress, hs]
  · refine Eq.trans ?_ hn
    exact List.countP_eq_length_filter.symm

/-- In every run in which no worker reports an outcome or an attempt under the coordinator's
name and no call names its claim by a value that cannot be queried for, the answer of
`observe_audit` for any claim tells the outcome of its task. -/
theorem reach_truthful (env : Env) (workers : List WcpWorker) (calls : List Call)
    (hcalls : ∀ call ∈ calls, call.usesEvent reportedEvents = false ∧
      env.unsent call.claimId = false) (query : Nat)
    (c : WcpClaim) (hc : c ∈ (reach env workers calls).db.claims) :
    ∃ t o, (reach env workers calls).db.findTask c.taskId = some t ∧
      observeAudit env query (reach env workers calls).db (.str c.claimId) .null = .ok o ∧
      o.Truthful t := by
  obtain ⟨hwf, hlife⟩ := reach_lifecycle env workers calls
  obtain ⟨hfiled, hpayload⟩ := reach_summary (payload_follows env) workers hcalls
  obtain ⟨t, ht, hid⟩ := hlife.tasked c hc
  obtain ⟨hne, hbinds⟩ := hfiled.keys c hc
  have hholds : (reach env workers calls).db.Holds c t := ⟨hc, ht, hid.symm⟩
  have hperm := env.ascending_perm query ((reach env workers calls).db.entriesOf c.claimId)
  refine ⟨t, _, hid ▸ hwf.findTask ht, observeAudit_claim query hne hbinds, ?_⟩
  refine truthful_of_tally ?_ ?_
  · intro name hname
    have hsum := (reach_summary (count_follows env hname) workers hcalls).2 c t hholds
    rw [foldl_countEvent, Nat.zero_add] at hsum
    rw [hperm.countP_eq]
    exact hsum
  · intro e he hreported
    exact (foldl_checkPayload (hpayload c t hholds)).2 e (hperm.mem_iff.1 he) hreported

theorem reach_truthful_completed :
    ∃ c ∈ (reach localEnv [zeroWorker] localCompleted).db.claims, ∃ t o,
      (reach localEnv [zeroWorker] localCompleted).db.findTask c.taskId = some t ∧
      observeAudit localEnv 0 (reach localEnv [zeroWorker] localCompleted).db (.str c.claimId)
        .null = .ok o ∧ o.Truthful t := by
  have hne : (reach localEnv [zeroWorker] localCompleted).db.claims ≠ [] := by decide +kernel
  obtain ⟨c, hc⟩ := List.exists_mem_of_ne_nil _ hne
  exact ⟨c, hc, reach_truthful localEnv [zeroWorker] localCompleted (by decide) 0 c hc⟩

/-- A worker reports the completion of its own task: the task is still executing, and the
record shows it as completed. -/
def localForged : List Call := localStart anySensor ++ [
  .executeEvent localClaimId (.str "task_completed") localDate (.obj []) zeroSig]

theorem forged_completion_untruthful :
    ∃ c ∈ (reach localEnv [zeroWorker] localForged).db.claims, ∃ t o,
      (reach localEnv [zeroWorker] localForged).db.findTask c.taskId = some t ∧
      observeAudit localEnv 0 (reach localEnv [zeroWorker] localForged).db (.str c.claimId)
        .null = .ok o ∧ ¬o.Truthful t := by
  have hcheck : ((reach localEnv [zeroWorker] localForged).db.claims.any fun c =>
      ((reach localEnv [zeroWorker] localForged).db.findTask c.taskId).any fun t =>
        match observeAudit localEnv 0 (reach localEnv [zeroWorker] localForged).db
          (.str c.claimId) .null with
        | .ok o => decide (t.state = .executing ∧ o.taskCompletedPayload ≠ .null)
        | .error _ => false) = true := by decide +kernel
  obtain ⟨c, hc, hcheck⟩ := List.any_eq_true.1 hcheck
  obtain ⟨t, ht, hcheck⟩ := (Option.any_eq_true _ _).1 hcheck
  refine ⟨c, hc, t, ?_⟩
  split at hcheck
  · next o ho =>
      obtain ⟨hstate, hshown⟩ := of_decide_eq_true hcheck
      refine ⟨o, ht, ho, fun htruthful => ?_⟩
      rw [htruthful.completed.1 hshown] at hstate
      cases hstate
  · cases hcheck

end Wcp.Coordinator
