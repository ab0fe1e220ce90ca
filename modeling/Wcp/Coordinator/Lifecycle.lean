import Wcp.Coordinator.LocalEnvironment
import Wcp.Coordinator.Operations
/-!
# The lifecycle invariant

State, attempt counter and claims of a task move together: a task is posted
exactly as long as nobody has claimed it, it has one claim afterwards, and its
state bounds the attempts it has used.  A terminal task never changes again.
-/

namespace Wcp.Coordinator

open Wcp.Base

variable {env : Env} {call : Call} {db db' : Db}

/-! ## Attempts -/

/-- The attempts that a state admits, for a task that allows `limit` of them. -/
def Progress.Within (limit : Int) (p : Progress) : Prop :=
  match p.state with
  | .posted | .claimed | .executing | .supervising => p.used = 0
  | .rechecking => 1 ≤ p.used ∧ p.used < limit
  | .attesting | .completed => 1 ≤ p.used ∧ p.used ≤ max 1 limit
  | .voided => p.used = max 1 limit
  | .aborted => p.used ≤ max 1 limit

theorem Progress.Within.le {limit : Int} {p : Progress} (h : p.Within limit) :
    p.used ≤ max 1 limit := by
  obtain ⟨s, used⟩ := p
  cases s <;> simp only [Within] at h ⊢ <;> omega

/-- Every move keeps the attempts within what its state admits.  A recheck is requested only
below the limit and is left only by another attempt, so the counter never passes it. -/
theorem Move.within {limit : Int} {name : String} {p q : Progress} (h : Move limit name p q)
    (hp : p.Within limit) : q.Within limit := by
  cases h with
  | opened hs =>
      rcases hs with rfl | rfl
      · exact hp
      · exact hp
  | timedOut hs =>
      rcases hs with rfl | rfl
      · exact hp
      · exact hp
  | handedOver hs =>
      rcases hs with rfl | rfl
      · exact hp
      · exact hp
  | attempted hs =>
      rcases hs with rfl | rfl | rfl
      · simp only [Progress.Within] at hp ⊢
        omega
      · simp only [Progress.Within] at hp ⊢
        omega
      · simp only [Progress.Within] at hp ⊢
        omega
  | rechecked hused =>
      simp only [Progress.Within] at hp ⊢
      omega
  | completed => exact hp
  | voided hused =>
      simp only [Progress.Within] at hp ⊢
      omega
  | aborted hs => exact hp.le

theorem Move.ne_posted {limit : Int} {name : String} {p q : Progress} (h : Move limit name p q) :
    q.state ≠ .posted := by
  cases h with
  | handedOver hs => exact (by unfold supervisedState; split <;> simp)
  | _ => simp

theorem Move.not_terminal {limit : Int} {name : String} {p q : Progress}
    (h : Move limit name p q) : p.state.isTerminal = false := by
  cases h with
  | opened hs => rcases hs with rfl | rfl <;> rfl
  | timedOut hs => rcases hs with rfl | rfl <;> rfl
  | handedOver hs => rcases hs with rfl | rfl <;> rfl
  | attempted hs => rcases hs with rfl | rfl | rfl <;> rfl
  | aborted hs => exact hs
  | _ => rfl

/-! ## Claims on a task -/

def Db.claimsOn (db : Db) (taskId : String) : List WcpClaim :=
  db.claims.filter fun c => c.taskId = taskId

theorem mem_claimsOn {taskId : String} {c : WcpClaim} :
    c ∈ db.claimsOn taskId ↔ c ∈ db.claims ∧ c.taskId = taskId := by
  simp [Db.claimsOn]

theorem claimsOn_of_claims (h : db'.claims = db.claims) (taskId : String) :
    db'.claimsOn taskId = db.claimsOn taskId := by
  unfold Db.claimsOn
  rw [h]

theorem claimsOn_concat {c : WcpClaim} (h : db'.claims = db.claims ++ [c]) (taskId : String) :
    db'.claimsOn taskId =
      db.claimsOn taskId ++ if c.taskId = taskId then [c] else [] := by
  unfold Db.claimsOn
  rw [h, List.filter_append]
  by_cases hid : c.taskId = taskId <;> simp [hid]

theorem claimsOn_beat {id : String} {beat : Option DateTime → Option DateTime}
    (h : db'.claims = (db.updateClaim id fun r =>
      { r with lastHeartbeatAt := beat r.lastHeartbeatAt }).claims) (taskId : String) :
    db'.claimsOn taskId = (db.claimsOn taskId).map fun c =>
      if c.claimId = id then { c with lastHeartbeatAt := beat c.lastHeartbeatAt } else c := by
  unfold Db.claimsOn
  rw [h, Db.updateClaim, List.filter_map]
  congr 1
  refine List.filter_congr fun c _ => ?_
  by_cases hid : c.claimId = id <;> simp [hid]

/-! ## The invariant -/

/-- A posted task is unclaimed; any other has one claim, which is accepted. -/
def Db.ClaimedOnce (db : Db) (t : WcpTask) : Prop :=
  if t.state = .posted then db.claimsOn t.taskId = []
  else ∃ c, db.claimsOn t.taskId = [c] ∧ c.accepted = true

/-- The joint invariant of tasks and claims. -/
structure Db.Lifecycle (env : Env) (db : Db) : Prop where
  /-- Every claim is on a task of the table. -/
  tasked : ∀ c ∈ db.claims, ∃ t ∈ db.tasks, t.taskId = c.taskId
  claimed : ∀ t ∈ db.tasks, db.ClaimedOnce t
  within : ∀ t ∈ db.tasks, t.progress.Within (t.attemptLimit env)

theorem Db.ClaimedOnce.congr {t t' : WcpTask} (h : db.ClaimedOnce t)
    (hclaims : db'.claimsOn t.taskId = db.claimsOn t.taskId) (hid : t'.taskId = t.taskId)
    (hstate : t'.state = .posted ↔ t.state = .posted) : db'.ClaimedOnce t' := by
  unfold Db.ClaimedOnce at h ⊢
  rw [hid, hclaims]
  simpa only [hstate] using h

/-- Every task that a progress leaves behind is an old one, at the new progress or as it was. -/
theorem forall_progressed {id : String} {p : Progress} {Q : WcpTask → Prop}
    (hat : ∀ t ∈ db.tasks, t.taskId = id → Q (t.withProgress p))
    (hother : ∀ t ∈ db.tasks, t.taskId ≠ id → Q t) : ∀ t ∈ db.progressed id p, Q t := by
  intro t ht
  rcases mem_progressed.1 ht with ⟨old, hold, hid, rfl⟩ | ⟨ht, hid⟩
  · exact hat old hold hid
  · exact hother t ht hid

theorem exists_progressed {id taskId : String} {p : Progress}
    (h : ∃ t ∈ db.tasks, t.taskId = taskId) : ∃ t ∈ db.progressed id p, t.taskId = taskId := by
  have hids : taskId ∈ (db.progressed id p).map (·.taskId) := by
    rw [map_taskId_progressed]
    exact List.mem_map.2 h
  exact List.mem_map.1 hids

namespace Db.Lifecycle

variable (hinv : db.Lifecycle env)

include hinv

theorem posted {row : WcpTask} (hprogress : row.progress = ⟨.posted, 0⟩)
    (hfresh : db.findTask row.taskId = none) (htasks : db'.tasks = db.tasks ++ [row])
    (hclaims : db'.claims = db.claims) : db'.Lifecycle env := by
  have hstate : row.state = .posted := congrArg Progress.state hprogress
  have hnone : db'.claimsOn row.taskId = [] := by
    rw [claimsOn_of_claims hclaims, List.eq_nil_iff_forall_not_mem]
    intro c hc
    obtain ⟨hc, hid⟩ := mem_claimsOn.1 hc
    obtain ⟨t, ht, htid⟩ := hinv.tasked c hc
    exact findTask_eq_none hfresh t ht (htid.trans hid)
  refine ⟨?_, ?_, ?_⟩
  · intro c hc
    obtain ⟨t, ht, htid⟩ := hinv.tasked c (hclaims ▸ hc)
    exact ⟨t, htasks ▸ List.mem_append_left _ ht, htid⟩
  · rw [htasks, List.forall_mem_append, List.forall_mem_singleton]
    refine ⟨?_, ?_⟩
    · exact fun t ht => (hinv.claimed t ht).congr (claimsOn_of_claims hclaims _) rfl Iff.rfl
    · unfold Db.ClaimedOnce
      rw [if_pos hstate]
      exact hnone
  · rw [htasks, List.forall_mem_append, List.forall_mem_singleton]
    refine ⟨hinv.within, ?_⟩
    rw [hprogress]
    rfl

theorem claim {t : WcpTask} {c : WcpClaim} (ht : t ∈ db.tasks) (hposted : t.state = .posted)
    (hsame : c.taskId = t.taskId) (haccepted : c.accepted = true)
    (htasks : db'.tasks = db.progressed t.taskId ⟨.claimed, t.attestationAttemptsUsed⟩)
    (hclaims : db'.claims = db.claims ++ [c]) : db'.Lifecycle env := by
  have hnone : db.claimsOn t.taskId = [] := by
    have hclaimed := hinv.claimed t ht
    unfold Db.ClaimedOnce at hclaimed
    rwa [if_pos hposted] at hclaimed
  have hused : t.attestationAttemptsUsed = 0 := by
    have hwithin := hinv.within t ht
    simpa only [Progress.Within, WcpTask.progress, hposted] using hwithin
  refine ⟨?_, ?_, ?_⟩
  · rw [htasks, hclaims, List.forall_mem_append, List.forall_mem_singleton]
    exact ⟨fun c' hc' => exists_progressed (hinv.tasked c' hc'),
      exists_progressed ⟨t, ht, hsame.symm⟩⟩
  · rw [htasks]
    refine forall_progressed ?_ ?_
    · intro old hold holdid
      unfold Db.ClaimedOnce
      rw [if_neg (by simp [WcpTask.withProgress])]
      refine ⟨c, ?_, haccepted⟩
      rw [claimsOn_concat hclaims, WcpTask.withProgress_taskId, holdid, hnone, if_pos hsame,
        List.nil_append]
    · intro t' ht' hne
      refine (hinv.claimed t' ht').congr ?_ rfl Iff.rfl
      rw [claimsOn_concat hclaims, if_neg (fun h => hne (h.symm.trans hsame)), List.append_nil]
  · rw [htasks]
    refine forall_progressed ?_ fun t' ht' _ => hinv.within t' ht'
    exact fun _ _ _ => hused

theorem ne_posted {c : WcpClaim} {t : WcpTask} (hholds : db.Holds c t) : t.state ≠ .posted := by
  intro hposted
  have hclaimed := hinv.claimed t hholds.task
  unfold Db.ClaimedOnce at hclaimed
  rw [if_pos hposted] at hclaimed
  have hmem := mem_claimsOn.2 ⟨hholds.claim, hholds.same⟩
  rw [hclaimed] at hmem
  cases hmem

theorem move {c : WcpClaim} {t : WcpTask} {p : Progress} {name : String} (hwf : db.WellFormed)
    (hholds : db.Holds c t) (hmove : Move (t.attemptLimit env) name t.progress p)
    (htasks : db'.tasks = db.progressed t.taskId p) (hclaims : db'.claims = db.claims) :
    db'.Lifecycle env := by
  have hstate := hinv.ne_posted hholds
  refine ⟨?_, ?_, ?_⟩
  · intro c' hc'
    rw [htasks]
    exact exists_progressed (hinv.tasked c' (hclaims ▸ hc'))
  · rw [htasks]
    refine forall_progressed ?_ ?_
    · intro old hold holdid
      obtain rfl := hwf.task_eq hold hholds.task holdid
      refine (hinv.claimed old hold).congr (claimsOn_of_claims hclaims _) rfl ?_
      simp [WcpTask.withProgress, hmove.ne_posted, hstate]
    · intro t' ht' _
      exact (hinv.claimed t' ht').congr (claimsOn_of_claims hclaims _) rfl Iff.rfl
  · rw [htasks]
    refine forall_progressed ?_ fun t' ht' _ => hinv.within t' ht'
    intro old hold holdid
    obtain rfl := hwf.task_eq hold hholds.task holdid
    rw [WcpTask.withProgress_progress]
    exact hmove.within (hinv.within old hold)

theorem beat {id : String} {beat : Option DateTime → Option DateTime}
    (htasks : db'.tasks = db.tasks) (hclaims : db'.claims = (db.updateClaim id fun r =>
      { r with lastHeartbeatAt := beat r.lastHeartbeatAt }).claims) : db'.Lifecycle env := by
  have hbeat := claimsOn_beat hclaims
  refine ⟨?_, ?_, ?_⟩
  · intro c' hc'
    have hmem : c' ∈ db'.claimsOn c'.taskId := mem_claimsOn.2 ⟨hc', rfl⟩
    rw [hbeat] at hmem
    obtain ⟨old, hold, -⟩ := List.mem_map.1 hmem
    obtain ⟨hold, hid⟩ := mem_claimsOn.1 hold
    rw [htasks, ← hid]
    exact hinv.tasked old hold
  · rw [htasks]
    intro t' ht'
    have hclaimed := hinv.claimed t' ht'
    unfold Db.ClaimedOnce at hclaimed ⊢
    rw [hbeat]
    split at hclaimed
    · next hposted =>
        rw [if_pos hposted, hclaimed, List.map_nil]
    · next hposted =>
        obtain ⟨c', hc', haccepted⟩ := hclaimed
        rw [if_neg hposted, hc', List.map_singleton]
        refine ⟨_, rfl, ?_⟩
        split <;> exact haccepted
  · rw [htasks]
    exact hinv.within

end Db.Lifecycle

theorem Change.lifecycle (h : Change env call db db') (hwf : db.WellFormed)
    (hinv : db.Lifecycle env) : db'.Lifecycle env := by
  cases h with
  | quiet htasks hclaims haudit =>
      refine ⟨?_, ?_, ?_⟩
      · rw [htasks, hclaims]
        exact hinv.tasked
      · rw [htasks]
        exact fun t ht => (hinv.claimed t ht).congr (claimsOn_of_claims hclaims _) rfl Iff.rfl
      · rw [htasks]
        exact hinv.within
  | posted row entry hchecked hprogress hfresh hentry htasks hclaims haudit hauthor =>
      exact hinv.posted hprogress hfresh htasks hclaims
  | claimed t c entry ht hposted hfresh hsame haccepted hid hbinds htype hentry htasks hclaims
      haudit hauthor =>
      exact hinv.claim ht hposted hsame haccepted htasks hclaims
  | moved c t p entry hholds hmove hreplay hpayload hentry hcall htasks hclaims haudit hauthor =>
      exact hinv.move hwf hholds hmove htasks hclaims
  | event c t beat entry eventType hcall htype hholds hstate hentry htasks hclaims haudit hauthor =>
      exact hinv.beat htasks hclaims
  | unrecorded c t p name hholds hmove hname hcall htasks hclaims haudit =>
      exact hinv.move hwf hholds hmove htasks hclaims
  | unheard c t beat hcall hholds hstate htasks hclaims haudit =>
      exact hinv.beat htasks hclaims

theorem initial_lifecycle (env : Env) (workers : List WcpWorker) :
    (initial workers).db.Lifecycle env :=
  ⟨fun _ h => absurd h List.not_mem_nil, fun _ h => absurd h List.not_mem_nil,
    fun _ h => absurd h List.not_mem_nil⟩

theorem reach_lifecycle (env : Env) (workers : List WcpWorker) (calls : List Call) :
    (reach env workers calls).db.WellFormed ∧ (reach env workers calls).db.Lifecycle env :=
  run_changes_invariant (fun _ _ _ _ hwf hchange hinv => hchange.lifecycle hwf hinv)
    (initial_wellFormed workers) (initial_lifecycle env workers) fun _ _ => trivial

/-! ## Terminal tasks -/

/-- A terminal task, as it was, with the claims it had. -/
def Db.KeepsTask (db db' : Db) (t : WcpTask) : Prop :=
  t ∈ db'.tasks ∧ db'.claimsOn t.taskId = db.claimsOn t.taskId

theorem keepsTask_progressed {t : WcpTask} {id : String} {p : Progress} (ht : t ∈ db.tasks)
    (hne : t.taskId ≠ id) (htasks : db'.tasks = db.progressed id p)
    (hclaims : db'.claims = db.claims) : db.KeepsTask db' t := by
  refine ⟨?_, claimsOn_of_claims hclaims _⟩
  rw [htasks, mem_progressed]
  exact .inr ⟨ht, hne⟩

theorem keepsTask_beat {t : WcpTask} {c : WcpClaim} {beat : Option DateTime → Option DateTime}
    (hwf : db.WellFormed) (ht : t ∈ db.tasks) (hc : c ∈ db.claims) (hne : c.taskId ≠ t.taskId)
    (htasks : db'.tasks = db.tasks) (hclaims : db'.claims = (db.updateClaim c.claimId fun r =>
      { r with lastHeartbeatAt := beat r.lastHeartbeatAt }).claims) : db.KeepsTask db' t := by
  refine ⟨htasks ▸ ht, ?_⟩
  rw [claimsOn_beat hclaims]
  conv_rhs => rw [← List.map_id (db.claimsOn t.taskId)]
  refine List.map_congr_left fun c' hc' => ?_
  obtain ⟨hc', hid'⟩ := mem_claimsOn.1 hc'
  rw [if_neg, id]
  intro hid
  exact hne (hwf.claim_eq hc' hc hid ▸ hid')

theorem Change.terminal {t : WcpTask} (h : Change env call db db') (hwf : db.WellFormed)
    (ht : t ∈ db.tasks) (hterminal : t.state.isTerminal = true) : db.KeepsTask db' t := by
  -- a task in another state has another id
  have hother : ∀ t' ∈ db.tasks, t'.state.isTerminal = false → t'.taskId ≠ t.taskId := by
    intro t' ht' hopen hid
    rw [hwf.task_eq ht' ht hid, hterminal] at hopen
    cases hopen
  cases h with
  | quiet htasks hclaims haudit =>
      exact ⟨htasks ▸ ht, claimsOn_of_claims hclaims _⟩
  | posted row entry hchecked hprogress hfresh hentry htasks hclaims haudit hauthor =>
      exact ⟨htasks ▸ List.mem_append_left _ ht, claimsOn_of_claims hclaims _⟩
  | claimed t' c entry ht' hposted hfresh hsame haccepted hid hbinds htype hentry htasks hclaims
      haudit hauthor =>
      have hne := hother t' ht' (by rw [hposted]; rfl)
      refine ⟨?_, ?_⟩
      · rw [htasks, mem_progressed]
        exact .inr ⟨ht, hne.symm⟩
      · rw [claimsOn_concat hclaims, hsame, if_neg hne, List.append_nil]
  | moved c t' p entry hholds hmove hreplay hpayload hentry hcall htasks hclaims haudit hauthor =>
      exact keepsTask_progressed ht (hother t' hholds.task hmove.not_terminal).symm htasks hclaims
  | event c t' beat entry eventType hcall htype hholds hstate hentry htasks hclaims haudit
      hauthor =>
      have hne := hother t' hholds.task (by rw [hstate]; rfl)
      exact keepsTask_beat hwf ht hholds.claim (hholds.same ▸ hne) htasks hclaims
  | unrecorded c t' p name hholds hmove hname hcall htasks hclaims haudit =>
      exact keepsTask_progressed ht (hother t' hholds.task hmove.not_terminal).symm htasks hclaims
  | unheard c t' beat hcall hholds hstate htasks hclaims haudit =>
      have hne := hother t' hholds.task (by rw [hstate]; rfl)
      exact keepsTask_beat hwf ht hholds.claim (hholds.same ▸ hne) htasks hclaims

/-- A terminal task and its claims stay as they are in every later state. -/
theorem run_terminal {w : World} {t : WcpTask} (hwf : w.db.WellFormed) (ht : t ∈ w.db.tasks)
    (hterminal : t.state.isTerminal = true) (later : List Call) :
    (run (step env) w later).db.findTask t.taskId = some t ∧
      (run (step env) w later).db.claimsOn t.taskId = w.db.claimsOn t.taskId := by
  obtain ⟨hwf', ht', hclaims⟩ := @run_changes_invariant env
    (fun db => t ∈ db.tasks ∧ db.claimsOn t.taskId = w.db.claimsOn t.taskId) (fun _ => True)
    (fun call db db' _ hwf hchange hinv => by
      obtain ⟨ht', hclaims⟩ := hchange.terminal hwf hinv.1 hterminal
      exact ⟨ht', hclaims.trans hinv.2⟩)
    w later hwf ⟨ht, rfl⟩ (fun _ _ => trivial)
  exact ⟨hwf'.findTask ht', hclaims⟩

/-! ## The lifecycle over runs -/

/-- What the lifecycle promises about a task. -/
structure LifecycleOf (env : Env) (db : Db) (t : WcpTask) : Prop where
  posted_iff : t.state = .posted ↔ db.claimsOn t.taskId = []
  claimed : t.state ≠ .posted → ∃ c, db.claimsOn t.taskId = [c] ∧ c.accepted = true
  unattested : t.state = .posted ∨ t.state = .claimed ∨ t.state = .executing ∨
    t.state = .supervising → t.attestationAttemptsUsed = 0
  rechecking : t.state = .rechecking → 1 ≤ t.attestationAttemptsUsed ∧
    t.attestationAttemptsUsed < t.attemptLimit env
  attested : t.state = .attesting ∨ t.state = .completed → 1 ≤ t.attestationAttemptsUsed ∧
    t.attestationAttemptsUsed ≤ max 1 (t.attemptLimit env)
  voided : t.state = .voided → t.attestationAttemptsUsed = max 1 (t.attemptLimit env)
  aborted : t.state = .aborted → t.attestationAttemptsUsed ≤ max 1 (t.attemptLimit env)

theorem Db.Lifecycle.of (h : db.Lifecycle env) {t : WcpTask} (ht : t ∈ db.tasks) :
    LifecycleOf env db t := by
  have hclaimed := h.claimed t ht
  have hwithin := h.within t ht
  unfold Db.ClaimedOnce at hclaimed
  simp only [Progress.Within, WcpTask.progress] at hwithin
  refine ⟨?_, ?_, ?_, ?_, ?_, ?_, ?_⟩
  · constructor
    · intro hposted
      rwa [if_pos hposted] at hclaimed
    · intro hnone
      by_contra hposted
      rw [if_neg hposted] at hclaimed
      obtain ⟨c, hc, -⟩ := hclaimed
      rw [hnone] at hc
      cases hc
  · intro hposted
    rwa [if_neg hposted] at hclaimed
  · rintro (hs | hs | hs | hs) <;> simpa only [hs] using hwithin
  · intro hs
    simpa only [hs] using hwithin
  · rintro (hs | hs) <;> simpa only [hs] using hwithin
  · intro hs
    simpa only [hs] using hwithin
  · intro hs
    simpa only [hs] using hwithin

/-- In every state that calls reach, every task keeps the lifecycle, and a terminal task keeps
its row and its claim through every later call. -/
theorem reach_lifecycleOf (env : Env) (workers : List WcpWorker) (calls : List Call) (t : WcpTask)
    (ht : t ∈ (reach env workers calls).db.tasks) :
    LifecycleOf env (reach env workers calls).db t ∧
      (t.state.isTerminal = true → ∀ later : List Call,
        (reach env workers (calls ++ later)).db.findTask t.taskId = some t ∧
        (reach env workers (calls ++ later)).db.claimsOn t.taskId =
          (reach env workers calls).db.claimsOn t.taskId) := by
  obtain ⟨hwf, hinv⟩ := reach_lifecycle env workers calls
  refine ⟨hinv.of ht, ?_⟩
  intro hterminal later
  unfold reach
  rw [run_append]
  exact run_terminal hwf ht hterminal later

theorem reach_lifecycleOf_completed :
    ∃ t ∈ (reach localEnv [zeroWorker] localCompleted).db.tasks, t.state = .completed ∧
      LifecycleOf localEnv (reach localEnv [zeroWorker] localCompleted).db t := by
  have hsome : ((reach localEnv [zeroWorker] localCompleted).db.tasks.find? fun t =>
      t.state = .completed).isSome = true := by decide +kernel
  obtain ⟨t, ht⟩ := Option.isSome_iff_exists.1 hsome
  have hmem := List.mem_of_find?_eq_some ht
  exact ⟨t, hmem, by simpa using List.find?_some ht,
    (reach_lifecycleOf localEnv [zeroWorker] localCompleted t hmem).1⟩

end Wcp.Coordinator
