import Wcp.Coordinator.Heartbeats
/-!
# Reviews

A review leaves the task in `attesting`.  Every call but `abort` asks for another state of
its task, so a task under review stays as it is until it is aborted
(`review_unresolvable`).
-/

namespace Wcp.Coordinator

open Wcp.Base
open Wcp.Base.Exec

variable {env : Env} {w : World} {α : Type} {id : String} {t : WcpTask}

/-! ## The row of one task -/

/-- An action that does not touch the row of a task. -/
abbrev LeavesTask (id : String) (m : Action α) : Prop :=
  Leaves (fun w : World => w.db.findTask id) m

theorem readsTask (id : String) : ReadsLifecycle fun w : World => w.db.findTask id := by
  intro w w' htasks _
  show w'.db.tasks.find? _ = w.db.tasks.find? _
  rw [htasks]

theorem findTask_updateTask_ne {db : Db} {other : String} {f : WcpTask → WcpTask}
    (hf : ∀ r, (f r).taskId = r.taskId) (hne : other ≠ id) :
    (db.updateTask other f).findTask id = db.findTask id := by
  have hkept : ∀ r : WcpTask, (if r.taskId = other then f r else r).taskId = r.taskId := by
    intro r
    split
    · exact hf r
    · rfl
  have hpred : ((fun r : WcpTask => decide (r.taskId = id)) ∘
      fun r => if r.taskId = other then f r else r) = fun r => decide (r.taskId = id) := by
    funext r
    simp only [Function.comp_apply, hkept]
  show (db.tasks.map _).find? _ = _
  rw [List.find?_map, hpred]
  show Option.map _ (db.findTask id) = db.findTask id
  cases hfind : db.findTask id with
  | none => rfl
  | some r =>
      rw [Option.map_some, if_neg]
      rw [(findTask_eq_some hfind).2]
      exact fun h => hne h.symm

theorem setState_leavesTask {other : WcpTask} (hne : other.taskId ≠ id) (s : TaskState) :
    LeavesTask id (setState other s) :=
  .write fun _ => findTask_updateTask_ne (fun _ => rfl) hne

theorem ne_of_state {db : Db} {other : WcpTask} (hwf : db.WellFormed) (ht : db.findTask id = some t)
    (hother : other ∈ db.tasks) (hstate : other.state ≠ t.state) : other.taskId ≠ id := by
  obtain ⟨hmem, hid⟩ := findTask_eq_some ht
  intro hsame
  rw [hwf.task_eq hother hmem (hsame.trans hid.symm)] at hstate
  exact hstate rfl

/-! ## Calls that ask for another state -/

/-- The row of a task stays as it was. -/
def Stays (id : String) (t : WcpTask) {α : Type} (_ : Except Err α) (w' : World) : Prop :=
  w'.db.findTask id = some t

theorem LeavesTask.stays {m : Action α} (h : LeavesTask id m) (ht : w.db.findTask id = some t) :
    Ends m w (Stays id t) := (h w).trans ht

theorem executeEvent_leavesTask (claimId eventType timestamp payload sig : Json) :
    LeavesTask id (executeEvent env claimId eventType timestamp payload sig) := by
  refine .bind (.reads _) ?_
  rintro ⟨c, other⟩
  refine .bind (.require _) fun _ => .bind (.lift _) fun _ => .bind ?_ fun _ =>
    .bind ((readsTask id).append _ _ _ _ _) fun _ => .pure _
  unfold recordHeartbeat
  split
  · exact .bind (.lift _) fun _ => .bind (.write fun _ => rfl) fun _ => (readsTask id).flush
  · exact .pure _

theorem promoteStale_leavesTask (cutoff : DateTime) {rows : List (WcpClaim × WcpTask)}
    (hrows : ∀ row ∈ rows, row.2.taskId ≠ id) : LeavesTask id (promoteStale env cutoff rows) := by
  induction rows with
  | nil => exact .pure _
  | cons row rows ih =>
      obtain ⟨hrow, hrest⟩ := List.forall_mem_cons.1 hrows
      obtain ⟨c, other⟩ := row
      unfold promoteStale
      cases c.lastHeartbeatAt with
      | none => exact ih hrest
      | some hb =>
          refine .bind (.lift _) fun stale => ?_
          cases stale with
          | false => exact ih hrest
          | true =>
              exact .bind (setState_leavesTask hrow _) fun _ =>
                .bind ((readsTask id).append _ _ _ _ _) fun _ => .bind (ih hrest) fun _ => .pure _

theorem routeDecision_leavesTask {other : WcpTask} (hne : other.taskId ≠ id) (claimId : Json)
    (attempt : Nat) (remaining : Int) (accountingRef : Json) (aggregate : VerificationOutcome) :
    LeavesTask id (routeDecision env other claimId attempt remaining accountingRef aggregate) := by
  have hmove (state : TaskState) (name : String) (payload : Json) : LeavesTask id (do
      setState other state
      let _ ← append env (.str name) coordinatorDid payload claimId (.str other.taskId) none) :=
    .bind (setState_leavesTask hne _) fun _ =>
      .bind ((readsTask id).append _ _ _ _ _) fun _ => .pure _
  unfold routeDecision
  split
  · exact hmove _ _ _
  · split
    · exact hmove _ _ _
    · exact hmove _ _ _
  · exact .pure _

theorem claimWrite_leavesTask {other : WcpTask} (hne : other.taskId ≠ id) (worker : WcpWorker)
    (eta : DateTime) (acceptance bid : Json) (now : DateTime) (claimId : String) :
    LeavesTask id (claimWrite env other worker eta acceptance bid now claimId) := by
  intro w
  unfold claimWrite
  split
  · rfl
  · split
    · rfl
    · exact findTask_updateTask_ne (fun _ => rfl) hne

section Attesting

variable (hwf : w.db.WellFormed) (ht : w.db.findTask id = some t) (hstate : t.state = .attesting)

include hwf ht hstate

theorem executeOpen_stays (claimId : Json) : Ends (executeOpen env claimId) w (Stays id t) := by
  refine readDb_bind ?_ fun _ _ => ht
  rintro ⟨c, other⟩ hct
  refine Ends.require_bind ?_ fun _ => ht
  intro hopen
  have hne : other.taskId ≠ id := ne_of_state hwf ht (claimAndTask_holds hct).1.task (by
    rcases hopen with h | h <;> simp [h, hstate])
  exact LeavesTask.stays (.bind (readsTask id).uuid4 fun sessionId =>
    .bind ((readsTask id).insertSession sessionId claimId) fun _ =>
    .bind (setState_leavesTask hne _) fun _ =>
    .bind (readsTask id).flush fun _ => .bind ((readsTask id).append _ _ _ _ _) fun _ => .pure _) ht

theorem checkHeartbeats_stays (now : Option DateTime) :
    Ends (checkHeartbeats env now) w (Stays id t) := by
  have hrest : ∀ (at' : DateTime) (w' : World), w'.db = w.db → Ends (do
      let cutoff ← Exec.lift (at'.minus (heartbeatSeconds * missedHeartbeats * 1000000))
      let staleRows ← readDb fun db => Except.ok db.executingRows
      promoteStale env cutoff staleRows) w' (Stays id t) := by
    intro at' w' hdb
    rw [← hdb] at hwf ht
    refine Ends.lift_bind ?_ fun _ _ => ht
    intro cutoff _
    refine readDb_bind ?_ fun _ _ => ht
    intro rows hrows
    cases hrows
    refine LeavesTask.stays (promoteStale_leavesTask cutoff fun row hrow => ?_) ht
    obtain ⟨other, hholds, hid, hpending⟩ := executingRows_pending hrow
    rw [← hid]
    refine ne_of_state hwf ht hholds.task ?_
    rcases hpending with h | h <;> simp [h, hstate]
  unfold checkHeartbeats
  cases now with
  | none => exact utcnow_bind (hrest _ _ rfl)
  | some at' => exact hrest at' w rfl

theorem attest_stays (claimId attestations : Json) :
    Ends (attest env claimId attestations) w (Stays id t) := by
  refine readDb_bind ?_ fun _ _ => ht
  rintro ⟨c, other⟩ hct
  refine Ends.lift_bind ?_ fun _ _ => ht
  intro _ hopen
  have hne : other.taskId ≠ id := ne_of_state hwf ht (claimAndTask_holds hct).1.task (by
    rcases attestCheckState_eq_ok hopen with h | h | h <;> simp [h, hstate])
  exact LeavesTask.stays (.bind (.lift _) fun req => .bind (.lift _) fun taskPayload =>
    .bind (.lift _) fun limit => .bind (.lift _) fun resolved => .bind (.lift _) fun items =>
    .bind ((readsTask id).collectEvidence _ _ _ _ _) fun outcomes =>
    .bind (.lift _) fun aggregate =>
    .bind (.write fun _ => findTask_updateTask_ne (fun _ => rfl) hne) fun _ =>
    .bind ((readsTask id).append _ _ _ _ _) fun _ => .bind (.lift _) fun accountingRef =>
    .bind (routeDecision_leavesTask hne _ _ _ _ _) fun _ => .bind (readsTask id).flush fun _ =>
    .pure _) ht

theorem supervise_stays (claimId handoffReason urgency : Json) :
    Ends (supervise env claimId handoffReason urgency) w (Stays id t) := by
  refine readDb_bind ?_ fun _ _ => ht
  rintro ⟨c, other⟩ hct
  refine Ends.require_bind ?_ fun _ => ht
  intro hopen
  have hne : other.taskId ≠ id := ne_of_state hwf ht (claimAndTask_holds hct).1.task (by
    rcases hopen with h | h <;> simp [h, hstate])
  exact LeavesTask.stays (.bind (setState_leavesTask hne _) fun _ =>
    .bind (readsTask id).flush fun _ => .bind (readsTask id).uuid4 fun sessionKey =>
    .bind ((readsTask id).append _ _ _ _ _) fun _ => .pure _) ht

theorem claim_stays (taskId workerId eta acceptance bid : Json) :
    Ends (claim env taskId workerId eta acceptance bid) w (Stays id t) := by
  refine readDb_bind ?_ fun _ _ => ht
  intro other hload
  obtain ⟨-, hmem, hposted⟩ := claimLoadTask_eq_ok hload
  have hne : other.taskId ≠ id := ne_of_state hwf ht hmem (by simp [hposted, hstate])
  exact LeavesTask.stays (.bind (readsTask id).utcnow fun now => .bind (.lift _) fun _ =>
    .bind (.reads _) fun worker => .bind (.lift _) fun resolved => .bind (.reads _) fun _ =>
    .bind (.lift _) fun etaTime => .bind (readsTask id).utcnow fun heartbeat =>
    .bind (readsTask id).uuid4 fun claimId => .bind (claimWrite_leavesTask hne _ _ _ _ _ _) fun _ =>
    .bind ((readsTask id).append _ _ _ _ _) fun _ => .pure _) ht

end Attesting

theorem post_stays (ht : w.db.findTask id = some t) (task expiry informational : Json) :
    Ends (post env task expiry informational) w (Stays id t) := by
  refine uuid4_bind (Ends.lift_bind ?_ fun _ _ => ht)
  intro plan _
  refine utcnow_bind (insertTask_bind ?_ fun _ => ht)
  intro row _ _ _ _ _
  refine LeavesTask.stays (.bind (.lift _) fun accountingRef =>
    .bind ((readsTask id).append _ _ _ _ _) fun _ => .bind (.reads _) fun _ => .pure _) ?_
  show (w.db.tasks ++ [row]).find? _ = some t
  rw [List.find?_append]
  have hfind : w.db.tasks.find? (fun r => r.taskId = id) = some t := ht
  rw [hfind]
  rfl

/-! ## Reviews -/

def Call.isAbort : Call → Bool
  | .abort _ _ _ => true
  | _ => false

theorem step_attesting (hwf : w.db.WellFormed) (ht : w.db.findTask id = some t)
    (hstate : t.state = .attesting) {call : Call} (hcall : call.isAbort = false) :
    (step env w call).db.findTask id = some t := by
  have hsettle : ∀ {α : Type} {m : Action α}, Ends m w (Stays id t) →
      (w.settle (m w)).db.findTask id = some t :=
    fun h => @settle_db _ w _ (fun db => db.findTask id = some t) ht fun _ _ => h
  cases call with
  | post task expiry informational => exact hsettle (post_stays ht _ _ _)
  | claim taskId workerId eta acceptance bid =>
      exact hsettle (claim_stays hwf ht hstate _ _ _ _ _)
  | executeOpen claimId => exact hsettle (executeOpen_stays hwf ht hstate _)
  | executeEvent claimId eventType timestamp payload sig =>
      exact hsettle ((executeEvent_leavesTask _ _ _ _ _).stays ht)
  | checkHeartbeats now => exact hsettle (checkHeartbeats_stays hwf ht hstate _)
  | attest claimId attestations => exact hsettle (attest_stays hwf ht hstate _ _)
  | supervise claimId handoffReason urgency => exact hsettle (supervise_stays hwf ht hstate _ _ _)
  | abort claimId reason stateSnapshot => cases hcall
  | upsertCapabilities workerId capabilities principalId ttlSeconds =>
      exact hsettle (LeavesTask.stays ((readsTask id).upsertCapabilities _ _ _ _) ht)
  | createSubscription agentDid filterDict sinceRevision =>
      exact hsettle (LeavesTask.stays ((readsTask id).createSubscription _ _ _) ht)

/-- A call other than `abort` succeeds and moves the task to another state. -/
def Resolvable (env : Env) (w : World) (id : String) : Prop :=
  ∃ call : Call, call.isAbort = false ∧ (∃ answer, (serviceMethod env call w).1 = .ok answer) ∧
    ∃ t t', w.db.findTask id = some t ∧ (step env w call).db.findTask id = some t' ∧
      t'.state ≠ t.state

theorem not_resolvable (hwf : w.db.WellFormed) (ht : w.db.findTask id = some t)
    (hstate : t.state = .attesting) : ¬ Resolvable env w id := by
  rintro ⟨call, hcall, -, before, after, hbefore, hafter, hmoved⟩
  rw [step_attesting hwf ht hstate hcall] at hafter
  rw [ht] at hbefore
  cases hbefore
  cases hafter
  exact hmoved rfl

/-- From a review on no sequence of calls without `abort` leads anywhere. -/
theorem reach_attesting {workers : List WcpWorker} {calls later : List Call}
    (ht : (reach env workers calls).db.findTask id = some t) (hstate : t.state = .attesting)
    (hlater : ∀ call ∈ later, call.isAbort = false) :
    (reach env workers (calls ++ later)).db.findTask id = some t := by
  have hrun : (reach env workers (calls ++ later)).db.WellFormed ∧
      (reach env workers (calls ++ later)).db.findTask id = some t := by
    rw [reach, run_append]
    refine @run_invariant _ _ (step env)
      (fun w : World => w.db.WellFormed ∧ w.db.findTask id = some t)
      (fun call => call.isAbort = false)
      ?_ _ later ⟨reach_wellFormed env workers calls, ht⟩ hlater
    intro w call h hcall
    exact ⟨(step_changes env h.1 call).wellFormed h.1, step_attesting h.1 h.2 hstate hcall⟩
  exact hrun.2

/-- A task under review is a dead end: no call but `abort` moves it, nor does any after others. -/
theorem review_unresolvable (env : Env) (workers : List WcpWorker) (calls later : List Call)
    (id : String) (t : WcpTask) (ht : (reach env workers calls).db.findTask id = some t)
    (hstate : t.state = .attesting) (hlater : ∀ call ∈ later, call.isAbort = false) :
    ¬ Resolvable env (reach env workers (calls ++ later)) id :=
  not_resolvable (reach_wellFormed env workers _) (reach_attesting ht hstate hlater) hstate

/-- A photo without a date, which is left to a review. -/
def undatedPhoto : Json :=
  localEvidence "sensor-witness" "photo_with_exif"
    [("photo_hash", .str "h"), ("exif", .obj [("camera", .str "c")])]

/-- Post, claim and execute a task, and attest it with an undated photo. -/
def localReviewed : List Call :=
  localStart anySensor ++ [.attest localClaimId (.arr [undatedPhoto])]

theorem localReviewed_attesting :
    ∃ t, (reach localEnv [zeroWorker] localReviewed).db.findTask "t1" = some t ∧
      t.state = .attesting := by
  have hcheck : ((reach localEnv [zeroWorker] localReviewed).db.findTask "t1").map (·.state) =
      some .attesting := by decide +kernel
  obtain ⟨t, ht, hstate⟩ := Option.map_eq_some_iff.1 hcheck
  exact ⟨t, ht, hstate⟩

/-- Another attempt after the review. -/
theorem review_unresolvable_retry :
    ¬ Resolvable localEnv (reach localEnv [zeroWorker]
      (localReviewed ++ [.attest localClaimId (.arr [coverageEvidence])])) "t1" := by
  obtain ⟨t, ht, hstate⟩ := localReviewed_attesting
  exact review_unresolvable localEnv [zeroWorker] localReviewed _ "t1" t ht hstate
    (List.forall_mem_singleton.2 rfl)

/-- The attestation returns a review, and the task cannot leave it. -/
theorem undated_photo_stuck :
    ((attest localEnv localClaimId (.arr [undatedPhoto])
        (reach localEnv [zeroWorker] (localStart anySensor))).1.toOption.map
          (·.verifierDecision)) = some .review ∧
      ((reach localEnv [zeroWorker] localReviewed).db.findTask "t1").map (·.state) =
        some .attesting ∧
      ¬ Resolvable localEnv (reach localEnv [zeroWorker] localReviewed) "t1" := by
  refine ⟨by decide +kernel, by decide +kernel, ?_⟩
  obtain ⟨t, ht, hstate⟩ := localReviewed_attesting
  exact not_resolvable (reach_wellFormed localEnv [zeroWorker] _) ht hstate

end Wcp.Coordinator
