import Wcp.Coordinator.Persistence
/-!
# When a heartbeat times out

`check_heartbeats` compares its cutoff with `last_heartbeat_at`, which holds what
a worker wrote into its last heartbeat, or the time of the claim.  `Watch` is a run
together with what the coordinator itself saw: when it accepted a heartbeat of a
claim, and when the task of a claim started executing.  The claims that are
promoted are those that have been silent for too long exactly if, for no executing
claim, the cutoff lies between what was written and what was seen
(`promoted_overdue_iff`).
-/

namespace Wcp.Coordinator

open Wcp.Base
open Wcp.Base.Exec

variable {env : Env} {w : World} {α : Type}

/-! ## Calls that leave the claims alone -/

/-- A view of the tasks and the claims. -/
def ReadsLifecycle {γ : Type} (view : World → γ) : Prop :=
  ∀ w w' : World, w'.db.tasks = w.db.tasks → w'.db.claims = w.db.claims → view w' = view w

namespace ReadsLifecycle

variable {γ : Type} {view : World → γ} (h : ReadsLifecycle view)

include h

theorem utcnow : Leaves view (utcnow env) := fun w => h w _ rfl rfl

theorem uuid4 : Leaves view (uuid4 env) := fun w => h w _ rfl rfl

theorem flush : Leaves view flush := by
  intro w
  unfold Coordinator.flush
  split
  · exact h w _ rfl rfl
  · exact h w _ rfl rfl

theorem autoflush (claimId : Json) : Leaves view (autoflush claimId) := by
  unfold Coordinator.autoflush
  split
  · exact h.flush
  · exact .pure _

theorem append (eventType : Json) (actorDid : String) (payload claimId taskId : Json) :
    Leaves view (append env eventType actorDid payload claimId taskId none) := by
  refine .bind h.utcnow fun ts => .bind (.lift _) fun _ => .bind (h.autoflush claimId) fun _ =>
    .bind (.reads _) fun prev => .bind h.uuid4 fun id => ?_
  split
  · exact .bind (.write fun w => h w _ rfl rfl) fun _ => .bind h.flush fun _ => .pure _
  · exact .bind (.write fun w => h w _ rfl rfl) fun _ => .bind h.flush fun _ => .pure _

theorem insertSession (sessionId : String) (claimId : Json) :
    Leaves view (insertSession env sessionId claimId) := by
  unfold Coordinator.insertSession
  split
  · exact .write fun w => h w _ rfl rfl
  · exact .write fun w => h w _ rfl rfl

theorem collectEvidence (c : WcpClaim) (resolved : ResolvedDID) (claimId taskPayload : Json)
    (evs : List Json) : Leaves view (collectEvidence env c resolved claimId taskPayload evs) := by
  induction evs with
  | nil => exact .pure _
  | cons ev evs ih =>
      unfold Coordinator.collectEvidence
      refine .bind (.lift _) fun verdict => ?_
      have hrest : Leaves view
          (Coordinator.collectEvidence env c resolved claimId taskPayload evs >>=
          fun rest => Pure.pure ((verdict.mode, verdict.outcome) :: rest)) :=
        .bind ih fun _ => .pure _
      cases verdict.row with
      | none => exact hrest
      | some row =>
          refine .bind (.bind h.uuid4 fun attestationId => ?_) fun _ => hrest
          split
          · exact .write fun w => h w _ rfl rfl
          · exact .write fun w => h w _ rfl rfl

theorem upsertCapabilities (workerId capabilities principalId ttlSeconds : Json) :
    Leaves view (upsertCapabilities env workerId capabilities principalId ttlSeconds) := by
  refine .bind (.lift _) fun resolved => .bind (.lift _) fun schemaVersion =>
    .bind (.require _) fun _ => .bind (.lift _) fun workerClassStr =>
    .bind (.lift _) fun workerClass => .bind (.reads _) fun existing => .bind h.utcnow
    fun asOf => .bind ?_ fun _ => .pure _
  unfold storeWorker
  split
  · exact .bind (.write fun w => h w _ rfl rfl) fun _ => h.flush
  · exact .write fun w => h w _ rfl rfl
  · exact .bind (.write fun w => h w _ rfl rfl) fun _ => h.flush
  · exact .write fun w => h w _ rfl rfl

theorem createSubscription (agentDid filterDict sinceRevision : Json) :
    Leaves view (createSubscription env agentDid filterDict sinceRevision) := by
  refine .bind (.lift _) fun resolved => .bind h.uuid4 fun subscriptionId => ?_
  split
  · exact .bind (.write fun w => h w _ rfl rfl) fun _ => .bind h.flush fun _ => .pure _
  · exact .bind (.write fun w => h w _ rfl rfl) fun _ => .bind h.flush fun _ => .pure _

end ReadsLifecycle

/-- An action that does not touch the claims. -/
abbrev LeavesClaims (m : Action α) : Prop := Leaves (fun w : World => w.db.claims) m

theorem readsClaims : ReadsLifecycle fun w : World => w.db.claims := fun _ _ _ hclaims => hclaims

theorem setState_leavesClaims (t : WcpTask) (s : TaskState) : LeavesClaims (setState t s) :=
  .write fun _ => rfl

theorem post_leavesClaims (task expiry informational : Json) :
    LeavesClaims (post env task expiry informational) := by
  refine .bind (fun _ => rfl) fun fresh => .bind (.lift _) fun plan => .bind (fun _ => rfl)
    fun postedAt => .bind (fun w => ?_) fun _ => .bind (.lift _) fun accountingRef =>
    .bind (readsClaims.append _ _ _ _ _) fun _ => .bind (.reads _) fun _ => .pure _
  unfold insertTask
  split
  · dsimp only
    split <;> rfl
  · rfl

theorem executeOpen_leavesClaims (claimId : Json) : LeavesClaims (executeOpen env claimId) := by
  refine .bind (.reads _) ?_
  rintro ⟨c, t⟩
  exact .bind (.require _) fun _ => .bind (fun _ => rfl) fun sessionId =>
    .bind (readsClaims.insertSession sessionId claimId) fun _ =>
      .bind (setState_leavesClaims _ _) fun _ =>
    .bind readsClaims.flush fun _ => .bind (readsClaims.append _ _ _ _ _) fun _ => .pure _

theorem promoteStale_leavesClaims (cutoff : DateTime) (rows : List (WcpClaim × WcpTask)) :
    LeavesClaims (promoteStale env cutoff rows) := by
  induction rows with
  | nil => exact .pure _
  | cons row rows ih =>
      obtain ⟨c, t⟩ := row
      unfold promoteStale
      cases c.lastHeartbeatAt with
      | none => exact ih
      | some hb =>
          refine .bind (.lift _) fun stale => ?_
          cases stale with
          | false => exact ih
          | true =>
              exact .bind (setState_leavesClaims _ _) fun _ =>
                .bind (readsClaims.append _ _ _ _ _) fun _ => .bind ih fun _ => .pure _

theorem checkHeartbeats_leavesClaims (now : Option DateTime) :
    LeavesClaims (checkHeartbeats env now) := by
  have hrest (at' : DateTime) : LeavesClaims (do
      let cutoff ← Exec.lift (at'.minus (heartbeatSeconds * missedHeartbeats * 1000000))
      let staleRows ← readDb fun db => Except.ok db.executingRows
      promoteStale env cutoff staleRows) :=
    .bind (.lift _) fun _ => .bind (.reads _) fun _ => promoteStale_leavesClaims _ _
  unfold checkHeartbeats
  cases now with
  | none => exact .bind (fun _ => rfl) hrest
  | some at' => exact hrest at'

theorem routeDecision_leavesClaims (t : WcpTask) (claimId : Json) (attempt : Nat) (remaining : Int)
    (accountingRef : Json) (aggregate : VerificationOutcome) :
    LeavesClaims (routeDecision env t claimId attempt remaining accountingRef aggregate) := by
  have hmove (state : TaskState) (name : String) (payload : Json) : LeavesClaims (do
      setState t state
      let _ ← append env (.str name) coordinatorDid payload claimId (.str t.taskId) none) :=
    .bind (setState_leavesClaims _ _) fun _ => .bind (readsClaims.append _ _ _ _ _) fun _ => .pure _
  unfold routeDecision
  split
  · exact hmove _ _ _
  · split
    · exact hmove _ _ _
    · exact hmove _ _ _
  · exact .pure _

theorem attest_leavesClaims (claimId attestations : Json) :
    LeavesClaims (attest env claimId attestations) := by
  refine .bind (.reads _) ?_
  rintro ⟨c, t⟩
  exact .bind (.lift _) fun _ => .bind (.lift _) fun req => .bind (.lift _) fun taskPayload =>
    .bind (.lift _) fun limit => .bind (.lift _) fun resolved => .bind (.lift _) fun items =>
    .bind (readsClaims.collectEvidence _ _ _ _ _) fun outcomes => .bind (.lift _) fun aggregate =>
    .bind (.write fun _ => rfl) fun _ => .bind (readsClaims.append _ _ _ _ _) fun _ =>
    .bind (.lift _) fun accountingRef => .bind (routeDecision_leavesClaims _ _ _ _ _ _) fun _ =>
    .bind readsClaims.flush fun _ => .pure _

theorem supervise_leavesClaims (claimId handoffReason urgency : Json) :
    LeavesClaims (supervise env claimId handoffReason urgency) := by
  refine .bind (.reads _) ?_
  rintro ⟨c, t⟩
  exact .bind (.require _) fun _ => .bind (setState_leavesClaims _ _) fun _ =>
    .bind readsClaims.flush fun _ => .bind (fun _ => rfl) fun sessionKey =>
    .bind (readsClaims.append _ _ _ _ _) fun _ => .pure _

theorem abort_leavesClaims (claimId reason stateSnapshot : Json) :
    LeavesClaims (abort env claimId reason stateSnapshot) := by
  refine .bind (.reads _) ?_
  rintro ⟨c, t⟩
  exact .bind (.require _) fun _ => .bind (setState_leavesClaims _ _) fun _ =>
    .bind (.lift _) fun accountingRef => .bind readsClaims.flush fun _ =>
    .bind (readsClaims.append _ _ _ _ _) fun _ => .bind (fun _ => rfl) fun abortId => .pure _

theorem settle_claims {m : Action α} (h : LeavesClaims m) (w : World) :
    (w.settle (m w)).db.claims = w.db.claims :=
  @settle_db _ w m (fun db => db.claims = w.db.claims) rfl fun _ _ => h w

/-! ## What is written and what is seen -/

/-- An accepted heartbeat: its claim, and the time that the worker wrote into it. -/
def acceptedBeat (env : Env) (w : World) : Call → Option (String × DateTime)
  | .executeEvent claimId eventType timestamp payload sig =>
      match (executeEvent env claimId eventType timestamp payload sig w).1,
          claimAndTask env w.db claimId, parseIso env timestamp with
      | .ok _, .ok (c, _), .ok sentAt =>
          if eventType = .str "heartbeat" then some (c.claimId, sentAt) else none
      | _, _, _ => none
  | _ => none

/-- A heartbeat whose time is written into its claim.  Where the claim is named by a list or an
object, the event is refused only after that, when the statement that reads the predecessor of
its entry is not sent. -/
def writtenBeat (env : Env) (w : World) : Call → Option (String × DateTime)
  | .executeEvent claimId eventType timestamp payload sig =>
      match claimAndTask env w.db claimId with
      | .ok (c, t) =>
          if t.state = .executing ∧
              (eventVerify env c claimId eventType timestamp payload sig).isOk = true ∧
              eventType = .str "heartbeat" ∧
              (env.stores eventType claimId (.str t.taskId) || env.unsent claimId) = true then
            (parseIso env timestamp).toOption.map fun sentAt => (c.claimId, sentAt)
          else none
      | .error _ => none
  | _ => none

/-- What a call does to the claims, and to the times in them. -/
inductive ClaimsStep (env : Env) (w : World) (call : Call) (db' : Db) : Prop
  | none (hbeat : writtenBeat env w call = .none) (hclaims : db'.claims = w.db.claims)
  | made (c : WcpClaim) (hbeat : writtenBeat env w call = .none)
      (hfresh : w.db.findClaim c.claimId = .none)
      (htime : c.lastHeartbeatAt = some (env.storeTime (.utc (env.clock (w.tick + 1)))))
      (hclaims : db'.claims = w.db.claims ++ [c])
  | beat (id : String) (sentAt : DateTime) (hbeat : writtenBeat env w call = some (id, sentAt))
      (hclaims : db'.claims = (w.db.updateClaim id fun c =>
        { c with lastHeartbeatAt := some (env.storeTime sentAt) }).claims)

theorem claimWrite_claims (t : WcpTask) (worker : WcpWorker) (eta : DateTime)
    (acceptance bid : Json) (now : DateTime) (claimId : String) (w : World) :
    Ends (claimWrite env t worker eta acceptance bid now claimId) w fun r w' =>
      r = .error (.raised .database) ∨ r = .ok () ∧ ∃ c : WcpClaim, c.claimId = claimId ∧
        w.db.findClaim c.claimId = none ∧ c.lastHeartbeatAt = some (env.storeTime now) ∧
        w'.db.claims = w.db.claims ++ [c] := by
  unfold claimWrite Ends
  split
  · exact .inl rfl
  · dsimp only
    by_cases hfresh : (w.db.findClaim claimId).isSome = true
    · rw [if_pos hfresh]
      exact .inl rfl
    · rw [if_neg hfresh]
      exact .inr ⟨rfl, _, rfl, by simpa using hfresh, rfl, rfl⟩

theorem claim_claims (taskId workerId eta acceptance bid : Json) :
    Ends (claim env taskId workerId eta acceptance bid) w
      (Committed fun db' => db'.claims = w.db.claims ∨ ∃ c : WcpClaim,
        c.claimId = env.uuid (w.tick + 2) ∧ w.db.findClaim c.claimId = none ∧
        c.lastHeartbeatAt = some (env.storeTime (.utc (env.clock (w.tick + 1)))) ∧
        db'.claims = w.db.claims ++ [c]) := by
  have hsame : ∀ (r : Except Err Json) (w' : World), w'.db.claims = w.db.claims →
      Committed (fun db' => db'.claims = w.db.claims ∨ ∃ c : WcpClaim,
        c.claimId = env.uuid (w.tick + 2) ∧ w.db.findClaim c.claimId = none ∧
        c.lastHeartbeatAt = some (env.storeTime (.utc (env.clock (w.tick + 1)))) ∧
        db'.claims = w.db.claims ++ [c]) r w' :=
    fun r w' hclaims => Committed.of (.inl hclaims)
  unfold claim
  refine readDb_bind ?_ fun e _ => hsame _ _ rfl
  intro t _
  refine utcnow_bind (Ends.lift_bind ?_ fun e _ => hsame _ _ rfl)
  intro _ _
  refine readDb_bind ?_ fun e _ => hsame _ _ rfl
  intro worker _
  refine Ends.lift_bind ?_ fun e _ => hsame _ _ rfl
  intro resolved _
  refine readDb_bind ?_ fun e _ => hsame _ _ rfl
  intro _ _
  refine Ends.lift_bind ?_ fun e _ => hsame _ _ rfl
  intro etaTime _
  refine utcnow_bind (uuid4_bind (Ends.bind (Ends.mono (claimWrite_claims _ _ _ _ _ _ _ _) ?_)))
  rintro r w₁ (rfl | ⟨rfl, c, hid, hfresh, htime, hclaims⟩)
  · exact Committed.database
  · refine append_bind ?_ (fun _ => Committed.database) (by simp)
    intro r entry storedType stored task' _ _ _ _ _
    exact Ends.pure (Committed.of (.inr ⟨c, hid, hfresh, htime, hclaims⟩))

theorem step_claim_claimsStep (taskId workerId eta acceptance bid : Json) :
    ClaimsStep env w (.claim taskId workerId eta acceptance bid)
      (step env w (.claim taskId workerId eta acceptance bid)).db := by
  refine settle_db (.none rfl rfl) fun hne hclean => ?_
  rcases claim_claims taskId workerId eta acceptance bid hne hclean with
    hclaims | ⟨c, -, hfresh, htime, hclaims⟩
  · exact .none rfl hclaims
  · exact .made c rfl hfresh htime hclaims

theorem recordHeartbeat_ends (c : WcpClaim) (eventType timestamp : Json)
    (hdoomed : w.doomed = false) :
    Ends (recordHeartbeat env c eventType timestamp) w fun r w' => w'.doomed = false ∧
      ((∃ e, r = .error e ∧ w' = w ∧ parseIso env timestamp = .error e) ∨
        (r = .ok () ∧ eventType ≠ .str "heartbeat" ∧ w' = w) ∨
        r = .ok () ∧ eventType = .str "heartbeat" ∧ ∃ sentAt, parseIso env timestamp = .ok sentAt ∧
          w'.db.claims = (w.db.updateClaim c.claimId fun c =>
            { c with lastHeartbeatAt := some (env.storeTime sentAt) }).claims) := by
  unfold recordHeartbeat
  split
  · next hbeat =>
      refine Ends.lift_bind ?_ fun e he => ⟨hdoomed, .inl ⟨e, rfl, rfl, he⟩⟩
      intro sentAt hsent
      refine writeDb_bind ?_
      unfold Ends flush
      rw [if_neg (by simp [hdoomed])]
      exact ⟨hdoomed, .inr (.inr ⟨rfl, hbeat, sentAt, hsent, rfl⟩)⟩
  · next hother => exact ⟨hdoomed, .inr (.inl ⟨rfl, hother, rfl⟩)⟩

theorem writtenBeat_executeEvent {claimId eventType timestamp payload sig : Json} {c : WcpClaim}
    {t : WcpTask} (hct : claimAndTask env w.db claimId = .ok (c, t)) (hstate : t.state = .executing)
    (hverify : eventVerify env c claimId eventType timestamp payload sig = .ok ()) :
    writtenBeat env w (.executeEvent claimId eventType timestamp payload sig) =
      if eventType = .str "heartbeat" ∧
          (env.stores eventType claimId (.str t.taskId) || env.unsent claimId) = true then
        (parseIso env timestamp).toOption.map fun sentAt => (c.claimId, sentAt)
      else none := by
  rw [writtenBeat, hct]
  simp [hstate, hverify, Except.isOk, Except.toBool]

theorem writtenBeat_refused {claimId eventType timestamp payload sig : Json}
    (h : ∀ c t, claimAndTask env w.db claimId = .ok (c, t) → t.state = .executing →
      eventVerify env c claimId eventType timestamp payload sig ≠ .ok ()) :
    writtenBeat env w (.executeEvent claimId eventType timestamp payload sig) = none := by
  simp only [writtenBeat]
  split
  · next c t hct =>
      refine if_neg ?_
      rintro ⟨hstate, hverify, -⟩
      refine h c t hct hstate ?_
      cases hverified : eventVerify env c claimId eventType timestamp payload sig with
      | ok u => rfl
      | error e => simp [hverified, Except.isOk, Except.toBool] at hverify
  · rfl

/-- Where the call is rolled back it has written no heartbeat; otherwise it has taken a step. -/
def StepsClaims (env : Env) (w : World) (call : Call) (r : Except Err α) (w' : World) : Prop :=
  (r = .error (.raised .database) → writtenBeat env w call = none) ∧
    (r ≠ .error (.raised .database) → w'.doomed = false ∧ ClaimsStep env w call w'.db)

theorem StepsClaims.unwritten {call : Call} {r : Except Err α} (hdoomed : w.doomed = false)
    (h : writtenBeat env w call = none) : StepsClaims env w call r w :=
  ⟨fun _ => h, fun _ => ⟨hdoomed, .none h rfl⟩⟩

theorem StepsClaims.settle {m : Action α} {call : Call} (h : Ends m w (StepsClaims env w call)) :
    ClaimsStep env w call (w.settle (m w)).db := by
  obtain ⟨hback, hstep⟩ := h
  by_cases hr : (m w).1 = .error (.raised .database)
  · refine settle_db (.none (hback hr) rfl) ?_
    exact fun hne => absurd hr hne
  · obtain ⟨hclean, hstep⟩ := hstep hr
    unfold World.settle
    split
    · next w' heq =>
        rw [heq] at hr
        exact absurd rfl hr
    · next r w' hne heq =>
        rw [heq] at hclean hstep
        rw [if_neg (by simp [show w'.doomed = false from hclean])]
        exact hstep

/-- What an event does to the claims: nothing unless it is a heartbeat that is written. -/
theorem executeEvent_claims (hdoomed : w.doomed = false)
    (claimId eventType timestamp payload sig : Json) :
    Ends (executeEvent env claimId eventType timestamp payload sig) w
      (StepsClaims env w (.executeEvent claimId eventType timestamp payload sig)) := by
  have hrefused : ∀ {r : Except Err Json}, (∀ c t, claimAndTask env w.db claimId = .ok (c, t) →
      t.state = .executing → eventVerify env c claimId eventType timestamp payload sig ≠ .ok ()) →
      StepsClaims env w (.executeEvent claimId eventType timestamp payload sig) r w :=
    fun hnot => .unwritten hdoomed (writtenBeat_refused hnot)
  unfold executeEvent
  refine readDb_bind ?_ fun e he => hrefused fun c t hct => ?_
  · rintro ⟨c, t⟩ hct
    refine Ends.require_bind ?_ fun hstate => hrefused fun c' t' hct' hstate' => ?_
    · intro hstate
      refine Ends.lift_bind ?_ fun e he => hrefused fun c' t' hct' _ hverify => ?_
      · intro _ hverify
        have hwritten := writtenBeat_executeEvent hct hstate hverify
        refine Ends.bind (Ends.mono (recordHeartbeat_ends c eventType timestamp hdoomed) ?_)
        rintro r w₁ ⟨hclean, ⟨e, rfl, rfl, hparse⟩ | ⟨rfl, hother, rfl⟩ |
          ⟨rfl, hbeat, sentAt, hsent, hclaims⟩⟩
        · refine .unwritten hclean ?_
          rw [hwritten, hparse]
          exact ite_self none
        · have hnone : writtenBeat env w₁ (.executeEvent claimId eventType timestamp payload sig) =
              none := by
            rw [hwritten, if_neg fun h => hother h.1]
          refine append_bind ?_ (fun _ => ⟨fun _ => hnone, fun h => absurd rfl h⟩) fun _ _ =>
            ⟨fun _ => hnone, fun _ => ⟨hclean, .none hnone rfl⟩⟩
          intro r entry storedType stored task' _ _ _ _ _
          exact Ends.pure ⟨fun _ => hnone, fun _ => ⟨hclean, .none hnone rfl⟩⟩
        · have hsome (h : (env.stores eventType claimId (.str t.taskId) || env.unsent claimId) =
              true) : writtenBeat env w (.executeEvent claimId eventType timestamp payload sig) =
                some (c.claimId, sentAt) := by
            rw [hwritten, if_pos ⟨hbeat, h⟩, hsent]
            rfl
          refine append_bind_cases ?_ (fun hbad hsent _ => ⟨fun _ => ?_, fun h => absurd rfl h⟩) ?_
          · intro r entry _ hstores
            refine Ends.pure ⟨nofun, fun _ => ⟨hclean, .beat _ _ (hsome ?_) hclaims⟩⟩
            rw [hstores, Bool.true_or]
          · rw [hwritten, if_neg]
            rintro ⟨-, hkept⟩
            rw [Bool.or_eq_true] at hkept
            rcases hkept with hstores | hunsent
            · exact hbad ⟨hclean, hstores⟩
            · exact hsent ⟨hclean, hunsent⟩
          · intro hunsent _
            refine ⟨by simp, fun _ => ⟨hclean, .beat _ _ (hsome ?_) hclaims⟩⟩
            rw [hunsent, Bool.or_true]
      · cases hct.symm.trans hct'
        cases he.symm.trans hverify
    · cases hct.symm.trans hct'
      exact absurd hstate' hstate
  · cases he.symm.trans hct

theorem step_claimsStep (env : Env) (hdoomed : w.doomed = false) (call : Call) :
    ClaimsStep env w call (step env w call).db := by
  cases call with
  | post task expiry informational => exact .none rfl (settle_claims (post_leavesClaims _ _ _) w)
  | claim taskId workerId eta acceptance bid =>
      exact step_claim_claimsStep taskId workerId eta acceptance bid
  | executeOpen claimId => exact .none rfl (settle_claims (executeOpen_leavesClaims _) w)
  | executeEvent claimId eventType timestamp payload sig =>
      exact StepsClaims.settle
        (executeEvent_claims hdoomed claimId eventType timestamp payload sig)
  | checkHeartbeats now => exact .none rfl (settle_claims (checkHeartbeats_leavesClaims _) w)
  | attest claimId attestations => exact .none rfl (settle_claims (attest_leavesClaims _ _) w)
  | supervise claimId handoffReason urgency =>
      exact .none rfl (settle_claims (supervise_leavesClaims _ _ _) w)
  | abort claimId reason stateSnapshot =>
      exact .none rfl (settle_claims (abort_leavesClaims _ _ _) w)
  | upsertCapabilities workerId capabilities principalId ttlSeconds =>
      exact .none rfl (settle_claims (readsClaims.upsertCapabilities _ _ _ _) w)
  | createSubscription agentDid filterDict sinceRevision =>
      exact .none rfl (settle_claims (readsClaims.createSubscription _ _ _) w)

/-! ## Watching a run -/

/-- What is known of a claim. -/
structure Seen where
  /-- The time of the claim, and then the time that each heartbeat that is written names. -/
  told : Option DateTime
  /-- When the coordinator accepted the last heartbeat. -/
  beatAt : Option Nat
  /-- When the task last started executing. -/
  startedAt : Option Nat

/-- The later of the last accepted heartbeat and the last start. -/
def Seen.lastSign (s : Seen) : Option Nat := s.startedAt.map fun at' => max at' (s.beatAt.getD at')

/-- A run, with what is known of each claim. -/
structure Watch where
  world : World
  seen : String → Seen

/-- The coordinator's time of the last entry of the audit chain. -/
def World.recordedAt (w : World) : Option Nat := w.db.audit.getLast?.map (·.timestamp)

/-- The coordinator's time of a move: that of the entry about it, or, where it left none, the
last reading of the clock. -/
def movedAt (env : Env) (w w' : World) : Option Nat :=
  if w'.db.audit.length = w.db.audit.length then some (env.clock (w'.tick - 1)) else w'.recordedAt

/-- Whether the task of a claim is executing. -/
def Db.isExecuting (db : Db) (id : String) : Bool :=
  db.executingRows.any fun row => decide (row.1.claimId = id)

/-- What is known of a claim after a call that led from one state to another. -/
def observe (env : Env) (w : World) (call : Call) (w' : World) (id : String) (s : Seen) : Seen where
  told :=
    if (w.db.findClaim id).isNone && (w'.db.findClaim id).isSome then
      some (.utc (env.clock (w.tick + 1)))
    else
      match writtenBeat env w call with
      | some (c, sentAt) => if c = id then some sentAt else s.told
      | none => s.told
  beatAt :=
    match acceptedBeat env w call with
    | some (c, _) => if c = id then w'.recordedAt else s.beatAt
    | none => s.beatAt
  startedAt :=
    if !w.db.isExecuting id && w'.db.isExecuting id then movedAt env w w' else s.startedAt

/-- One call of a watched run. -/
def watch (env : Env) (g : Watch) (call : Call) : Watch where
  world := step env g.world call
  seen id := observe env g.world call (step env g.world call) id (g.seen id)

/-- The watched run of a coordinator with registered workers. -/
def watched (env : Env) (workers : List WcpWorker) (calls : List Call) : Watch :=
  run (watch env) ⟨initial workers, fun _ => ⟨none, none, none⟩⟩ calls

theorem watched_world (env : Env) (workers : List WcpWorker) (calls : List Call) :
    (watched env workers calls).world = reach env workers calls := by
  have hrun : ∀ g : Watch, (run (watch env) g calls).world = run (step env) g.world calls := by
    induction calls with
    | nil => exact fun _ => rfl
    | cons call calls ih => exact fun g => ih (watch env g call)
  exact hrun _

/-- The time in every claim is the one that it was told. -/
def Watch.Told (env : Env) (g : Watch) : Prop :=
  ∀ c ∈ g.world.db.claims, c.lastHeartbeatAt = (g.seen c.claimId).told.map env.storeTime

theorem isSome_findClaim {db : Db} {c : WcpClaim} (h : c ∈ db.claims) :
    (db.findClaim c.claimId).isSome = true := by
  unfold Db.findClaim
  rw [List.find?_isSome]
  exact ⟨c, h, decide_eq_true rfl⟩

/-- A claim that was there before is told only what a heartbeat says. -/
theorem observe_told {call : Call} {w' : World} {c : WcpClaim} (s : Seen) (h : c ∈ w.db.claims) :
    (observe env w call w' c.claimId s).told =
      match writtenBeat env w call with
      | some (id, sentAt) => if id = c.claimId then some sentAt else s.told
      | none => s.told := by
  have hold : (w.db.findClaim c.claimId).isNone = false := by
    rw [Option.isNone_eq_false_iff]
    exact isSome_findClaim h
  rw [observe, hold]
  rfl

theorem Watch.Told.step {g : Watch} (h : g.Told env) (hdoomed : g.world.doomed = false)
    (call : Call) : (watch env g call).Told env := by
  intro c hc
  show c.lastHeartbeatAt = (observe env g.world call (Coordinator.step env g.world call) c.claimId
    (g.seen c.claimId)).told.map env.storeTime
  have hc : c ∈ (Coordinator.step env g.world call).db.claims := hc
  cases step_claimsStep env hdoomed call with
  | none hbeat hclaims =>
      rw [hclaims] at hc
      rw [observe_told _ hc, hbeat]
      exact h c hc
  | made c' hbeat hfresh htime hclaims =>
      have hmem := hc
      rw [hclaims, List.mem_append, List.mem_singleton] at hc
      rcases hc with hc | rfl
      · rw [observe_told _ hc, hbeat]
        exact h c hc
      · have hnew : ((g.world.db.findClaim c.claimId).isNone &&
            ((Coordinator.step env g.world call).db.findClaim c.claimId).isSome) = true := by
          rw [hfresh, isSome_findClaim hmem]
          rfl
        rw [observe, if_pos hnew, htime]
        rfl
  | beat id sentAt hbeat hclaims =>
      rw [hclaims] at hc
      obtain ⟨old, hold, rfl⟩ := List.mem_map.1 hc
      by_cases hid : old.claimId = id
      · rw [if_pos hid]
        rw [observe_told (c := old) _ hold, hbeat]
        dsimp only
        rw [if_pos hid.symm]
        rfl
      · rw [if_neg hid, observe_told _ hold, hbeat]
        dsimp only
        rw [if_neg (Ne.symm hid)]
        exact h old hold

theorem watched_told (env : Env) (workers : List WcpWorker) (calls : List Call) :
    (watched env workers calls).Told env := by
  have hinv := @run_invariant _ _ (watch env) (fun g => g.world.doomed = false ∧ g.Told env)
    (fun _ => True) ?_ ⟨initial workers, fun _ => ⟨none, none, none⟩⟩ calls
    ⟨rfl, fun _ hc => absurd hc List.not_mem_nil⟩ fun _ _ => trivial
  · exact hinv.2
  · rintro g call ⟨hdoomed, htold⟩ -
    exact ⟨step_doomed env g.world call, htold.step hdoomed call⟩

/-- No claim without an entry. -/
def Db.Entered (db : Db) : Prop := db.claims ≠ [] → db.audit ≠ []

theorem Change.entered {call : Call} {db db' : Db} (h : Change env call db db')
    (hdb : db.Entered) : db'.Entered := by
  have hadded : ∀ entry, db'.audit = db.audit ++ [entry] → db'.Entered := by
    intro entry haudit _
    rw [haudit]
    exact List.append_ne_nil_of_right_ne_nil _ (List.cons_ne_nil _ _)
  cases h with
  | quiet htasks hclaims haudit =>
      unfold Db.Entered
      rw [hclaims, haudit]
      exact hdb
  | posted row entry hchecked hprogress hfresh hentry htasks hclaims haudit hauthor =>
      exact hadded entry haudit
  | claimed t c entry ht hposted hfresh hsame haccepted hid hbinds htype hentry htasks hclaims
      haudit hauthor =>
      exact hadded entry haudit
  | moved c t p entry hholds hmove hreplay hpayload hentry hcall htasks hclaims haudit hauthor =>
      exact hadded entry haudit
  | event c t beat entry eventType hcall htype hholds hstate hentry htasks hclaims haudit hauthor =>
      exact hadded entry haudit
  | unrecorded c t p name hholds hmove hname hcall htasks hclaims haudit =>
      unfold Db.Entered
      rw [hclaims, haudit]
      exact hdb
  | unheard c t beat hcall hholds hstate htasks hclaims haudit =>
      unfold Db.Entered
      rw [haudit]
      exact fun _ => hdb (List.ne_nil_of_mem hholds.claim)

theorem audit_ne_nil_of_executing {db : Db} {id : String} (hdb : db.Entered)
    (h : db.isExecuting id = true) : db.audit ≠ [] := by
  obtain ⟨row, hrow, -⟩ := List.any_eq_true.1 h
  obtain ⟨t, hholds, -⟩ := executingRows_pending hrow
  exact hdb (List.ne_nil_of_mem hholds.claim)

/-- An executing claim was seen to start: the call that started it left an entry. -/
theorem watched_started (env : Env) (workers : List WcpWorker) (calls : List Call) (id : String)
    (h : (reach env workers calls).db.isExecuting id = true) :
    ∃ at', ((watched env workers calls).seen id).startedAt = some at' := by
  rw [← watched_world] at h
  refine (@run_invariant _ _ (watch env) (fun g => (g.world.db.WellFormed ∧ g.world.db.Entered) ∧
    (g.world.db.isExecuting id = true → ∃ at', (g.seen id).startedAt = some at'))
    (fun _ => True) ?_ ⟨initial workers, fun _ => ⟨none, none, none⟩⟩ calls
    ⟨⟨initial_wellFormed workers, fun h => absurd rfl h⟩, nofun⟩ fun _ _ => trivial).2 h
  rintro g call ⟨⟨hwf, hentered⟩, hseen⟩ -
  have hnext := @run_changes_invariant env Db.Entered (fun _ => True)
    (fun _ _ _ _ _ hchange => hchange.entered) g.world [call] hwf hentered fun _ _ => trivial
  refine ⟨hnext, fun hexec => ?_⟩
  have hexec : (step env g.world call).db.isExecuting id = true := hexec
  show ∃ at', (observe env g.world call (step env g.world call) id (g.seen id)).startedAt = some at'
  cases hbefore : g.world.db.isExecuting id with
  | true =>
      rw [observe, hbefore]
      exact hseen hbefore
  | false =>
      rw [observe, hbefore, hexec]
      show ∃ at', movedAt env g.world (step env g.world call) = some at'
      unfold movedAt
      split
      · exact ⟨_, rfl⟩
      · exact ⟨_, congrArg (Option.map _)
          (List.getLast?_eq_some_getLast (audit_ne_nil_of_executing hnext.2 hexec))⟩

/-! ## The check -/

/-- How long a claim may be silent, in microseconds. -/
def heartbeatTimeout : Nat := heartbeatSeconds * missedHeartbeats * 1000000

/-- The time in a claim lies before a cutoff. -/
def WcpClaim.isStale (c : WcpClaim) (cutoff : Int) : Bool :=
  c.lastHeartbeatAt.any fun hb => decide (hb.assumeUtc.instant < cutoff)

/-- The claims of the stale rows. -/
def staleIds (cutoff : Int) (rows : List (WcpClaim × WcpTask)) : List String :=
  (rows.filter fun row => row.1.isStale cutoff).map (·.1.claimId)

/-- The driver refuses the entry about one of the rows. -/
def Refuses (env : Env) (rows : List (WcpClaim × WcpTask)) : Prop :=
  ∃ row ∈ rows, env.stores (.str "heartbeat_timeout") (.str row.1.claimId) (.str row.2.taskId) =
    false

theorem Refuses.cons {row : WcpClaim × WcpTask} {rows : List (WcpClaim × WcpTask)}
    (h : Refuses env rows) : Refuses env (row :: rows) := by
  obtain ⟨bad, hbad, hstores⟩ := h
  exact ⟨bad, List.mem_cons_of_mem row hbad, hstores⟩

/-- The loop promotes the stale rows, unless the driver refuses an entry. -/
theorem promoteStale_ends {cutoff : DateTime} (hcutoff : cutoff.offset.isSome = true)
    (rows : List (WcpClaim × WcpTask)) (hdoomed : w.doomed = false) :
    Ends (promoteStale env cutoff rows) w fun r _ =>
      r = .ok (staleIds cutoff.instant rows) ∨ (∃ e, r = .error e) ∧ Refuses env rows := by
  induction rows generalizing w with
  | nil => exact .inl rfl
  | cons row rows ih =>
      obtain ⟨c, t⟩ := row
      have hskip : c.isStale cutoff.instant = false → Ends (promoteStale env cutoff rows) w
          fun r _ => r = .ok (staleIds cutoff.instant ((c, t) :: rows)) ∨
            (∃ e, r = .error e) ∧ Refuses env ((c, t) :: rows) := by
        intro hstale
        have hids : staleIds cutoff.instant ((c, t) :: rows) = staleIds cutoff.instant rows := by
          simp [staleIds, hstale]
        rw [hids]
        refine Ends.mono (ih hdoomed) ?_
        rintro r w' (hr | ⟨he, hrefuses⟩)
        · exact .inl hr
        · exact .inr ⟨he, hrefuses.cons⟩
      unfold promoteStale
      cases hhb : c.lastHeartbeatAt with
      | none => exact hskip (by simp [WcpClaim.isStale, hhb])
      | some hb =>
          have hless : c.isStale cutoff.instant =
              decide (hb.assumeUtc.instant < cutoff.instant) := by
            simp [WcpClaim.isStale, hhb]
          dsimp only
          rw [DateTime.less_aware hb.isSome_offset_assumeUtc hcutoff, ← hless]
          refine Ends.lift_bind ?_ (by simp)
          intro stale hstale
          obtain rfl := Except.ok.inj hstale
          cases hstale : c.isStale cutoff.instant with
          | false => exact hskip hstale
          | true =>
              have hids : staleIds cutoff.instant ((c, t) :: rows) =
                  c.claimId :: staleIds cutoff.instant rows := by
                simp [staleIds, hstale]
              rw [if_pos rfl, hids]
              refine writeDb_bind (append_bind_cases ?_ ?_ (by simp))
              · intro r entry _ _
                refine Ends.bind (Ends.mono (ih hdoomed) ?_)
                rintro r w' (rfl | ⟨⟨e, rfl⟩, hrefuses⟩)
                · exact Ends.pure (.inl rfl)
                · exact .inr ⟨⟨e, rfl⟩, hrefuses.cons⟩
              · intro hbad _ w'
                refine .inr ⟨⟨_, rfl⟩, (c, t), List.mem_cons_self, ?_⟩
                simpa [hdoomed] using hbad

/-- What a check at the current time returns: the stale rows, unless the clock has just started or
the driver refuses an entry. -/
theorem checkHeartbeats_ends {now : Option DateTime} (hdoomed : w.doomed = false)
    (hnow : now = none ∨ now = some (.utc (env.clock w.tick))) :
    Ends (checkHeartbeats env now) w fun r _ =>
      (r = .ok (staleIds (env.clock w.tick - heartbeatTimeout) w.db.executingRows) ∧
        heartbeatTimeout ≤ env.clock w.tick) ∨
      (∃ e, r = .error e) ∧
        (env.clock w.tick < heartbeatTimeout ∨ Refuses env w.db.executingRows) := by
  have hbody : ∀ w' : World, w'.db = w.db → w'.doomed = false → Ends (do
      let cutoff ← Exec.lift
        ((DateTime.utc (env.clock w.tick)).minus (heartbeatSeconds * missedHeartbeats * 1000000))
      let staleRows ← readDb fun db => Except.ok db.executingRows
      promoteStale env cutoff staleRows) w' fun r _ =>
        (r = .ok (staleIds (env.clock w.tick - heartbeatTimeout) w.db.executingRows) ∧
          heartbeatTimeout ≤ env.clock w.tick) ∨
        (∃ e, r = .error e) ∧
          (env.clock w.tick < heartbeatTimeout ∨ Refuses env w.db.executingRows) := by
    intro w' hdb hw'
    rw [← hdb]
    by_cases hclock : heartbeatTimeout ≤ env.clock w.tick
    · have hminus : ((DateTime.utc (env.clock w.tick)).minus
          (heartbeatSeconds * missedHeartbeats * 1000000) : Except Err DateTime) =
            .ok ⟨env.clock w.tick - heartbeatTimeout, some 0⟩ := if_pos hclock
      rw [hminus]
      refine Ends.lift_bind ?_ nofun
      intro cutoff hcutoff
      obtain rfl := Except.ok.inj hcutoff
      refine readDb_bind ?_ nofun
      intro rows hrows
      obtain rfl := Except.ok.inj hrows
      have hinstant : (DateTime.mk (env.clock w.tick - heartbeatTimeout) (some 0)).instant =
          env.clock w.tick - heartbeatTimeout :=
        (DateTime.instant_utc _).trans (Int.ofNat_sub hclock)
      refine Ends.mono (promoteStale_ends rfl _ hw') ?_
      rintro r w'' (hr | ⟨he, hrefuses⟩)
      · exact .inl ⟨hinstant ▸ hr, hclock⟩
      · exact .inr ⟨he, .inr hrefuses⟩
    · have hminus : ((DateTime.utc (env.clock w.tick)).minus
          (heartbeatSeconds * missedHeartbeats * 1000000) : Except Err DateTime) =
            .error .overflowError := if_neg hclock
      rw [hminus]
      exact Ends.lift_bind nofun fun e _ => .inr ⟨⟨e, rfl⟩, .inl (by omega)⟩
  unfold checkHeartbeats
  rcases hnow with rfl | rfl
  · exact utcnow_bind (hbody _ rfl hdoomed)
  · exact hbody w rfl hdoomed

namespace Watch

/-- The coordinator's current time. -/
def now (env : Env) (g : Watch) : Nat := env.clock g.world.tick

/-- The time that a claim was told, as the database gives it back, has passed by more than the
timeout. -/
def isLate (env : Env) (g : Watch) (id : String) : Bool :=
  (g.seen id).told.any fun d =>
    decide ((env.storeTime d).assumeUtc.instant + heartbeatTimeout < g.now env)

/-- More than the timeout has passed since the last heartbeat and the last start. -/
def isSilent (env : Env) (g : Watch) (id : String) : Bool :=
  (g.seen id).lastSign.any fun at' => decide (at' + heartbeatTimeout < g.now env)

/-- A claim that has to be promoted. -/
def isOverdue (env : Env) (g : Watch) (id : String) : Bool :=
  g.world.db.isExecuting id && g.isSilent env id

/-- What is stored in a claim is late exactly if what it was told is. -/
theorem Told.isStale {g : Watch} (h : g.Told env) {c : WcpClaim} (hc : c ∈ g.world.db.claims) :
    c.isStale (g.now env - heartbeatTimeout) = g.isLate env c.claimId := by
  unfold WcpClaim.isStale isLate
  rw [h c hc]
  cases (g.seen c.claimId).told with
  | none => rfl
  | some d =>
      show decide ((env.storeTime d).assumeUtc.instant < g.now env - heartbeatTimeout) =
        decide ((env.storeTime d).assumeUtc.instant + heartbeatTimeout < g.now env)
      rw [decide_eq_decide]
      omega

theorem Told.mem_staleIds {g : Watch} (h : g.Told env) (id : String) :
    id ∈ staleIds (g.now env - heartbeatTimeout) g.world.db.executingRows ↔
      g.world.db.isExecuting id = true ∧ g.isLate env id = true := by
  simp only [staleIds, Db.isExecuting, List.mem_map, List.mem_filter, List.any_eq_true,
    decide_eq_true_eq]
  have hclaims : ∀ row ∈ g.world.db.executingRows, row.1 ∈ g.world.db.claims := by
    intro row hrow
    obtain ⟨t, hholds, -⟩ := executingRows_pending hrow
    exact hholds.claim
  constructor
  · rintro ⟨row, ⟨hrow, hstale⟩, rfl⟩
    exact ⟨⟨row, hrow, rfl⟩, h.isStale (hclaims row hrow) ▸ hstale⟩
  · rintro ⟨⟨row, hrow, rfl⟩, hlate⟩
    exact ⟨row, ⟨hrow, (h.isStale (hclaims row hrow)).trans hlate⟩, rfl⟩

end Watch

/-- For every run, a check at the current time promotes exactly the executing claims that have
been silent for more than the timeout, if and only if for every executing claim the time it was
told lies on the same side of the cutoff as the last sign of life.  The check returns once the
clock has run for the timeout, unless the driver refuses an entry. -/
theorem promoted_overdue_iff (env : Env) (workers : List WcpWorker) (calls : List Call)
    (now : Option DateTime)
    (hnow : now = none ∨ now = some (.utc (env.clock (reach env workers calls).tick))) :
    (∀ promoted, (checkHeartbeats env now (reach env workers calls)).1 = .ok promoted →
      ((∀ id, id ∈ promoted ↔ (watched env workers calls).isOverdue env id = true) ↔
        ∀ id, (reach env workers calls).db.isExecuting id = true →
          (watched env workers calls).isLate env id =
            (watched env workers calls).isSilent env id)) ∧
    (heartbeatTimeout ≤ env.clock (reach env workers calls).tick →
      ¬Refuses env (reach env workers calls).db.executingRows →
        ∃ promoted, (checkHeartbeats env now (reach env workers calls)).1 = .ok promoted) := by
  have hends := checkHeartbeats_ends (reach_clean env workers calls) hnow
  unfold Ends at hends
  constructor
  · intro promoted hpromoted
    have hids : promoted = staleIds ((watched env workers calls).now env - heartbeatTimeout)
        (watched env workers calls).world.db.executingRows := by
      rw [Watch.now, watched_world]
      rcases hends with ⟨hok, -⟩ | ⟨⟨e, he⟩, -⟩
      · exact Except.ok.inj (hpromoted.symm.trans hok)
      · cases hpromoted.symm.trans he
    rw [hids, ← watched_world]
    have htold := watched_told env workers calls
    simp only [htold.mem_staleIds, Watch.isOverdue, Bool.and_eq_true]
    refine forall_congr' fun id => ?_
    rw [and_congr_right_iff]
    exact imp_congr_right fun _ => Bool.eq_iff_iff.symm
  · intro hclock hstores
    rcases hends with ⟨hok, -⟩ | ⟨-, hshort | hrefuses⟩
    · exact ⟨_, hok⟩
    · omega
    · exact absurd hrefuses hstores

/-! ### A heartbeat from the future -/

/-- The local environment with a clock that shows a minute more at every reading. -/
def minuteEnv : Env := { localEnv with
  clock := fun n => newYear2026 + n % 1440 * 60000000
  clock_lt := fun n => by
    have h := Nat.mod_lt n (show 0 < 1440 by decide)
    unfold newYear2026 maxMicros microsPerDay
    omega }

/-- Claim a task, start executing and send one heartbeat, dated years ahead. -/
def postdated : List Call := localStart anySensor ++
  [.executeEvent localClaimId (.str "heartbeat") localDate (.obj []) zeroSig]

theorem promoted_overdue_iff_postdated :
    (checkHeartbeats minuteEnv none (reach minuteEnv [zeroWorker] postdated)).1 = .ok [] ∧
      ((∀ id, id ∈ ([] : List String) ↔
          (watched minuteEnv [zeroWorker] postdated).isOverdue minuteEnv id = true) ↔
        ∀ id, (reach minuteEnv [zeroWorker] postdated).db.isExecuting id = true →
          (watched minuteEnv [zeroWorker] postdated).isLate minuteEnv id =
            (watched minuteEnv [zeroWorker] postdated).isSilent minuteEnv id) := by
  have hchecked : (checkHeartbeats minuteEnv none (reach minuteEnv [zeroWorker] postdated)).1 =
      .ok [] := by decide +kernel
  exact ⟨hchecked,
    (promoted_overdue_iff minuteEnv [zeroWorker] postdated none (.inl rfl)).1 [] hchecked⟩

/-- The heartbeat was accepted more than the timeout ago, and the claim is not promoted. -/
theorem postdated_not_promoted :
    (checkHeartbeats minuteEnv none (reach minuteEnv [zeroWorker] postdated)).1 = .ok [] ∧
      (watched minuteEnv [zeroWorker] postdated).isOverdue minuteEnv "id-6" = true := by
  decide +kernel

end Wcp.Coordinator
