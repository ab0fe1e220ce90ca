import Wcp.Coordinator.Calls
import Wcp.Coordinator.LocalEnvironment
import Wcp.Coordinator.Projection
/-!
# Tasks do not interfere

A call about one task reads and writes nothing of another: it answers, and changes the
database of its task, as if no other task had ever been posted, and leaves the database
of every other task as it is (`Projects`).  So a run, seen from one task, is the run of
the calls about that task alone, made at the same moments (`task_isolated`).
-/

namespace Wcp.Coordinator

open Wcp.Base
open Wcp.Base.Exec

variable {env : Env} {db : Db} {w w' w₀ : World} {t o : String} {own : Option WcpClaim}
  {α β : Type}

/-! ## One method, seen from one task -/

/-- A method that concerns a task does to the database of the task what it does to the whole, and
one that does not leaves it as it is. -/
structure Projects (env : Env) (t : String) (concerned : Prop) (m : Action α) (w : World) :
    Prop where
  linked : (m w).2.Linked env
  tick : w.tick ≤ (m w).2.tick
  aside : ¬ concerned → (m w).2.db.only t = w.db.only t
  same : concerned → m (w.only t) = ((m w).1, (m w).2.only t)

theorem readDb_bind_ok {g : Db → Except Err α} {k : α → Action β} {a : α} (h : g w.db = .ok a) :
    (readDb g >>= k) w = k a w := by
  have hread : readDb g w = (.ok a, w) := congrArg (·, w) h
  exact bind_ok hread

theorem readDb_bind_error {g : Db → Except Err α} {k : α → Action β} {e : Err}
    (h : g w.db = .error e) : (readDb g >>= k) w = (.error e, w) := by
  have hread : readDb g w = (.error e, w) := congrArg (·, w) h
  exact bind_error hread

theorem Projects.of_beside {concerned : Prop} {m : Action α}
    (hagree : Agree (· = ·) (m w).1 (m (w.only o)).1)
    (hbeside : Beside env w o own (m w).2 (m (w.only o)).2) (hiff : concerned ↔ t = o) :
    Projects env t concerned m w where
  linked := hbeside.linked
  tick := hbeside.tick
  aside hnot := hbeside.frame t fun heq => hnot (hiff.2 heq)
  same hc := by
    obtain rfl := hiff.1 hc
    exact Prod.ext hagree.eq.symm hbeside.projected

theorem Projects.raised {concerned : Prop} {m : Action α} {e : Err} (hlinked : w.Linked env)
    (hm : m w = (.error e, w)) (honly : concerned → m (w.only t) = (.error e, w.only t)) :
    Projects env t concerned m w := by
  refine ⟨?_, ?_, fun _ => ?_, fun hc => ?_⟩
  · rw [hm]
    exact hlinked
  · rw [hm]
  · rw [hm]
  · rw [honly hc, hm]

theorem Projects.congr {C D : Prop} {m : Action α} (h : Projects env t C m w) (hiff : C ↔ D) :
    Projects env t D m w :=
  propext hiff ▸ h

/-! ## Calls about a claim -/

def Db.namesClaim (env : Env) (db : Db) (t : String) (claimId : Json) : Bool :=
  match env.lookupKey "claim_id" claimId with
  | .ok (some id) => db.isOn t id
  | _ => false

theorem claimAndTask_found {claimId : Json} {c : WcpClaim}
    (h : db.getClaim env claimId = .ok (some c)) : claimAndTask env db claimId =
      ((db.findTask c.taskId).elim
        (.error (.raised (.taskNotFound ("task " ++ c.taskId ++ " not found"))))
        fun task => .ok (c, task)) := by
  unfold claimAndTask
  rw [h]
  dsimp only [bind, Except.bind]
  cases db.findTask c.taskId <;> rfl

theorem claimAndTask_only {claimId : Json} (h : db.namesClaim env t claimId = true) :
    claimAndTask env (db.only t) claimId = claimAndTask env db claimId := by
  unfold Db.namesClaim at h
  split at h
  · next id hkey =>
      obtain ⟨c, hc, hct⟩ := (Option.any_eq_true _ _).1 h
      have htask : c.taskId = t := by simpa using hct
      have hget : db.getClaim env claimId = .ok (some c) := by
        unfold Db.getClaim
        rw [hkey]
        exact congrArg Except.ok hc
      have honly : (db.only t).getClaim env claimId = .ok (some c) := by
        unfold Db.getClaim
        rw [hkey]
        exact congrArg Except.ok ((findClaim_only_of_isOn h).trans hc)
      rw [claimAndTask_found hget, claimAndTask_found honly, htask, findTask_only]
  · cases h

theorem namesClaim_iff {claimId : Json} {c : WcpClaim} {r : WcpTask}
    (hct : claimAndTask env db claimId = .ok (c, r))
    (hfind : db.findClaim c.claimId = some c) :
    db.namesClaim env t claimId = true ↔ t = r.taskId := by
  obtain ⟨hholds, hkey⟩ := claimAndTask_key hct
  unfold Db.namesClaim Db.isOn
  rw [hkey]
  dsimp only
  rw [hfind, Option.any_some, hholds.same, decide_eq_true_iff]
  exact eq_comm

/-- A method that reads a claim with its task, and then writes rows of these. -/
theorem Projects.claim {claimId : Json} {k : WcpClaim × WcpTask → Action α} (hlinked : w.Linked env)
    (hk : ∀ c r, claimAndTask env w.db claimId = .ok (c, r) →
      Coupled (Beside env w r.taskId (some c)) (· = ·) (k (c, r)) (k (c, r))) :
    Projects env t (w.db.namesClaim env t claimId = true)
      (readDb (fun db => claimAndTask env db claimId) >>= k) w := by
  cases hct : claimAndTask env w.db claimId with
  | error e =>
      refine .raised hlinked (readDb_bind_error hct) fun hc => readDb_bind_error ?_
      exact (claimAndTask_only hc).trans hct
  | ok a =>
      obtain ⟨c, r⟩ := a
      obtain ⟨hholds, -⟩ := claimAndTask_key hct
      have hfind : w.db.findClaim c.claimId = some c := by
        cases hf : w.db.findClaim c.claimId with
        | none => exact absurd rfl (findClaim_eq_none hf c hholds.claim)
        | some c' =>
            obtain ⟨hmem, hid⟩ := findClaim_eq_some hf
            rw [List.inj_on_of_nodup_map hlinked.distinct hmem hholds.claim hid]
      have hnames : w.db.namesClaim env r.taskId claimId = true := (namesClaim_iff hct hfind).2 rfl
      have hstart : Beside env w r.taskId (some c) w (w.only r.taskId) := by
        refine ⟨hlinked, Nat.le_refl _, .refl _, fun _ _ => rfl, ⟨r, hholds.task, rfl⟩, ?_, rfl⟩
        intro c' hc'
        obtain rfl : c = c' := Option.some.inj hc'
        exact ⟨c, hfind, hholds.same, rfl⟩
      have honly : (readDb (fun db => claimAndTask env db claimId) >>= k) (w.only r.taskId) =
          k (c, r) (w.only r.taskId) :=
        readDb_bind_ok ((claimAndTask_only hnames).trans hct)
      have hwhole : (readDb (fun db => claimAndTask env db claimId) >>= k) w = k (c, r) w :=
        readDb_bind_ok hct
      obtain ⟨hagree, hbeside⟩ := hk c r hct w (w.only r.taskId) hstart
      refine .of_beside ?_ (?_ : Beside env w r.taskId (some c) _ _) (namesClaim_iff hct hfind)
      · rw [hwhole, honly]
        exact hagree
      · rw [hwhole, honly]
        exact hbeside

section Claim

variable {c : WcpClaim} {r : WcpTask} {claimId : Json}

theorem append_about (hct : claimAndTask env db claimId = .ok (c, r)) (eventType payload : Json)
    (actorDid : String) :
    Coupled (Beside env w₀ r.taskId (some c)) (· = ·)
      (append env eventType actorDid payload claimId (.str r.taskId) none)
      (append env eventType actorDid payload claimId (.str r.taskId) none) :=
  append_beside (claimAndTask_holds hct).2 fun _ => bindNullable_str

theorem insertSession_beside
    (hbind : ∀ id, env.bindColumn claimId = some id → id = c.claimId) (sessionId : String) :
    Coupled (Beside env w₀ o (some c)) (fun _ _ => True) (insertSession env sessionId claimId)
      (insertSession env sessionId claimId) := by
  unfold insertSession
  split
  · next id hid =>
      obtain rfl := hbind id hid
      exact session_beside rfl sessionId
  · exact doom_beside

/-- A column that admits no NULL stores the id of the claim that was found. -/
theorem bindColumn_of_claimAndTask (hct : claimAndTask env db claimId = .ok (c, r)) :
    ∀ id, env.bindColumn claimId = some id → id = c.claimId := by
  intro id hid
  exact Option.some.inj ((claimAndTask_holds hct).2 (some id) (bindNullable_of_bindColumn hid))

theorem executeOpen_projects (h : w.Linked env) (claimId : Json) :
    Projects env t (w.db.namesClaim env t claimId = true) (executeOpen env claimId) w := by
  refine .claim h fun c r hct => ?_
  refine Coupled.seq (Coupled.require _) fun _ _ => ?_
  refine Coupled.bindSame uuid4_beside fun sessionId => ?_
  refine Coupled.seq (insertSession_beside (bindColumn_of_claimAndTask hct) sessionId)
    fun _ _ => ?_
  refine Coupled.seq (setState_beside rfl _) fun _ _ => ?_
  refine Coupled.seq flush_beside fun _ _ => ?_
  exact Coupled.bindSame (append_about hct _ _ _) fun _ => Coupled.pure rfl

theorem recordHeartbeat_beside (c : WcpClaim) (eventType timestamp : Json) :
    Coupled (Beside env w₀ o (some c)) (fun _ _ => True)
      (recordHeartbeat env c eventType timestamp) (recordHeartbeat env c eventType timestamp) := by
  unfold recordHeartbeat
  split
  · refine Coupled.liftSame _ fun sentAt _ => ?_
    refine Coupled.seq (updateClaim_beside rfl ?_) fun _ _ => flush_beside
    exact fun _ => ⟨rfl, rfl, rfl⟩
  · exact Coupled.pure trivial

theorem executeEvent_projects (h : w.Linked env) (claimId eventType timestamp payload sig : Json) :
    Projects env t (w.db.namesClaim env t claimId = true)
      (executeEvent env claimId eventType timestamp payload sig) w := by
  refine .claim h fun c r hct => ?_
  refine Coupled.seq (Coupled.require _) fun _ _ => ?_
  refine Coupled.liftSame _ fun _ _ => ?_
  refine Coupled.seq (recordHeartbeat_beside c eventType timestamp) fun _ _ => ?_
  exact Coupled.bindSame (append_about hct _ _ _) fun _ => Coupled.pure rfl

theorem row_claimId_of_judge {workerId : String} {resolved : ResolvedDID} {taskPayload ev : Json}
    {verdict : EvidenceVerdict} {row : EvidenceRow}
    (hv : judgeEvidence env workerId resolved claimId taskPayload ev = .ok verdict)
    (hrow : verdict.row = some row) : row.claimId = claimId := by
  unfold judgeEvidence judgeEvidenceWith at hv
  simp only [bind_eq_ok] at hv
  obtain ⟨_, -, _, -, _, -, _, -, _, -, _, -, hv⟩ := hv
  split at hv
  · cases hv
    cases hrow
  · cases hv
  · obtain ⟨_, -, row', hrow', hv⟩ := by simpa only [bind_eq_ok] using hv
    cases hv
    cases hrow
    unfold evidenceRow at hrow'
    split at hrow'
    · simp only [bind_eq_ok] at hrow'
      obtain ⟨_, -, _, -, _, -, _, -, hrow'⟩ := hrow'
      cases hrow'
      rfl
    · cases hrow'

theorem recordEvidence_beside (c : WcpClaim) (outcome : VerificationOutcome) {row : EvidenceRow}
    (hbind : ∀ id, env.bindColumn row.claimId = some id → id = c.claimId) :
    Coupled (Beside env w₀ o (some c)) (fun _ _ => True) (recordEvidence env c outcome row)
      (recordEvidence env c outcome row) := by
  unfold recordEvidence
  refine Coupled.bindSame uuid4_beside fun attestationId => ?_
  split
  · next id _ _ _ hid _ _ _ => exact attestation_beside rfl (hbind id hid) rfl
  · exact doom_beside

theorem collectEvidence_beside (c : WcpClaim) (resolved : ResolvedDID) {claimId : Json}
    (hbind : ∀ id, env.bindColumn claimId = some id → id = c.claimId) (taskPayload : Json)
    (evs : List Json) :
    Coupled (Beside env w₀ o (some c)) (· = ·)
      (collectEvidence env c resolved claimId taskPayload evs)
      (collectEvidence env c resolved claimId taskPayload evs) := by
  induction evs with
  | nil => exact Coupled.pure rfl
  | cons ev evs ih =>
      unfold collectEvidence
      refine Coupled.liftSame _ fun verdict hverdict => ?_
      cases hrow : verdict.row with
      | none => exact Coupled.bindSame ih fun _ => Coupled.pure rfl
      | some row =>
          have hrowBind := row_claimId_of_judge hverdict hrow ▸ hbind
          refine Coupled.seq (recordEvidence_beside c _ hrowBind) fun _ _ => ?_
          exact Coupled.bindSame ih fun _ => Coupled.pure rfl

theorem routeDecision_beside (hct : claimAndTask env db claimId = .ok (c, r)) (attempt : Nat)
    (remaining : Int) (accountingRef : Json) (aggregate : VerificationOutcome) :
    Coupled (Beside env w₀ r.taskId (some c)) (fun _ _ => True)
      (routeDecision env r claimId attempt remaining accountingRef aggregate)
      (routeDecision env r claimId attempt remaining accountingRef aggregate) := by
  have hmove (state : TaskState) (eventType payload : Json) :
      Coupled (Beside env w₀ r.taskId (some c)) (fun _ _ => True)
        (do
          setState r state
          let _ ← append env eventType coordinatorDid payload claimId (.str r.taskId) none)
        (do
          setState r state
          let _ ← append env eventType coordinatorDid payload claimId (.str r.taskId) none) := by
    refine Coupled.seq (setState_beside rfl state) fun _ _ => ?_
    exact Coupled.bindSame (append_about hct _ _ _) fun _ => Coupled.pure trivial
  unfold routeDecision
  split
  · exact hmove _ _ _
  · split
    · exact hmove _ _ _
    · exact hmove _ _ _
  · exact Coupled.pure trivial

theorem attest_projects (h : w.Linked env) (claimId attestations : Json) :
    Projects env t (w.db.namesClaim env t claimId = true) (attest env claimId attestations) w := by
  refine .claim h fun c r hct => ?_
  refine Coupled.liftSame _ fun _ _ => ?_
  refine Coupled.liftSame _ fun req _ => ?_
  refine Coupled.liftSame _ fun taskPayload _ => ?_
  refine Coupled.liftSame _ fun limit _ => ?_
  refine Coupled.liftSame _ fun resolved _ => ?_
  refine Coupled.liftSame _ fun items _ => ?_
  have hbind := bindColumn_of_claimAndTask hct
  refine Coupled.bindSame (collectEvidence_beside c resolved hbind taskPayload items)
    fun outcomes => ?_
  refine Coupled.liftSame _ fun aggregate _ => ?_
  refine Coupled.seq (beginAttempt_beside rfl) fun _ _ => ?_
  refine Coupled.bindSame (append_about hct _ _ _) fun _ => ?_
  refine Coupled.liftSame _ fun accountingRef _ => ?_
  refine Coupled.seq (routeDecision_beside hct _ _ accountingRef aggregate) fun _ _ => ?_
  exact Coupled.seq flush_beside fun _ _ => Coupled.pure rfl

theorem supervise_projects (h : w.Linked env) (claimId handoffReason urgency : Json) :
    Projects env t (w.db.namesClaim env t claimId = true)
      (supervise env claimId handoffReason urgency) w := by
  refine .claim h fun c r hct => ?_
  refine Coupled.seq (Coupled.require _) fun _ _ => ?_
  refine Coupled.seq (setState_beside rfl _) fun _ _ => ?_
  refine Coupled.seq flush_beside fun _ _ => ?_
  refine Coupled.bindSame uuid4_beside fun sessionKey => ?_
  exact Coupled.bindSame (append_about hct _ _ _) fun _ => Coupled.pure rfl

theorem abort_projects (h : w.Linked env) (claimId reason stateSnapshot : Json) :
    Projects env t (w.db.namesClaim env t claimId = true)
      (abort env claimId reason stateSnapshot) w := by
  refine .claim h fun c r hct => ?_
  refine Coupled.seq (Coupled.require _) fun _ _ => ?_
  refine Coupled.seq (setState_beside rfl _) fun _ _ => ?_
  refine Coupled.liftSame _ fun accountingRef _ => ?_
  refine Coupled.seq flush_beside fun _ _ => ?_
  refine Coupled.bindSame (append_about hct _ _ _) fun _ => ?_
  exact Coupled.bindSame uuid4_beside fun _ => Coupled.pure rfl

end Claim

/-! ## New rows -/

theorem Projects.uuid4 {C : Prop} {f : String → Action α}
    (h : Projects env t C (f (env.uuid w.tick)) { w with tick := w.tick + 1 }) :
    Projects env t C (uuid4 env >>= f) w :=
  ⟨h.linked, Nat.le_of_succ_le h.tick, h.aside, h.same⟩

theorem Projects.utcnow {C : Prop} {f : DateTime → Action α}
    (h : Projects env t C (f (.utc (env.clock w.tick))) { w with tick := w.tick + 1 }) :
    Projects env t C (utcnow env >>= f) w :=
  ⟨h.linked, Nat.le_of_succ_le h.tick, h.aside, h.same⟩

theorem Projects.lift {C : Prop} {x : Except Err α} {f : α → Action β} (hlinked : w.Linked env)
    (h : ∀ a, x = .ok a → Projects env t C (f a) w) :
    Projects env t C (Exec.lift x >>= f) w := by
  cases x with
  | error e => exact .raised hlinked rfl fun _ => rfl
  | ok a => exact h a rfl

theorem Projects.read {C : Prop} {g : Db → Except Err α} {f : α → Action β}
    (hlinked : w.Linked env) (hsame : C → g (w.db.only t) = g w.db)
    (h : ∀ a, g w.db = .ok a → Projects env t C (f a) w) :
    Projects env t C (readDb g >>= f) w := by
  cases hg : g w.db with
  | error e =>
      exact .raised hlinked (readDb_bind_error hg) fun hc => readDb_bind_error ((hsame hc).trans hg)
  | ok a =>
      have hwhole : (readDb g >>= f) w = f a w := readDb_bind_ok hg
      obtain ⟨hlinked', htick, haside, hsame'⟩ := h a hg
      refine ⟨hwhole ▸ hlinked', hwhole ▸ htick, hwhole ▸ haside, fun hc => ?_⟩
      have honly : (readDb g >>= f) (w.only t) = f a (w.only t) :=
        readDb_bind_ok ((hsame hc).trans hg)
      rw [hwhole, honly, hsame' hc]

theorem Projects.opened {C : Prop} {m : Action Unit} {f : Unit → Action α} {w₁ w₁' : World}
    (hm : m w = (.ok (), w₁)) (hm' : m (w.only o) = (.ok (), w₁'))
    (hbeside : Beside env w o own w₁ w₁') (hiff : C ↔ t = o)
    (hf : Coupled (Beside env w o own) (· = ·) (f ()) (f ())) :
    Projects env t C (m >>= f) w := by
  obtain ⟨hagree, hrest⟩ := hf w₁ w₁' hbeside
  refine .of_beside ?_ (?_ : Beside env w o own _ _) hiff
  · rw [bind_ok hm, bind_ok hm']
    exact hagree
  · rw [bind_ok hm, bind_ok hm']
    exact hrest

/-! ## tasks/post -/

def postsTask (env : Env) (w : World) (t : String) (task expiry : Json) : Bool :=
  match postChecks env (env.uuid w.tick) task expiry with
  | .ok plan => env.bindColumn plan.taskId = some t
  | .error _ => false

theorem beside_inserted (h : w.Linked env) (row : WcpTask) :
    Beside env w row.taskId none { w with db := { w.db with tasks := w.db.tasks ++ [row] } }
      { w.only row.taskId with db := { w.db.only row.taskId with
        tasks := (w.db.only row.taskId).tasks ++ [row] } } := by
  have hholding : w.db.Holding { w.db with tasks := w.db.tasks ++ [row] } :=
    ⟨fun r hr => ⟨r, List.mem_append_left _ hr, rfl⟩, fun r hr => ⟨r, hr, rfl⟩,
      fun _ c hc => ⟨c, hc, rfl, rfl⟩⟩
  refine ⟨?_, Nat.le_refl _, hholding, fun s hs => ?_, ⟨row, ?_, rfl⟩, fun c hc => ?_, ?_⟩
  · exact h.write hholding (Nat.le_refl _) (fun c hc => .inl ⟨c, hc, rfl, rfl, rfl⟩) h.distinct
      (fun _ hs => .inl hs) (fun _ ha => .inl ha) fun _ he => .inl he
  · have hne : row.taskId ≠ s := fun heq => hs heq.symm
    unfold Db.only
    rw [@isOn_of_claims w.db { w.db with tasks := w.db.tasks ++ [row] } rfl]
    dsimp only
    rw [List.filter_append]
    simp [hne]
  · exact List.mem_append_right _ (List.mem_singleton_self _)
  · cases hc
  · unfold World.only Db.only
    rw [@isOn_of_claims w.db { w.db with tasks := w.db.tasks ++ [row] } rfl]
    dsimp only
    rw [List.filter_append]
    simp

theorem countEligible_beside (task : Json) :
    Coupled (Beside env w₀ o own) (· = ·) (readDb fun db => countEligible env db task)
      (readDb fun db => countEligible env db task) := by
  refine Coupled.reads fun w w' h => ?_
  have hworkers : w'.db.workers = w.db.workers := by
    rw [h.projected]
    rfl
  show Agree _ (countEligible env w.db task) (countEligible env w'.db task)
  unfold countEligible matchingWorkers candidateWorkers
  rw [hworkers]
  exact Agree.refl (fun _ => rfl) _

/-- `insertTask` refuses, or inserts a row under the id that the driver stores. -/
theorem insertTask_uniform (env : Env) (plan : PostPlan) (postedAt : DateTime) :
    (∀ w, insertTask env plan postedAt w = (.error (.raised .database), w)) ∨
    ∃ row : WcpTask, env.bindColumn plan.taskId = some row.taskId ∧
      ∀ w, insertTask env plan postedAt w =
        if (w.db.findTask row.taskId).isSome then (.error (.raised .database), w)
        else (.ok (), { w with db := { w.db with tasks := w.db.tasks ++ [row] } }) := by
  unfold insertTask
  cases hid : env.bindColumn plan.taskId with
  | none => exact .inl fun _ => rfl
  | some id =>
      cases env.bindColumn (.str plan.postedBy) with
      | none => exact .inl fun _ => rfl
      | some _ =>
          cases env.bindColumn (plan.descriptorType.or (.str "unknown")) with
          | none => exact .inl fun _ => rfl
          | some descriptorType => exact .inr ⟨⟨id, _, _, _, _, _, _, _⟩, rfl, fun _ => rfl⟩

theorem post_projects (h : w.Linked env) (task expiry informational : Json) :
    Projects env t (postsTask env w t task expiry = true)
      (post env task expiry informational) w := by
  unfold post
  refine .uuid4 ?_
  have hconcerned : ∀ plan, postChecks env (env.uuid w.tick) task expiry = .ok plan →
      (postsTask env w t task expiry = true ↔ env.bindColumn plan.taskId = some t) := by
    intro plan hplan
    unfold postsTask
    rw [hplan]
    exact decide_eq_true_iff
  refine .lift (h.ticked (Nat.le_succ _) _) fun plan hplan => .utcnow ?_
  have hlinked := h.ticked (show w.tick ≤ w.tick + 1 + 1 by omega) w.doomed
  rw [hconcerned plan hplan]
  have hraised : ∀ {C : Prop} {f : Unit → Action Json} {v : World} {m : Action Unit},
      v.Linked env → m v = (.error (.raised .database), v) →
      (C → m (v.only t) = (.error (.raised .database), v.only t)) →
      Projects env t C (m >>= f) v :=
    fun hv hm honly => .raised hv (bind_error hm) fun hc => bind_error (honly hc)
  rcases insertTask_uniform env plan (.utc (env.clock (w.tick + 1))) with
    hrefused | ⟨row, hid, hinsert⟩
  · exact hraised hlinked (hrefused _) fun _ => hrefused _
  · rw [hid]
    by_cases htaken : (w.db.findTask row.taskId).isSome = true
    · refine hraised hlinked ((hinsert _).trans (if_pos htaken)) fun hc => ?_
      refine (hinsert _).trans (if_pos ?_)
      obtain rfl := Option.some.inj hc
      show ((w.db.only row.taskId).findTask row.taskId).isSome = true
      rw [findTask_only]
      exact htaken
    · have honly : ¬ ((w.db.only row.taskId).findTask row.taskId).isSome = true := by
        rw [findTask_only]
        exact htaken
      refine .opened (o := row.taskId) ((hinsert _).trans (if_neg htaken))
        ((hinsert _).trans (if_neg honly)) (beside_inserted hlinked row) ?_ ?_
      · rw [Option.some.injEq]
        exact eq_comm
      · refine Coupled.liftSame _ fun accountingRef _ => ?_
        refine Coupled.bindSame (append_beside ?_ ?_) fun _ => ?_
        · intro id hbind
          cases hbind
          rfl
        · intro id hbind
          rw [bindNullable_of_bindColumn hid] at hbind
          exact (Option.some.inj hbind).symm
        · exact Coupled.bindSame (countEligible_beside _) fun _ => Coupled.pure rfl

/-! ## tasks/claim -/

theorem findClaim_concat {c : WcpClaim} {id : String} {found : WcpClaim}
    (h : db.findClaim id = some found) :
    ({ db with claims := db.claims ++ [c] } : Db).findClaim id = some found := by
  unfold Db.findClaim at h ⊢
  rw [List.find?_append, h, Option.some_or]

theorem only_claim (c : WcpClaim)
    (hsessions : ∀ s ∈ db.sessions, ∃ found, db.findClaim s.claimId = some found)
    (hattestations : ∀ a ∈ db.attestations, ∃ found, db.findClaim a.claimId = some found) :
    ({ db with claims := db.claims ++ [c] } : Db).only t = { db.only t with
      claims := (db.only t).claims ++ if c.taskId = t then [c] else [] } := by
  have hon : ∀ id found, db.findClaim id = some found →
      ({ db with claims := db.claims ++ [c] } : Db).isOn t id = db.isOn t id := by
    intro id found hfound
    unfold Db.isOn
    rw [findClaim_concat hfound, hfound]
  unfold Db.only
  simp only [Db.mk.injEq, true_and, and_true]
  refine ⟨?_, ?_, ?_⟩
  · rw [List.filter_append]
    by_cases h : c.taskId = t <;> simp [h]
  · refine List.filter_congr fun s hs => ?_
    obtain ⟨found, hfound⟩ := hsessions s hs
    exact hon _ found hfound
  · refine List.filter_congr fun a ha => ?_
    obtain ⟨found, hfound⟩ := hattestations a ha
    exact hon _ found hfound

/-- A claim with a new id, of a worker that is there, on a task that is there. -/
theorem beside_claim {c : WcpClaim} (h : Beside env w₀ o none w w') (htask : c.taskId = o)
    (hworker : ∃ r ∈ w.db.workers, r.workerId = c.workerId)
    (hdrawn : ∃ n < w.tick, c.claimId = env.uuid n) (hfresh : w.db.findClaim c.claimId = none) :
    Beside env w₀ o (some c) { w with db := { w.db with claims := w.db.claims ++ [c] } }
      { w' with db := { w'.db with claims := w'.db.claims ++ [c] } } := by
  obtain rfl := h.projected
  have hattestations : ∀ a ∈ w.db.attestations, ∃ found, w.db.findClaim a.claimId = some found := by
    intro a ha
    obtain ⟨found, hfound, -⟩ := h.linked.attestations a ha
    exact ⟨found, hfound⟩
  have honly := fun t => only_claim (t := t) c h.linked.sessions hattestations
  have hnew : ({ w.db with claims := w.db.claims ++ [c] } : Db).findClaim c.claimId = some c := by
    unfold Db.findClaim at hfresh ⊢
    rw [List.find?_append, hfresh]
    simp
  have hholding : w.db.Holding { w.db with claims := w.db.claims ++ [c] } :=
    ⟨fun r hr => ⟨r, hr, rfl⟩, fun r hr => ⟨r, hr, rfl⟩,
      fun _ found hfound => ⟨found, findClaim_concat hfound, rfl, rfl⟩⟩
  refine ⟨?_, h.tick, h.holding.trans hholding, fun t ht => ?_, h.task, fun c' hc' => ?_, ?_⟩
  · refine h.linked.write hholding (Nat.le_refl _)
      (fun x hx => ?_) ?_ (fun _ hs => .inl hs) (fun _ ha => .inl ha) fun _ he => .inl he
    · rcases List.mem_append.1 hx with hx | hx
      · exact .inl ⟨x, hx, rfl, rfl, rfl⟩
      · obtain rfl := List.mem_singleton.1 hx
        obtain ⟨r, hr, hid⟩ := h.task
        exact .inr ⟨⟨r, hr, hid.trans htask.symm⟩, hworker, hdrawn⟩
    · show ((w.db.claims ++ [c]).map _).Nodup
      rw [List.map_append, List.map_singleton]
      refine List.nodup_append'.2 ⟨h.linked.distinct, List.nodup_singleton _, ?_⟩
      rw [List.disjoint_singleton]
      intro hmem
      obtain ⟨x, hx, hid⟩ := List.mem_map.1 hmem
      exact findClaim_eq_none hfresh x hx hid
  · show ({ w.db with claims := w.db.claims ++ [c] } : Db).only t = _
    rw [honly, if_neg (by rw [htask]; exact fun heq => ht heq.symm), List.append_nil]
    exact h.frame t ht
  · obtain rfl : c = c' := Option.some.inj hc'
    exact ⟨c, hnew, htask, rfl⟩
  · unfold World.only
    rw [honly, if_pos htask]

theorem claimWrite_uniform (env : Env) (task : WcpTask) (worker : WcpWorker) (eta : DateTime)
    (acceptance bid : Json) (now : DateTime) (claimId : String) :
    (∀ w, claimWrite env task worker eta acceptance bid now claimId w =
      (.error (.raised .database), w)) ∨
    ∃ c : WcpClaim, c.claimId = claimId ∧ c.taskId = task.taskId ∧ c.workerId = worker.workerId ∧
      ∀ w, claimWrite env task worker eta acceptance bid now claimId w =
        if (w.db.findClaim claimId).isSome then (.error (.raised .database), w)
        else (.ok (), { w with db :=
          { w.db.updateTask task.taskId fun t => { t with state := .claimed }
            with claims := w.db.claims ++ [c] } }) := by
  unfold claimWrite
  cases env.bindNullable bid with
  | none => exact .inl fun _ => rfl
  | some bidAmount => exact .inr ⟨⟨claimId, _, _, _, _, _, _, _⟩, rfl, rfl, rfl, fun _ => rfl⟩

def namesTask (env : Env) (t : String) (taskId : Json) : Bool :=
  match env.lookupKey "task_id" taskId with
  | .ok (some id) => id = t
  | _ => false

theorem namesTask_iff {taskId : Json} :
    namesTask env t taskId = true ↔ env.lookupKey "task_id" taskId = .ok (some t) := by
  unfold namesTask
  split
  · next id hkey =>
      rw [hkey, decide_eq_true_iff, Except.ok.injEq, Option.some.injEq]
  · next hnot => exact ⟨fun h => absurd h (by simp), fun h => absurd h (hnot t)⟩

/-- A claim on the task, whose new id is the id of no claim. -/
def claimsTask (env : Env) (w : World) (t : String) (taskId : Json) : Bool :=
  namesTask env t taskId && (w.db.findClaim (env.uuid (w.tick + 1 + 1))).isNone

theorem claimsTask_iff {taskId : Json} : claimsTask env w t taskId = true ↔
    env.lookupKey "task_id" taskId = .ok (some t) ∧
      w.db.findClaim (env.uuid (w.tick + 1 + 1)) = none := by
  unfold claimsTask
  rw [Bool.and_eq_true_iff, namesTask_iff, Option.isNone_iff_eq_none]

theorem claim_projects (h : w.Linked env) (taskId workerId eta acceptance bid : Json) :
    Projects env t (claimsTask env w t taskId = true)
      (claim env taskId workerId eta acceptance bid) w := by
  rw [claimsTask_iff]
  unfold claim
  refine .read h (fun hc => ?_) fun task htask => .utcnow ?_
  · unfold claimLoadTask Db.getTask
    rw [hc.1]
    exact congrArg
      (fun found => Except.ok (Option.bind (some t) fun _ => found) >>= _) findTask_only
  obtain ⟨hkey, hmem, -⟩ := claimLoadTask_eq_ok htask
  have h₁ := h.ticked (Nat.le_succ _) w.doomed
  refine .lift h₁ fun _ _ => .read h₁ (fun _ => rfl) fun worker hworker => ?_
  refine .lift h₁ fun resolved _ => .read h₁ (fun hc => ?_) fun _ _ => ?_
  · -- only claims on the task are looked for
    have hany : (w.db.only t).claims.any
        (fun c => decide (some c.taskId = some t) && c.accepted) =
        w.db.claims.any fun c => decide (some c.taskId = some t) && c.accepted := by
      show (w.db.claims.filter _).any _ = _
      rw [List.any_filter]
      congr 1
      funext c
      by_cases htask : c.taskId = t <;> simp [htask]
    unfold claimCheckExisting
    cases hcompared : env.comparedText taskId with
    | error e => rfl
    | ok key =>
        obtain rfl := comparedText_of_lookupKey hc.1 hcompared
        exact congrArg (fun existing : Bool => Except.ok (some t) >>= fun _ =>
          ensure (existing = false) _) hany
  refine .lift h₁ fun etaTime _ => .utcnow (.uuid4 ?_)
  have h₃ : World.Linked env ⟨w.db, w.tick + 1 + 1 + 1, w.doomed⟩ :=
    h.ticked (show w.tick ≤ w.tick + 1 + 1 + 1 by omega) w.doomed
  rcases claimWrite_uniform env task worker etaTime acceptance bid
    (.utc (env.clock (w.tick + 1))) (env.uuid (w.tick + 1 + 1)) with
    hrefused | ⟨c, hid, htaskId, hworkerId, hwrite⟩
  · exact .raised h₃ (bind_error (hrefused _)) fun _ => bind_error (hrefused _)
  by_cases hfresh : w.db.findClaim (env.uuid (w.tick + 1 + 1)) = none
  · have hiff : env.lookupKey "task_id" taskId = .ok (some t) ∧
        w.db.findClaim (env.uuid (w.tick + 1 + 1)) = none ↔ t = task.taskId := by
      rw [hkey, Except.ok.injEq, Option.some.injEq, and_iff_left hfresh]
      exact eq_comm
    have hfree : ¬ (w.db.findClaim (env.uuid (w.tick + 1 + 1))).isSome = true := by
      rw [hfresh]
      simp
    have hfree' : ¬ ((w.db.only task.taskId).findClaim
        (env.uuid (w.tick + 1 + 1))).isSome = true := by
      rw [findClaim_only_none hfresh]
      simp
    have hstart : Beside env ⟨w.db, w.tick + 1 + 1 + 1, w.doomed⟩ task.taskId none
        ⟨w.db, w.tick + 1 + 1 + 1, w.doomed⟩
        (World.only task.taskId ⟨w.db, w.tick + 1 + 1 + 1, w.doomed⟩) :=
      ⟨h₃, Nat.le_refl _, .refl _, fun _ _ => rfl, ⟨task, hmem, rfl⟩,
        fun _ hc => absurd hc (by simp), rfl⟩
    have hupdated := (updateTask_beside (f := fun t => { t with state := .claimed })
      (fun _ => rfl) _ _ hstart).2
    have hclaimed := beside_claim (c := c) hupdated htaskId
      ⟨worker, (claimLoadWorker_eq_ok hworker).2, hworkerId.symm⟩
      ⟨w.tick + 1 + 1, Nat.lt_succ_self _, hid⟩ (by rw [hid]; exact hfresh)
    refine .opened ((hwrite _).trans (if_neg hfree)) ((hwrite _).trans (if_neg hfree')) hclaimed
      hiff ?_
    refine Coupled.bindSame (append_beside ?_ ?_) fun _ => Coupled.pure rfl
    · intro id hbind
      rw [bindNullable_str hbind, ← hid]
      rfl
    · intro id hbind
      exact bindNullable_of_lookupKey hkey hbind
  · have htaken := (hwrite ⟨w.db, w.tick + 1 + 1 + 1, w.doomed⟩).trans
      (if_pos (Option.isSome_iff_ne_none.2 hfresh))
    exact .raised h₃ (bind_error htaken) fun hc => absurd hc.2 hfresh

/-! ## capabilities/upsert and capabilities/subscribe -/

theorem Projects.require {C c : Prop} [Decidable c] {e : Err} {f : Unit → Action α}
    (hlinked : w.Linked env) (h : Projects env t C (f ()) w) :
    Projects env t C (Exec.require c e >>= f) w := by
  unfold Exec.require
  by_cases hc : c
  · rw [if_pos hc]
    exact h
  · rw [if_neg hc]
    exact .raised hlinked rfl fun _ => rfl

/-- A state, and the database of a task in it; the workers are common to all tasks. -/
structure Shared (env : Env) (w₀ : World) (t : String) (w w' : World) : Prop where
  linked : w.Linked env
  tick : w₀.tick ≤ w.tick
  projected : w' = w.only t

theorem flush_shared : Coupled (Shared env w₀ t) (fun _ _ => True) flush flush := by
  intro w w' h
  obtain rfl := h.projected
  unfold flush
  cases hdoomed : w.doomed with
  | true =>
      rw [if_pos rfl, if_pos (show (w.only t).doomed = true from hdoomed)]
      exact ⟨rfl, h⟩
  | false =>
      rw [if_neg (by simp), if_neg (show ¬ (w.only t).doomed = true by simp [World.only, hdoomed])]
      exact ⟨trivial, h⟩

theorem doom_shared : Coupled (Shared env w₀ t) (fun _ _ => True) doom doom := by
  intro w w' h
  obtain rfl := h.projected
  exact ⟨trivial, h.linked.ticked (Nat.le_refl _) _, h.tick, rfl⟩

theorem workers_shared {g : List WcpWorker → List WcpWorker}
    (hg : ∀ rs, ∀ r ∈ rs, ∃ r' ∈ g rs, r'.workerId = r.workerId) :
    Coupled (Shared env w₀ t) (fun _ _ => True)
      (writeDb fun db => { db with workers := g db.workers })
      (writeDb fun db => { db with workers := g db.workers }) := by
  intro w w' h
  obtain rfl := h.projected
  refine ⟨trivial, ?_, h.tick, rfl⟩
  refine h.linked.write ⟨fun r hr => ⟨r, hr, rfl⟩, hg _, fun _ c hc => ⟨c, hc, rfl, rfl⟩⟩
    (Nat.le_refl _) (fun c hc => .inl ⟨c, hc, rfl, rfl, rfl⟩) h.linked.distinct
    (fun _ hs => .inl hs) (fun _ ha => .inl ha) fun _ he => .inl he

theorem storeWorker_shared (existing : Option WcpWorker) (did : String) (workerClass : WorkerClass)
    (capabilities principalId ttlSeconds : Json) (asOf : DateTime) :
    Coupled (Shared env w₀ t) (fun _ _ => True)
      (storeWorker env existing did workerClass capabilities principalId ttlSeconds asOf)
      (storeWorker env existing did workerClass capabilities principalId ttlSeconds asOf) := by
  unfold storeWorker
  split
  · refine Coupled.seq (workers_shared (g := fun rs => rs ++ [_]) fun rs r hr => ?_)
      fun _ _ => flush_shared
    exact ⟨r, List.mem_append_left _ hr, rfl⟩
  · next principal row _ _ =>
      exact workers_shared (g := fun rs => rs.map fun r =>
        if r.workerId = row.workerId then { r with
          principalId := principal
          workerClass := workerClass
          capabilitiesJson := capabilities
          revision := r.revision + 1
          ttlSeconds := ttlSeconds
          asOf := env.storeTime asOf } else r) fun rs r hr =>
        ⟨_, List.mem_map_of_mem hr, by split <;> rfl⟩
  · exact Coupled.seq doom_shared fun _ _ => flush_shared
  · exact doom_shared

theorem Projects.of_shared {m : Action α} (hlinked : w.Linked env)
    (hm : Coupled (Shared env w t) (· = ·) m m) : Projects env t True m w := by
  obtain ⟨hagree, hshared⟩ := hm w (w.only t) ⟨hlinked, Nat.le_refl _, rfl⟩
  exact ⟨hshared.linked, hshared.tick, fun hnot => absurd trivial hnot,
    fun _ => Prod.ext hagree.eq.symm hshared.projected⟩

theorem upsertCapabilities_projects (h : w.Linked env)
    (workerId capabilities principalId ttlSeconds : Json) :
    Projects env t True
      (upsertCapabilities env workerId capabilities principalId ttlSeconds) w := by
  unfold upsertCapabilities
  refine .lift h fun resolved _ => .lift h fun version _ => .require h ?_
  refine .lift h fun classText _ => .lift h fun workerClass _ => ?_
  refine .read h (fun _ => rfl) fun existing _ => .utcnow ?_
  refine .of_shared (h.ticked (Nat.le_succ _) w.doomed) ?_
  exact Coupled.seq (storeWorker_shared existing _ _ _ _ _ _) fun _ _ => Coupled.pure rfl

/-- A method that writes to nothing but the subscriptions concerns no task. -/
theorem Projects.of_subscriptions {m : Action α} (h : w.Linked env) (hm : ∃ rows doomed,
    (m w).2 = ⟨{ w.db with subscriptions := rows }, w.tick, doomed⟩) :
    Projects env t False m w := by
  obtain ⟨rows, doomed, hm⟩ := hm
  refine ⟨?_, ?_, fun _ => ?_, False.elim⟩
  · rw [hm]
    exact ⟨h.claims, h.drawn, h.distinct, h.sessions, h.attestations, h.entries⟩
  · rw [hm]
  · rw [hm]
    rfl

theorem flush_bind_pure (a : α) (w : World) : ((flush >>= fun _ => pure a) w).2 = w := by
  rw [Exec.bind_pure_apply]
  unfold flush
  split <;> rfl

theorem createSubscription_projects (h : w.Linked env)
    (agentDid filterDict sinceRevision : Json) :
    Projects env t False (createSubscription env agentDid filterDict sinceRevision) w := by
  unfold createSubscription
  refine .lift h fun resolved _ => .uuid4 ?_
  refine .of_subscriptions (h.ticked (Nat.le_succ _) w.doomed) ?_
  dsimp only
  split
  · exact ⟨_, _, flush_bind_pure _ _⟩
  · exact ⟨w.db.subscriptions, true, rfl⟩

/-! ## The heartbeat sweep -/

/-- A computation that writes rows of one task, and what comes after it. -/
theorem ends_beside {m : Action α} {f : α → Action β} {P : Except Err β → World → Prop}
    (hm : Coupled (Beside env w₀ o own) (fun _ _ => True) m m) (h : Beside env w₀ o own w w')
    (hok : ∀ a v v', Beside env w₀ o own v v' → Ends (f a) v P)
    (herr : ∀ e v v', Beside env w₀ o own v v' → P (.error e) v) : Ends (m >>= f) w P := by
  obtain ⟨-, hafter⟩ := hm w w' h
  apply Ends.bind
  unfold Ends
  cases (m w).1 with
  | ok a => exact hok a _ _ hafter
  | error e => exact herr e _ _ hafter

/-- The task of a row is stored, and its claim is stored and on the task. -/
def Db.Anchors (db : Db) (row : WcpClaim × WcpTask) : Prop :=
  (∃ r ∈ db.tasks, r.taskId = row.2.taskId) ∧
    ∃ c, db.findClaim row.1.claimId = some c ∧ c.taskId = row.2.taskId ∧
      c.workerId = row.1.workerId

theorem Db.Anchors.kept {db' : Db} {row : WcpClaim × WcpTask} (h : db.Anchors row)
    (hholding : db.Holding db') : db'.Anchors row := by
  obtain ⟨⟨r, hr, hid⟩, c, hc, htask, hworker⟩ := h
  obtain ⟨r', hr', hid'⟩ := hholding.tasks r hr
  obtain ⟨c', hc', htask', hworker'⟩ := hholding.claims _ c hc
  exact ⟨⟨r', hr', hid'.trans hid⟩, c', hc', htask'.trans htask, hworker'.trans hworker⟩

theorem World.Linked.anchors (h : w.Linked env) {row : WcpClaim × WcpTask}
    (hrow : row ∈ w.db.executingRows) : w.db.Anchors row := by
  obtain ⟨r, ⟨hc, hr, hsame⟩, hid, -⟩ := executingRows_pending hrow
  refine ⟨⟨r, hr, hid⟩, row.1, ?_, hsame.trans hid, rfl⟩
  cases hfind : w.db.findClaim row.1.claimId with
  | none => exact absurd rfl (findClaim_eq_none hfind row.1 hc)
  | some c =>
      obtain ⟨hmem, hclaim⟩ := findClaim_eq_some hfind
      rw [List.inj_on_of_nodup_map h.distinct hmem hc hclaim]

/-- The rows still refer to each other, and time went on. -/
def StaysLinked (env : Env) (w : World) (_ : Except Err α) (v : World) : Prop :=
  v.Linked env ∧ w.tick ≤ v.tick

theorem StaysLinked.since {r : Except Err α} {v : World} (h : StaysLinked env w' r v)
    (htick : w.tick ≤ w'.tick) :
    StaysLinked env w r v :=
  ⟨h.1, htick.trans h.2⟩

theorem StaysLinked.map {m : Action α} (f : α → β) (h : Ends m w (StaysLinked env w)) :
    Ends (m >>= fun a => pure (f a)) w (StaysLinked env w) := by
  unfold Ends at h ⊢
  rw [Exec.bind_pure_apply]
  exact h

theorem promoteStale_links (cutoff : DateTime) {rows : List (WcpClaim × WcpTask)}
    (h : w.Linked env) (hrows : ∀ row ∈ rows, w.db.Anchors row) :
    Ends (promoteStale env cutoff rows) w (StaysLinked env w) := by
  induction rows generalizing w with
  | nil => exact ⟨h, Nat.le_refl _⟩
  | cons row rows ih =>
      obtain ⟨c, task⟩ := row
      have hrest := fun row hrow => hrows row (List.mem_cons_of_mem _ hrow)
      obtain ⟨htask, hclaim⟩ := hrows _ List.mem_cons_self
      unfold promoteStale
      cases c.lastHeartbeatAt with
      | none => exact ih h hrest
      | some hb =>
          refine Ends.lift_bind (fun stale _ => ?_) fun e _ => ⟨h, Nat.le_refl _⟩
          split
          · have hstart : Beside env w task.taskId (some c) w (w.only task.taskId) := by
              refine ⟨h, Nat.le_refl _, .refl _, fun _ _ => rfl, htask, fun c' hc' => ?_, rfl⟩
              obtain rfl : c = c' := Option.some.inj hc'
              exact hclaim
            have herr : ∀ (e : Err) (v v' : World), Beside env w task.taskId (some c) v v' →
                StaysLinked env w (.error e : Except Err (List String)) v :=
              fun _ _ _ hv => ⟨hv.linked, hv.tick⟩
            refine ends_beside (setState_beside rfl _) hstart (fun _ v v' hv => ?_) herr
            have happend : Coupled (Beside env w task.taskId (some c)) (· = ·)
                (append env (.str "heartbeat_timeout") coordinatorDid
                  (.obj [
                    ("claim_id", .str c.claimId),
                    ("last_heartbeat_at", .str hb.isoformat),
                    ("handoff_reason", .str "connectivity_lost")])
                  (.str c.claimId) (.str task.taskId) none) (append env _ _ _ _ _ none) :=
              append_beside (fun _ => bindNullable_str) fun _ => bindNullable_str
            refine ends_beside (happend.mono fun _ _ _ => trivial) hv (fun _ u u' hu => ?_) herr
            have htail := ih hu.linked fun row hrow => (hrest row hrow).kept hu.holding
            exact (StaysLinked.map _ htail).mono fun _ _ hx => hx.since hu.tick
          · exact ih h hrest

theorem checkHeartbeats_links (h : w.Linked env) (now : Option DateTime) :
    Ends (checkHeartbeats env now) w (StaysLinked env w) := by
  have hsweep : ∀ (cutoff : Except Err DateTime) (v : World), v.Linked env → w.tick ≤ v.tick →
      Ends (do
        let cutoff ← Exec.lift cutoff
        let staleRows ← readDb fun db => Except.ok db.executingRows
        promoteStale env cutoff staleRows) v (StaysLinked env w) := by
    intro cutoff v hv htick
    refine Ends.lift_bind (fun cutoff _ => ?_) fun e _ => ⟨hv, htick⟩
    refine readDb_bind (fun rows hrows => ?_) fun e he => by cases he
    cases hrows
    exact (promoteStale_links cutoff hv fun row hrow => hv.anchors hrow).mono fun _ _ hu =>
      hu.since htick
  unfold checkHeartbeats
  cases now with
  | none => exact utcnow_bind (hsweep _ _ (h.ticked (Nat.le_succ _) _) (Nat.le_succ _))
  | some now => exact hsweep _ w h (Nat.le_refl _)

/-! ## One call -/

/-- A call that sweeps the claims of all tasks. -/
def Call.sweeps : Call → Bool
  | .checkHeartbeats _ => true
  | _ => false

/-- A call that is about the task, or about the workers that all tasks have in common. -/
def Call.concerns (env : Env) (t : String) (w : World) : Call → Bool
  | .post task expiry _ => postsTask env w t task expiry
  | .claim taskId _ _ _ _ => claimsTask env w t taskId
  | .executeOpen claimId => w.db.namesClaim env t claimId
  | .executeEvent claimId _ _ _ _ => w.db.namesClaim env t claimId
  | .checkHeartbeats _ => true
  | .attest claimId _ => w.db.namesClaim env t claimId
  | .supervise claimId _ _ => w.db.namesClaim env t claimId
  | .abort claimId _ _ => w.db.namesClaim env t claimId
  | .upsertCapabilities _ _ _ _ => true
  | .createSubscription _ _ _ => false

theorem Projects.map {C : Prop} {m : Action α} (f : α → β) (h : Projects env t C m w) :
    Projects env t C (m >>= fun a => pure (f a)) w := by
  have hrun := fun v => Exec.bind_pure_apply m f v
  obtain ⟨hlinked, htick, haside, hsame⟩ := h
  refine ⟨?_, ?_, fun hnot => ?_, fun hc => ?_⟩
  · rw [hrun]
    exact hlinked
  · rw [hrun]
    exact htick
  · rw [hrun]
    exact haside hnot
  · rw [hrun, hrun, hsame hc]

theorem serviceMethod_projects (h : w.Linked env) (t : String) {call : Call}
    (hcall : call.sweeps = false) :
    Projects env t (call.concerns env t w = true) (serviceMethod env call) w := by
  cases call with
  | post task expiry informational => exact post_projects h task expiry informational
  | claim taskId workerId eta acceptance bid =>
      exact claim_projects h taskId workerId eta acceptance bid
  | executeOpen claimId => exact executeOpen_projects h claimId
  | executeEvent claimId eventType timestamp payload sig =>
      exact executeEvent_projects h claimId eventType timestamp payload sig
  | checkHeartbeats now => cases hcall
  | attest claimId attestations => exact (attest_projects h claimId attestations).map _
  | supervise claimId handoffReason urgency =>
      exact supervise_projects h claimId handoffReason urgency
  | abort claimId reason stateSnapshot => exact abort_projects h claimId reason stateSnapshot
  | upsertCapabilities workerId capabilities principalId ttlSeconds =>
      refine (upsertCapabilities_projects h workerId capabilities principalId ttlSeconds).congr ?_
      exact ⟨fun _ => rfl, fun _ => trivial⟩
  | createSubscription agentDid filterDict sinceRevision =>
      refine (createSubscription_projects h agentDid filterDict sinceRevision).congr ?_
      exact ⟨False.elim, fun hc => absurd hc (by simp [Call.concerns])⟩

/-! ## Whole runs -/

theorem settle_links {m : Action α} (h : w.Linked env) (hm : Ends m w (StaysLinked env w)) :
    (w.settle (m w)).Linked env := by
  obtain ⟨hlinked, htick⟩ := hm
  have hundone := h.ticked htick false
  rcases hmw : m w with ⟨r, v⟩
  rw [hmw] at hlinked hundone
  have hkept := hlinked.ticked (Nat.le_refl _) false
  unfold World.settle
  split
  · next hr =>
      cases hr
      exact hundone
  · next hr =>
      cases hr
      split
      · exact hundone
      · exact hkept

theorem settle_only (t : String) (w v : World) (r : Except Err α) :
    (w.only t).settle (r, v.only t) = (w.settle (r, v)).only t := by
  have hdone : ∀ d : Bool, (if d then { w.only t with tick := v.tick, doomed := false }
      else { v.only t with doomed := false }) =
      World.only t (if d then { w with tick := v.tick, doomed := false }
        else { v with doomed := false }) := by
    intro d
    cases d <;> rfl
  cases r with
  | ok a => exact hdone v.doomed
  | error e =>
      cases e with
      | raised x =>
          cases x with
          | database => rfl
          | _ => exact hdone v.doomed
      | _ => exact hdone v.doomed

theorem settle_aside {m : Action α} (h : (m w).2.db.only t = w.db.only t) :
    (w.settle (m w)).db.only t = w.db.only t := by
  rcases hmw : m w with ⟨r, v⟩
  rw [hmw] at h
  unfold World.settle
  split
  · rfl
  · next hr =>
      cases hr
      split
      · rfl
      · exact h

theorem step_linked (h : w.Linked env) (call : Call) : (step env w call).Linked env := by
  rw [step_eq_settle]
  refine settle_links h ?_
  cases hsweeps : call.sweeps with
  | false =>
      have hcall := serviceMethod_projects h "" hsweeps
      exact ⟨hcall.linked, hcall.tick⟩
  | true =>
      cases call with
      | checkHeartbeats now => exact StaysLinked.map textsJson (checkHeartbeats_links h now)
      | _ => cases hsweeps

/-- In every reached state the rows refer to each other: claims to a task and a worker, sessions
and attestations to a claim, entries to a task and to a claim on it. -/
theorem reach_linked (env : Env) (workers : List WcpWorker) (calls : List Call) :
    (reach env workers calls).Linked env :=
  @run_invariant _ _ (step env) (World.Linked env) (fun _ => True)
    (fun _ call h _ => step_linked h call)
    (initial workers) calls (initial_linked env workers) fun _ _ => trivial

/-- A call, when it was made, and its answer. -/
structure Served where
  tick : Nat
  call : Call
  answer : Except Err Json

/-- The calls of a run that concern a task. -/
def concerning (env : Env) (t : String) : World → List Call → List Served
  | _, [] => []
  | w, call :: calls =>
      if call.concerns env t w then
        ⟨w.tick, call, (serviceMethod env call w).1⟩ :: concerning env t (step env w call) calls
      else concerning env t (step env w call) calls

/-- Make calls again, each when it was made; the state after them. -/
def replay (env : Env) (w : World) (calls : List Served) : World :=
  calls.foldl (fun w s => step env { w with tick := s.tick } s.call) w

/-- The answers of the calls when they are made again. -/
def replies (env : Env) : World → List Served → List (Except Err Json)
  | _, [] => []
  | w, s :: calls =>
      (serviceMethod env s.call { w with tick := s.tick }).1 ::
        replies env (step env { w with tick := s.tick } s.call) calls

theorem step_only (h : w.Linked env) {call : Call} (hcall : call.sweeps = false)
    (hc : call.concerns env t w = true) :
    serviceMethod env call (w.only t) =
        ((serviceMethod env call w).1, (serviceMethod env call w).2.only t) ∧
      step env (w.only t) call = (step env w call).only t := by
  have hsame := (serviceMethod_projects h t hcall).same hc
  refine ⟨hsame, ?_⟩
  rw [step_eq_settle, step_eq_settle, hsame, settle_only]

theorem step_aside (h : w.Linked env) {call : Call} (hcall : call.sweeps = false)
    (hc : ¬ call.concerns env t w = true) : (step env w call).db.only t = w.db.only t := by
  rw [step_eq_settle]
  exact settle_aside ((serviceMethod_projects h t hcall).aside hc)

theorem replay_only (t : String) {calls : List Call} (h : w.Linked env) (hdoomed : w.doomed = false)
    (hcalls : ∀ call ∈ calls, call.sweeps = false) (n : Nat) :
    replies env ⟨w.db.only t, n, false⟩ (concerning env t w calls) =
        (concerning env t w calls).map (·.answer) ∧
      (replay env ⟨w.db.only t, n, false⟩ (concerning env t w calls)).db =
        (run (step env) w calls).db.only t := by
  induction calls generalizing w n with
  | nil => exact ⟨rfl, rfl⟩
  | cons call calls ih =>
      have hcall := hcalls call List.mem_cons_self
      have hrest := ih (step_linked h call) (step_doomed env w call)
        fun later hlater => hcalls later (List.mem_cons_of_mem _ hlater)
      unfold concerning
      by_cases hc : call.concerns env t w = true
      · rw [if_pos hc]
        obtain ⟨hanswer, hstep⟩ := step_only h hcall hc
        have hnow : World.mk (w.db.only t) w.tick false = w.only t := by
          unfold World.only
          rw [hdoomed]
        have hnext : (step env w call).only t =
            ⟨(step env w call).db.only t, (step env w call).tick, false⟩ := by
          unfold World.only
          rw [step_doomed]
        obtain ⟨hreplies, hreplay⟩ := hrest (step env w call).tick
        refine ⟨?_, ?_⟩
        · show (serviceMethod env call ⟨w.db.only t, w.tick, false⟩).1 ::
            replies env (step env ⟨w.db.only t, w.tick, false⟩ call) _ = _
          rw [hnow, hanswer, hstep, hnext, hreplies]
          rfl
        · show (replay env (step env ⟨w.db.only t, w.tick, false⟩ call) _).db = _
          rw [hnow, hstep, hnext, hreplay, run_cons]
      · rw [if_neg hc, run_cons, ← step_aside h hcall hc]
        exact hrest n

/-- Made again without the calls about other tasks, each when it was made, the calls that concern a
task get the same answers and leave the same rows of the task. -/
theorem task_isolated (env : Env) (workers : List WcpWorker) {calls : List Call}
    (hcalls : ∀ call ∈ calls, call.sweeps = false) (t : String) :
    replies env (initial workers) (concerning env t (initial workers) calls) =
        (concerning env t (initial workers) calls).map (·.answer) ∧
      (replay env (initial workers) (concerning env t (initial workers) calls)).db =
        (reach env workers calls).db.only t :=
  replay_only t (initial_linked env workers) rfl hcalls 0

/-- Two tasks of one worker, call by call in turns: the first is completed, the other aborted. -/
def localTurns : List Call := [
  .post (localTask anySensor) localDate .null,
  .post (.obj [
    ("task_id", .str "t2"),
    ("posted_by", .str oneDid),
    ("attestation_requirement", .obj anySensor)]) localDate .null,
  .claim (.str "t2") (.str zeroDid) localDate (localAcceptance zeroSig) .null,
  .claim (.str "t1") (.str zeroDid) localDate (localAcceptance zeroSig) .null,
  .executeOpen (.str "id-10"),
  .executeOpen (.str "id-15"),
  .abort (.str "id-10") (.str "rain") .null,
  .attest (.str "id-15") (.arr [coverageEvidence])]

/-- Four of the eight calls concern the completed task, and they complete it on their own. -/
theorem task_isolated_turns :
    (concerning localEnv "t1" (initial [zeroWorker]) localTurns).length = 4 ∧
    ((reach localEnv [zeroWorker] localTurns).db.tasks.map fun r => (r.taskId, r.state)) =
      [("t1", .completed), ("t2", .aborted)] ∧
    replies localEnv (initial [zeroWorker])
        (concerning localEnv "t1" (initial [zeroWorker]) localTurns) =
        (concerning localEnv "t1" (initial [zeroWorker]) localTurns).map (·.answer) ∧
      (replay localEnv (initial [zeroWorker])
        (concerning localEnv "t1" (initial [zeroWorker]) localTurns)).db =
        (reach localEnv [zeroWorker] localTurns).db.only "t1" :=
  ⟨by decide +kernel, by decide +kernel,
    task_isolated localEnv [zeroWorker] (by simp [localTurns, Call.sweeps]) "t1"⟩

end Wcp.Coordinator
