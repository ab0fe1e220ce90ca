import Wcp.Coordinator.LocalEnvironment
import Wcp.Coordinator.Operations
import Wcp.Coordinator.Router
/-!
# What a failed request leaves behind

A request fails when its reply carries an error.  On the socket the transaction is
rolled back first; over POST it is committed all the same, so what a method wrote
before it raised stays.  `Tears` says that a call is reported as failed and leaves
something behind: five of the eleven methods never do, and for the other six the
exact condition is given.
-/

namespace Wcp.Coordinator

open Wcp.Base
open Wcp.Base.Exec

variable {env : Env} {w : World}

/-! ## Calls that tear -/

/-- Whether the outcome of a call can be replied as a result. -/
def rendered : Except Err Json → Bool
  | .ok result => result.finite
  | .error _ => false

/-- The call is reported as failed, and its commit changes the database. -/
def Tears (w : World) (outcome : Except Err Json × World) : Prop :=
  rendered outcome.1 = false ∧ (w.settle outcome).db ≠ w.db

/-- A call ends with a result, is rolled back by the database, or has written nothing. -/
def Harmless (w : World) (r : Except Err Json) (w' : World) : Prop :=
  rendered r = true ∨ r = .error (.raised .database) ∨ w'.db = w.db

theorem Harmless.unchanged {r : Except Err Json} {w' : World} (h : w'.db = w.db) :
    Harmless w r w' := .inr (.inr h)

theorem Harmless.database {w' : World} : Harmless w (.error (.raised .database)) w' :=
  .inr (.inl rfl)

theorem settle_of_doomed {α : Type} {r : Except Err α} {w' : World} (h : w'.doomed = true) :
    (w.settle (r, w')).db = w.db := by
  unfold World.settle
  split
  · rfl
  · next heq =>
      cases heq
      rw [if_pos h]

/-- What is written is committed, unless the database refused something. -/
theorem settle_of_clean {α : Type} {r : Except Err α} {w' : World}
    (hr : r ≠ .error (.raised .database)) (h : w'.doomed = false) :
    (w.settle (r, w')).db = w'.db := by
  unfold World.settle
  split
  · next heq => exact absurd (congrArg Prod.fst heq) hr
  · next heq =>
      cases heq
      rw [if_neg (by simp [h])]

theorem not_tears_of_database {w' : World} :
    ¬ Tears w ((.error (.raised .database) : Except Err Json), w') :=
  fun h => h.2 rfl

theorem not_tears_of_unchanged {r : Except Err Json} {w' : World} (h : w'.db = w.db) :
    ¬ Tears w (r, w') := by
  rintro ⟨-, hne⟩
  refine hne ?_
  by_cases hr : r = .error (.raised .database)
  · rw [hr]
    rfl
  · cases hdoomed : w'.doomed with
    | true => exact settle_of_doomed hdoomed
    | false => exact (settle_of_clean hr hdoomed).trans h

theorem not_tears_of_doomed {r : Except Err Json} {w' : World} (h : w'.doomed = true) :
    ¬ Tears w (r, w') :=
  fun htears => htears.2 (settle_of_doomed h)

theorem Harmless.not_tears {r : Except Err Json} {w' : World} (h : Harmless w r w') :
    ¬ Tears w (r, w') := by
  rcases h with hok | rfl | hdb
  · exact fun htears => by cases htears.1.symm.trans hok
  · exact not_tears_of_database
  · exact not_tears_of_unchanged hdb

/-- A call that ended clean tears exactly if it changed something and is reported as failed. -/
theorem tears_iff_of_clean {r : Except Err Json} {w' : World}
    (hr : r ≠ .error (.raised .database)) (hclean : w'.doomed = false) (hdb : w'.db ≠ w.db) :
    Tears w (r, w') ↔ rendered r = false := by
  unfold Tears
  rw [settle_of_clean hr hclean]
  exact ⟨fun h => h.1, fun h => ⟨h, hdb⟩⟩

/-- A call tears if it changed something before its statement was refused. -/
theorem tears_of_statement {w' : World} (hclean : w'.doomed = false) (hdb : w'.db ≠ w.db) :
    Tears w ((.error (.raised .statement) : Except Err Json), w') :=
  (tears_iff_of_clean (by simp) hclean hdb).2 rfl

/-! ## Methods that never tear -/

section Harmless

variable {claimId : Json}

theorem createSubscription_harmless (agentDid filterDict sinceRevision : Json) :
    Ends (createSubscription env agentDid filterDict sinceRevision) w (Harmless w) := by
  unfold createSubscription
  refine Ends.lift_bind ?_ fun e _ => Harmless.unchanged rfl
  intro resolved _
  refine uuid4_bind ?_
  split
  · exact writeDb_bind (flush_bind (fun _ => Ends.pure (.inl rfl)) Harmless.database)
  · exact Ends.write_bind (flush_bind (fun _ => Ends.pure (.inl rfl)) Harmless.database)

theorem claim_harmless (taskId workerId eta acceptance bid : Json) :
    Ends (claim env taskId workerId eta acceptance bid) w (Harmless w) := by
  unfold claim
  refine readDb_bind ?_ fun e _ => Harmless.unchanged rfl
  intro task _
  refine utcnow_bind (Ends.lift_bind ?_ fun e _ => Harmless.unchanged rfl)
  intro _ _
  refine readDb_bind ?_ fun e _ => Harmless.unchanged rfl
  intro worker _
  refine Ends.lift_bind ?_ fun e _ => Harmless.unchanged rfl
  intro resolved _
  refine readDb_bind ?_ fun e _ => Harmless.unchanged rfl
  intro _ _
  refine Ends.lift_bind ?_ fun e _ => Harmless.unchanged rfl
  intro etaTime _
  refine utcnow_bind (uuid4_bind (claimWrite_bind ?_ fun _ => Harmless.database))
  intro c _ _ _ _ _
  refine append_bind ?_ (fun _ => Harmless.database) (by simp)
  intro r entry _ _ _ _ _ _ _ _
  exact Ends.pure (.inl rfl)

theorem executeOpen_harmless : Ends (executeOpen env claimId) w (Harmless w) := by
  unfold executeOpen
  refine readDb_bind ?_ fun e _ => Harmless.unchanged rfl
  rintro ⟨claim, task⟩ _
  refine Ends.require_bind ?_ fun _ => Harmless.unchanged rfl
  intro _
  refine uuid4_bind (insertSession_bind ?_ fun _ => ?_)
  · intro stored hstored
    refine writeDb_bind (flush_bind (fun _ => ?_) Harmless.database)
    refine append_bind ?_ (fun _ => Harmless.database) ?_
    · intro r entry _ _ _ _ _ _ _ _
      exact Ends.pure (.inl rfl)
    · simp [unsent_of_hashable (hashable_of_bindColumn hstored)]
  · refine writeDb_bind (flush_bind (fun hdoomed => ?_) Harmless.database)
    cases hdoomed

/-! ## Methods that write before they read the chain -/

variable (hsent : env.unsent claimId = false)

include hsent

theorem executeEvent_harmless (eventType timestamp payload sig : Json) :
    Ends (executeEvent env claimId eventType timestamp payload sig) w (Harmless w) := by
  unfold executeEvent
  refine readDb_bind ?_ fun e _ => Harmless.unchanged rfl
  rintro ⟨claim, task⟩ _
  refine Ends.require_bind ?_ fun _ => Harmless.unchanged rfl
  intro _
  refine Ends.lift_bind ?_ fun e _ => Harmless.unchanged rfl
  intro _ _
  refine recordHeartbeat_bind ?_ (fun _ => Harmless.unchanged rfl) fun _ => Harmless.database
  intro beat
  refine append_bind ?_ (fun _ => Harmless.database) (by simp [hsent])
  intro r entry _ _ _ _ _ _ _ _
  exact Ends.pure (.inl rfl)

theorem supervise_harmless (handoffReason urgency : Json) :
    Ends (supervise env claimId handoffReason urgency) w (Harmless w) := by
  unfold supervise
  refine readDb_bind ?_ fun e _ => Harmless.unchanged rfl
  rintro ⟨claim, task⟩ _
  refine Ends.require_bind ?_ fun _ => Harmless.unchanged rfl
  intro _
  refine writeDb_bind (flush_bind (fun _ => ?_) Harmless.database)
  refine uuid4_bind (append_bind ?_ (fun _ => Harmless.database) (by simp [hsent]))
  intro r entry _ _ _ _ _ _ _ _
  exact Ends.pure (.inl rfl)

/-- The descriptor that `abort` reads after its first write is an object. -/
theorem abort_harmless (hwf : w.db.WellFormed) (reason stateSnapshot : Json) :
    Ends (abort env claimId reason stateSnapshot) w (Harmless w) := by
  unfold abort
  refine readDb_bind ?_ fun e _ => Harmless.unchanged rfl
  rintro ⟨claim, task⟩ hct
  refine Ends.require_bind ?_ fun _ => Harmless.unchanged rfl
  intro _
  obtain ⟨ms, hms⟩ := hwf.descriptors task (claimAndTask_holds hct).1.task
  refine writeDb_bind (Ends.lift_bind ?_ fun e he => by simp [hms, Json.get, Json.getD] at he)
  intro accountingRef _
  refine flush_bind (fun _ => ?_) Harmless.database
  refine append_bind ?_ (fun _ => Harmless.database) (by simp [hsent])
  intro r entry _ _ _ _ _ _ _ _
  exact uuid4_bind (Ends.pure (.inl rfl))

end Harmless

/-! ## Claims named by a list or an object -/

section Torn

variable {claimId : Json}

/-- The claim is found under a list or an object, and the method goes as far as the statement that
reads the chain, which is refused unsent. -/
def TornClaim (env : Env) (w : World) (claimId : Json) (accepts : WcpClaim → WcpTask → Prop) :
    Prop :=
  env.unsent claimId = true ∧
    ∃ c t, claimAndTask env w.db claimId = .ok (c, t) ∧ accepts c t

theorem tornClaim_iff {accepts : WcpClaim → WcpTask → Prop} {c : WcpClaim} {t : WcpTask}
    (hunsent : env.unsent claimId = true) (hct : claimAndTask env w.db claimId = .ok (c, t)) :
    TornClaim env w claimId accepts ↔ accepts c t := by
  constructor
  · rintro ⟨-, c', t', hct', h⟩
    cases hct.symm.trans hct'
    exact h
  · intro h
    exact ⟨hunsent, c, t, hct, h⟩

theorem not_tornClaim {accepts : WcpClaim → WcpTask → Prop} {e : Err}
    (he : claimAndTask env w.db claimId = .error e) : ¬ TornClaim env w claimId accepts := by
  rintro ⟨-, c, t, hct, -⟩
  cases hct.symm.trans he

theorem updateTask_ne {db : Db} {t : WcpTask} {f : WcpTask → WcpTask} (ht : t ∈ db.tasks)
    (hf : f t ≠ t) : (db.updateTask t.taskId f).tasks ≠ db.tasks := by
  intro h
  have hsame := List.map_inj_left.1 (h.trans (List.map_id _).symm) t ht
  rw [if_pos rfl] at hsame
  exact hf hsame

theorem supervisedState_ne (s : TaskState) : supervisedState s ≠ s := by
  cases s <;> decide

/-- A handover tears exactly if its statement is refused after the task moved. -/
theorem supervise_tears_iff (hclean : w.doomed = false) (handoffReason urgency : Json) :
    Tears w (supervise env claimId handoffReason urgency w) ↔
      TornClaim env w claimId fun _ t => t.state = .executing ∨ t.state = .supervising := by
  cases hunsent : env.unsent claimId with
  | false =>
      refine iff_of_false (Harmless.not_tears (supervise_harmless hunsent _ _)) ?_
      rintro ⟨h, -⟩
      cases hunsent.symm.trans h
  | true =>
      show Ends (supervise env claimId handoffReason urgency) w fun r w' => Tears w (r, w') ↔ _
      unfold supervise
      refine readDb_bind ?_ fun e he =>
        iff_of_false (not_tears_of_unchanged rfl) (not_tornClaim he)
      rintro ⟨c, t⟩ hct
      have htorn := @tornClaim_iff env w claimId
        (fun _ t => t.state = .executing ∨ t.state = .supervising) c t hunsent hct
      refine Ends.require_bind ?_ fun hstate =>
        iff_of_false (not_tears_of_unchanged rfl) fun h => hstate (htorn.1 h)
      intro hstate
      refine writeDb_bind (flush_clean_bind hclean (uuid4_bind
        (append_unsent_bind hclean hunsent ?_)))
      refine iff_of_true (tears_of_statement hclean fun hdb => ?_) (htorn.2 hstate)
      refine updateTask_ne (claimAndTask_holds hct).1.task ?_ (congrArg Db.tasks hdb)
      exact fun h => supervisedState_ne t.state (congrArg WcpTask.state h)

/-- An abort tears exactly if its statement is refused after the task was aborted. -/
theorem abort_tears_iff (hclean : w.doomed = false) (hwf : w.db.WellFormed)
    (reason stateSnapshot : Json) :
    Tears w (abort env claimId reason stateSnapshot w) ↔
      TornClaim env w claimId fun _ t => t.state.isTerminal = false := by
  cases hunsent : env.unsent claimId with
  | false =>
      refine iff_of_false (Harmless.not_tears (abort_harmless hunsent hwf _ _)) ?_
      rintro ⟨h, -⟩
      cases hunsent.symm.trans h
  | true =>
      show Ends (abort env claimId reason stateSnapshot) w fun r w' => Tears w (r, w') ↔ _
      unfold abort
      refine readDb_bind ?_ fun e he =>
        iff_of_false (not_tears_of_unchanged rfl) (not_tornClaim he)
      rintro ⟨c, t⟩ hct
      have htorn := @tornClaim_iff env w claimId (fun _ t => t.state.isTerminal = false) c t
        hunsent hct
      refine Ends.require_bind ?_ fun hstate =>
        iff_of_false (not_tears_of_unchanged rfl) fun h => hstate (htorn.1 h)
      intro hstate
      have hholds := (claimAndTask_holds hct).1
      obtain ⟨ms, hms⟩ := hwf.descriptors t hholds.task
      refine writeDb_bind (Ends.lift_bind ?_ fun e he => by simp [hms, Json.get, Json.getD] at he)
      intro accountingRef _
      refine flush_clean_bind hclean (append_unsent_bind hclean hunsent ?_)
      refine iff_of_true (tears_of_statement hclean fun hdb => ?_) (htorn.2 hstate)
      refine updateTask_ne hholds.task (fun h => ?_) (congrArg Db.tasks hdb)
      rw [← h] at hstate
      cases hstate

/-- A signed heartbeat of an executing claim sets another time than the one stored. -/
def BeatsAnew (env : Env) (claimId eventType timestamp payload sig : Json) (c : WcpClaim)
    (t : WcpTask) : Prop :=
  t.state = .executing ∧ eventVerify env c claimId eventType timestamp payload sig = .ok () ∧
    eventType = .str "heartbeat" ∧
    ∃ sentAt, parseIso env timestamp = .ok sentAt ∧
      c.lastHeartbeatAt ≠ some (env.storeTime sentAt)

theorem updateClaim_ne {db : Db} {c : WcpClaim} {f : WcpClaim → WcpClaim} (hc : c ∈ db.claims)
    (hf : f c ≠ c) : db.updateClaim c.claimId f ≠ db := by
  intro h
  have hsame := List.map_inj_left.1 ((congrArg Db.claims h).trans (List.map_id _).symm) c hc
  rw [if_pos rfl] at hsame
  exact hf hsame

theorem updateClaim_eq {db : Db} (hwf : db.WellFormed) {c : WcpClaim} {f : WcpClaim → WcpClaim}
    (hc : c ∈ db.claims) (hf : f c = c) : db.updateClaim c.claimId f = db := by
  have hmap : db.claims.map (fun r => if r.claimId = c.claimId then f r else r) = db.claims := by
    conv_rhs => rw [← List.map_id db.claims]
    refine List.map_congr_left fun r hr => ?_
    split
    · next hid => rw [hwf.claim_eq hr hc hid, hf, id]
    · rfl
  rw [Db.updateClaim, hmap]

/-- On a clean transaction, a heartbeat writes its time and any other event writes nothing. -/
theorem recordHeartbeat_clean_bind {β : Type} {P : Except Err β → World → Prop} {c : WcpClaim}
    {eventType timestamp : Json} {f : Unit → Action β} (hclean : w.doomed = false)
    (hbeat : ∀ sentAt, eventType = .str "heartbeat" → parseIso env timestamp = .ok sentAt →
      Ends (f ()) { w with db := w.db.updateClaim c.claimId fun r =>
        { r with lastHeartbeatAt := some (env.storeTime sentAt) } } P)
    (hother : eventType ≠ .str "heartbeat" → Ends (f ()) w P)
    (herr : ∀ e, eventType = .str "heartbeat" → parseIso env timestamp = .error e →
      P (.error e) w) :
    Ends (recordHeartbeat env c eventType timestamp >>= f) w P := by
  unfold recordHeartbeat
  by_cases htype : eventType = .str "heartbeat"
  · rw [if_pos htype]
    apply Ends.bind
    refine Ends.lift_bind ?_ fun e he => herr e htype he
    intro sentAt htime
    refine writeDb_bind ?_
    unfold Ends flush
    rw [if_neg (by simp [hclean])]
    exact hbeat sentAt htype htime
  · rw [if_neg htype]
    exact hother htype

theorem setBeat_eq {c : WcpClaim} {beat : Option DateTime} (h : c.lastHeartbeatAt = beat) :
    { c with lastHeartbeatAt := beat } = c := by
  subst h
  rfl

/-- An event tears exactly if it is a heartbeat whose statement is refused after its time was
written. -/
theorem executeEvent_tears_iff (hclean : w.doomed = false) (hwf : w.db.WellFormed)
    (eventType timestamp payload sig : Json) :
    Tears w (executeEvent env claimId eventType timestamp payload sig w) ↔
      TornClaim env w claimId (BeatsAnew env claimId eventType timestamp payload sig) := by
  cases hunsent : env.unsent claimId with
  | false =>
      refine iff_of_false (Harmless.not_tears (executeEvent_harmless hunsent _ _ _ _)) ?_
      rintro ⟨h, -⟩
      cases hunsent.symm.trans h
  | true =>
      show Ends (executeEvent env claimId eventType timestamp payload sig) w
        fun r w' => Tears w (r, w') ↔ _
      unfold executeEvent
      refine readDb_bind ?_ fun e he =>
        iff_of_false (not_tears_of_unchanged rfl) (not_tornClaim he)
      rintro ⟨c, t⟩ hct
      rw [tornClaim_iff hunsent hct]
      have hholds := (claimAndTask_holds hct).1
      refine Ends.require_bind ?_ fun hstate =>
        iff_of_false (not_tears_of_unchanged rfl) fun h => hstate h.1
      intro hstate
      refine Ends.lift_bind ?_ fun e he =>
        iff_of_false (not_tears_of_unchanged rfl) fun h => by cases he.symm.trans h.2.1
      intro _ hverify
      refine recordHeartbeat_clean_bind hclean ?_ ?_ ?_
      · intro sentAt hbeat htime
        refine append_unsent_bind hclean hunsent ?_
        by_cases hsame : c.lastHeartbeatAt = some (env.storeTime sentAt)
        · refine iff_of_false (not_tears_of_unchanged ?_) ?_
          · exact updateClaim_eq hwf hholds.claim (setBeat_eq hsame)
          · rintro ⟨-, -, -, sentAt', htime', hne⟩
            cases htime.symm.trans htime'
            exact hne hsame
        · refine iff_of_true (tears_of_statement hclean ?_)
            ⟨hstate, hverify, hbeat, sentAt, htime, hsame⟩
          exact updateClaim_ne hholds.claim
            fun h => hsame (congrArg WcpClaim.lastHeartbeatAt h).symm
      · intro hbeat
        refine append_unsent_bind hclean hunsent ?_
        exact iff_of_false (not_tears_of_unchanged rfl) fun h => hbeat h.2.2.1
      · intro e _ he
        refine iff_of_false (not_tears_of_unchanged rfl) ?_
        rintro ⟨-, -, -, sentAt, htime, -⟩
        cases he.symm.trans htime

end Torn

/-! ## tasks/post -/

/-- The row and the entry of a post go in, and then counting the eligible workers raises, or
the task id has no JSON text. -/
def TornPost (env : Env) (w : World) (task expiry : Json) : Prop :=
  ∃ plan, postChecks env (env.uuid w.tick) task expiry = .ok plan ∧
    plan.insertable env w.db = true ∧
    env.stores (.str "task_posted") .null plan.taskId = true ∧
    match countEligible env w.db plan.task with
    | .ok _ => plan.taskId.finite = false
    | .error e => e ≠ .raised .database

theorem countEligible_congr {db db' : Db} (h : db'.workers = db.workers) (task : Json) :
    countEligible env db' task = countEligible env db task := by
  unfold countEligible matchingWorkers candidateWorkers
  rw [h]

theorem tornPost_iff {task expiry : Json} {plan : PostPlan}
    (hplan : postChecks env (env.uuid w.tick) task expiry = .ok plan)
    (hinsert : plan.insertable env w.db = true)
    (hstores : env.stores (.str "task_posted") .null plan.taskId = true) :
    TornPost env w task expiry ↔
      match countEligible env w.db plan.task with
      | .ok _ => plan.taskId.finite = false
      | .error e => e ≠ .raised .database := by
  constructor
  · rintro ⟨plan', hplan', -, -, h⟩
    cases hplan.symm.trans hplan'
    exact h
  · intro h
    exact ⟨plan, hplan, hinsert, hstores, h⟩

theorem count_tears_iff {w' : World} {plan : PostPlan} {postedAt : String}
    (hclean : w'.doomed = false) (hadded : w'.db ≠ w.db)
    (hworkers : w'.db.workers = w.db.workers) :
    Ends (do
      let eligible ← readDb fun db => countEligible env db plan.task
      return Json.obj [
        ("task_id", plan.taskId),
        ("eligible_workers_count", .int eligible),
        ("posted_at", .str postedAt)]) w' fun r w'' => Tears w (r, w'') ↔
          match countEligible env w.db plan.task with
          | .ok _ => plan.taskId.finite = false
          | .error e => e ≠ .raised .database := by
  have hcongr := @countEligible_congr env w.db w'.db hworkers plan.task
  refine readDb_bind ?_ ?_
  · intro eligible hcount
    rw [← hcongr, hcount]
    refine Ends.pure ((tears_iff_of_clean (by simp) hclean hadded).trans ?_)
    simp [rendered, Json.finite, finiteMembers]
  · intro e hcount
    rw [← hcongr, hcount]
    by_cases he : e = .raised .database
    · rw [he]
      exact iff_of_false not_tears_of_database fun h => h rfl
    · have hne : (.error e : Except Err Json) ≠ .error (.raised .database) :=
        fun h => he (Except.error.inj h)
      rw [tears_iff_of_clean hne hclean hadded]
      exact iff_of_true rfl he

/-- A post tears exactly if it fails after its row and its entry went in. -/
theorem post_tears_iff (hclean : w.doomed = false) (task expiry informational : Json) :
    Tears w (post env task expiry informational w) ↔ TornPost env w task expiry := by
  show Ends (post env task expiry informational) w fun r w' => Tears w (r, w') ↔ _
  -- an exit that does not tear, by one of the checks having failed
  have hexit : ∀ {r : Except Err Json} {w' : World}, Harmless w r w' →
      ¬ TornPost env w task expiry → (Tears w (r, w') ↔ TornPost env w task expiry) :=
    fun hr ht => ⟨fun h => absurd h hr.not_tears, fun h => absurd h ht⟩
  unfold post
  refine uuid4_bind (Ends.lift_bind ?_ ?_)
  · intro plan hplan
    obtain ⟨ms, hms, -⟩ := postChecks_valid hplan
    refine utcnow_bind (insertTask_bind ?_ ?_)
    · intro row hinsert _ _ _ _
      refine Ends.lift_bind ?_ fun e he => by simp [hms, Json.get, Json.getD] at he
      intro accountingRef _
      refine append_bind_cases ?_ ?_ (by simp)
      · intro r entry _ hstores
        refine Ends.mono (@count_tears_iff env w _ plan _ hclean ?_ rfl) ?_
        · intro h
          simpa [World.withEntry] using congrArg (fun db => db.audit.length) h
        · intro r' w' hcounted
          exact hcounted.trans (tornPost_iff hplan hinsert hstores).symm
      · intro hbad _ w'
        refine hexit Harmless.database ?_
        rintro ⟨plan', hplan', -, hstores, -⟩
        cases hplan.symm.trans hplan'
        exact hbad ⟨hclean, hstores⟩
    · intro hno
      refine hexit Harmless.database ?_
      rintro ⟨plan', hplan', hinsert, -⟩
      cases hplan.symm.trans hplan'
      cases hno.symm.trans hinsert
  · intro e he
    refine hexit (Harmless.unchanged rfl) ?_
    rintro ⟨plan, hplan, -⟩
    cases hplan.symm.trans he

/-! ## capabilities/upsert -/

def namedClass (env : Env) (workerClassStr : Json) : Except Err WorkerClass :=
  match WorkerClass.ofValue workerClassStr with
  | some c => .ok c
  | none =>
      .error (.valueError ("INVALID_PARAMS: invalid worker class " ++ env.repr workerClassStr))

/-- What `upsert_capabilities` checks before it writes. -/
def upsertChecks (env : Env) (db : Db) (workerId capabilities : Json) :
    Except Err (ResolvedDID × WorkerClass × Option WcpWorker) := do
  let resolved ← resolveOrRefuse env "DID_NOT_RESOLVED: " workerId
  let schemaVersion ← capabilities.get "schema_version"
  ensure (schemaVersion = .str "wcp/0.1" ∨ schemaVersion = .str "wcp/0.2")
    (.valueError ("INVALID_PARAMS: capabilities.schema_version must be " ++ "wcp/0.1 or wcp/0.2"))
  let workerClassStr ← capabilities.get "class"
  let workerClass ← namedClass env workerClassStr
  let existing ← db.getWorker env workerId
  return (resolved, workerClass, existing)

/-- Whether the driver stores the values of a worker row. -/
def Env.storesWorker (env : Env) (principalId ttlSeconds : Json) : Bool :=
  (env.bindColumn principalId).isSome && env.bindsInt ttlSeconds

theorem storesWorker_eq_false {principalId ttlSeconds : Json}
    (h : ∀ principal, env.bindColumn principalId = some principal →
      env.bindsInt ttlSeconds = true → False) :
    env.storesWorker principalId ttlSeconds = false := by
  by_contra hstores
  simp only [Env.storesWorker, Bool.not_eq_false, Bool.and_eq_true, Option.isSome_iff_exists]
    at hstores
  obtain ⟨⟨principal, hprincipal⟩, hint⟩ := hstores
  exact h principal hprincipal hint

/-- The row of a worker goes in, and the descriptor or the lifetime has no JSON text. -/
def TornUpsert (env : Env) (w : World) (workerId capabilities principalId ttlSeconds : Json) :
    Prop :=
  (∃ checks, upsertChecks env w.db workerId capabilities = .ok checks) ∧
    env.storesWorker principalId ttlSeconds = true ∧
    (capabilities.finite && ttlSeconds.finite) = false

theorem upsert_ends {P : Except Err Json → World → Prop}
    {workerId capabilities principalId ttlSeconds : Json}
    (hread : ∀ e, upsertChecks env w.db workerId capabilities = .error e → P (.error e) w)
    (hwrite : ∀ resolved workerClass existing,
      upsertChecks env w.db workerId capabilities = .ok (resolved, workerClass, existing) →
      Ends (do
        storeWorker env existing resolved.did workerClass capabilities principalId ttlSeconds
          (.utc (env.clock w.tick))
        let revision : Nat := match existing with
          | none => 1
          | some row => row.revision + 1
        return Json.obj [
          ("worker_id", workerId),
          ("capabilities", capabilities),
          ("ttl_seconds", ttlSeconds),
          ("revision", .int revision)]) { w with tick := w.tick + 1 } P) :
    Ends (upsertCapabilities env workerId capabilities principalId ttlSeconds) w P := by
  unfold upsertCapabilities
  unfold upsertChecks at hread hwrite
  refine Ends.lift_bind ?_ fun e he => hread e (by simp [he, bind, Except.bind])
  intro resolved hresolved
  refine Ends.lift_bind ?_ fun e he => hread e (by simp [hresolved, he, bind, Except.bind])
  intro schemaVersion hschema
  refine Ends.require_bind ?_ fun hversion => hread _
    (by simp [hresolved, hschema, hversion, ensure, bind, Except.bind])
  intro hversion
  refine Ends.lift_bind ?_ fun e he => hread e
    (by simp [hresolved, hschema, hversion, he, ensure, bind, Except.bind])
  intro workerClassStr hclassStr
  refine Ends.lift_bind ?_ ?_
  · intro workerClass hclass
    have hclass : namedClass env workerClassStr = .ok workerClass := hclass
    refine readDb_bind ?_ fun e he => hread e
      (by simp [hresolved, hschema, hversion, hclassStr, hclass, he, ensure, bind, Except.bind])
    intro existing hexisting
    refine utcnow_bind (hwrite resolved workerClass existing ?_)
    simp [hresolved, hschema, hversion, hclassStr, hclass, hexisting, ensure, bind, Except.bind,
      pure, Except.pure]
  · intro e he
    have he : namedClass env workerClassStr = .error e := he
    exact hread e (by simp [hresolved, hschema, hversion, hclassStr, he, ensure, bind, Except.bind])

theorem upsertChecks_eq_ok {db : Db} {workerId capabilities : Json} {resolved : ResolvedDID}
    {workerClass : WorkerClass} {existing : Option WcpWorker}
    (h : upsertChecks env db workerId capabilities = .ok (resolved, workerClass, existing)) :
    resolveOrRefuse env "DID_NOT_RESOLVED: " workerId = .ok resolved ∧
      db.getWorker env workerId = .ok existing := by
  simp only [upsertChecks, bind_eq_ok] at h
  obtain ⟨_, hresolved, _, -, _, -, _, -, _, -, _, hexisting, hpair⟩ := h
  cases hpair
  exact ⟨hresolved, hexisting⟩

theorem getWorker_mem {db : Db} {v : Json} {row : WcpWorker}
    (h : db.getWorker env v = .ok (some row)) : row ∈ db.workers := by
  simp only [Db.getWorker, bind_eq_ok] at h
  obtain ⟨key, -, h⟩ := h
  obtain ⟨id, -, hfind⟩ := Option.bind_eq_some_iff.1 (Except.ok.inj h)
  exact List.mem_of_find?_eq_some hfind

/-- Storing a worker changes the table where the driver accepts the values; where it does not,
the transaction is doomed. -/
theorem storeWorker_cases {existing : Option WcpWorker} {did : String} {workerClass : WorkerClass}
    {capabilities principalId ttlSeconds : Json} {asOf : DateTime} (hclean : w.doomed = false)
    (hrow : ∀ row, existing = some row → row ∈ w.db.workers) :
    Ends (storeWorker env existing did workerClass capabilities principalId ttlSeconds asOf) w
      fun r w' =>
        if env.storesWorker principalId ttlSeconds = true then
          r = .ok () ∧ w'.doomed = false ∧ w'.db ≠ w.db
        else r = .error (.raised .database) ∨ w'.doomed = true := by
  unfold storeWorker
  split
  · next principal hprincipal hint =>
      have hstores : env.storesWorker principalId ttlSeconds = true := by
        simp [Env.storesWorker, hprincipal, hint]
      simp only [hstores, if_true]
      refine writeDb_bind ?_
      unfold Ends flush
      rw [if_neg (by simp [hclean])]
      refine ⟨rfl, hclean, fun h => ?_⟩
      simpa using congrArg (fun db => db.workers.length) h
  · next principal row hprincipal hint =>
      have hstores : env.storesWorker principalId ttlSeconds = true := by
        simp [Env.storesWorker, hprincipal, hint]
      simp only [hstores, if_true]
      refine ⟨rfl, hclean, fun h => ?_⟩
      -- the revision of the row found has moved on
      have hworkers := congrArg Db.workers h
      have hsame := List.map_inj_left.1 (hworkers.trans (List.map_id _).symm) row (hrow row rfl)
      simpa using congrArg WcpWorker.revision hsame
  · next hno =>
      simp only [storesWorker_eq_false hno, Bool.false_eq_true, if_false]
      exact .inl rfl
  · next hno =>
      simp only [storesWorker_eq_false hno, Bool.false_eq_true, if_false]
      exact .inr rfl

/-- An upsert tears exactly if its row goes in and its reply has no JSON text. -/
theorem upsertCapabilities_tears_iff (hclean : w.doomed = false)
    (workerId capabilities principalId ttlSeconds : Json) :
    Tears w (upsertCapabilities env workerId capabilities principalId ttlSeconds w) ↔
      TornUpsert env w workerId capabilities principalId ttlSeconds := by
  show Ends (upsertCapabilities env workerId capabilities principalId ttlSeconds) w
    fun r w' => Tears w (r, w') ↔ _
  refine upsert_ends ?_ ?_
  · intro e he
    refine iff_of_false (not_tears_of_unchanged rfl) ?_
    rintro ⟨⟨checks, hchecks⟩, -⟩
    cases hchecks.symm.trans he
  · intro resolved workerClass existing hchecks
    obtain ⟨hresolved, hexisting⟩ := upsertChecks_eq_ok hchecks
    obtain rfl := resolve_text (resolveOrRefuse_eq_ok hresolved)
    have hrow : ∀ row, existing = some row → row ∈ w.db.workers :=
      fun row hrow => getWorker_mem (hexisting.trans (congrArg _ hrow))
    refine Ends.bind (Ends.mono (storeWorker_cases (w := { w with tick := w.tick + 1 }) hclean hrow)
      ?_)
    intro r w' hstored
    split at hstored
    · next hstores =>
        obtain ⟨rfl, hclean', hchanged⟩ := hstored
        refine Ends.pure ((tears_iff_of_clean (by simp) hclean' hchanged).trans ?_)
        simp [TornUpsert, rendered, Json.finite, finiteMembers, hchecks, hstores]
    · next hstores =>
        have hnot : ¬ TornUpsert env w (.str resolved.did) capabilities principalId ttlSeconds :=
          fun h => hstores h.2.1
        cases r with
        | error e =>
            refine iff_of_false ?_ hnot
            rcases hstored with he | hdoomed
            · rw [Except.error.inj he]
              exact not_tears_of_database
            · exact not_tears_of_doomed hdoomed
        | ok u => exact iff_of_false (not_tears_of_doomed (hstored.resolve_left nofun)) hnot

/-! ## tasks/attest -/

/-- The rows that the evidence loop adds. -/
def AttestPlan.rows (plan : AttestPlan) (env : Env) (claimId : Json) : List EvidenceRow :=
  rowsOf (judgedBefore (plan.judge env claimId) plan.items)

/-- Some rows of evidence go in and then an item or the threshold raises; or everything goes in
and the residual has no JSON text; or the attempt is counted and the claim is named by a list or an
object. -/
def TornAttest (env : Env) (w : World) (claimId attestations : Json) : Prop :=
  ∃ plan, attestPlan env w.db claimId attestations = .ok plan ∧
    ((plan.rows env claimId).all fun r => r.binds env) = true ∧
    match plan.aggregate env claimId with
    | .error e => e ≠ .raised .database ∧ plan.rows env claimId ≠ []
    | .ok aggregate => plan.storable env claimId aggregate.decision = true ∧
        (Json.obj aggregate.residual).finite = false ∨ env.unsent claimId = true

theorem finite_textsJson (texts : List String) : (textsJson texts).finite = true := by
  unfold textsJson
  rw [Json.finite]
  induction texts with
  | nil => rfl
  | cons t texts ih => exact ih

theorem finite_attestResult (r : AttestResult) :
    r.toJson.finite = (Json.obj r.residual).finite := by
  simp [AttestResult.toJson, Json.finite, finiteMembers, finite_textsJson]

theorem tornAttest_iff {claimId attestations : Json} {plan : AttestPlan}
    (hplan : attestPlan env w.db claimId attestations = .ok plan)
    (hbinds : ((plan.rows env claimId).all fun r => r.binds env) = true) :
    TornAttest env w claimId attestations ↔
      match plan.aggregate env claimId with
      | .error e => e ≠ .raised .database ∧ plan.rows env claimId ≠ []
      | .ok aggregate => plan.storable env claimId aggregate.decision = true ∧
          (Json.obj aggregate.residual).finite = false ∨ env.unsent claimId = true := by
  constructor
  · rintro ⟨plan', hplan', -, h⟩
    cases hplan.symm.trans hplan'
    exact h
  · intro h
    exact ⟨plan, hplan, hbinds, h⟩

theorem not_tornAttest {claimId attestations : Json} {plan : AttestPlan}
    (hplan : attestPlan env w.db claimId attestations = .ok plan)
    (hbinds : ((plan.rows env claimId).all fun r => r.binds env) = false) :
    ¬ TornAttest env w claimId attestations := by
  rintro ⟨plan', hplan', hbinds', -⟩
  cases hplan.symm.trans hplan'
  cases hbinds.symm.trans hbinds'

/-- The rows of a loop whose values the driver stores change the database if there are any. -/
theorem Recorded.db_eq_iff {w' : World} {rows : List EvidenceRow} (h : Recorded env w w' rows)
    (hbinds : (rows.all fun r => r.binds env) = true) : w'.db = w.db ↔ rows = [] := by
  obtain ⟨added, hdb, hlen⟩ := h.db
  rw [hdb]
  constructor
  · intro heq
    have hattestations := congrArg (fun db => db.attestations.length) heq
    rw [List.length_append] at hattestations
    exact List.length_eq_zero_iff.1 (by rw [← hlen hbinds]; omega)
  · rintro rfl
    rw [List.length_eq_zero_iff.1 (hlen rfl), List.append_nil]

/-- An attestation tears exactly if it fails after a row of evidence went in. -/
theorem attest_tears_iff (hclean : w.doomed = false) (claimId attestations : Json) :
    Ends (attest env claimId attestations) w fun r w' =>
      Tears w (r.map AttestResult.toJson, w') ↔ TornAttest env w claimId attestations := by
  refine attest_ends ?_ ?_ ?_
  · intro e he
    refine iff_of_false (not_tears_of_unchanged rfl) ?_
    rintro ⟨plan, hplan, -⟩
    cases hplan.symm.trans he
  · intro plan e w' hplan he hrec
    have hrec : Recorded env w w' (plan.rows env claimId) := hrec
    have hdoomed := hrec.doomed
    rw [hclean, Bool.false_or] at hdoomed
    cases hbinds : (plan.rows env claimId).all fun r => r.binds env with
    | false =>
        rw [hbinds] at hdoomed
        exact iff_of_false (not_tears_of_doomed hdoomed) (not_tornAttest hplan hbinds)
    | true =>
        rw [hbinds] at hdoomed
        rw [tornAttest_iff hplan hbinds, he]
        by_cases hne : e = .raised .database
        · rw [hne]
          exact iff_of_false not_tears_of_database fun h => h.1 rfl
        · by_cases hrows : plan.rows env claimId = []
          · refine iff_of_false (not_tears_of_unchanged ?_) fun h => h.2 hrows
            exact (hrec.db_eq_iff hbinds).2 hrows
          · have hchanged : w'.db ≠ w.db := fun h => hrows ((hrec.db_eq_iff hbinds).1 h)
            have hr : (.error e : Except Err Json) ≠ .error (.raised .database) :=
              fun h => hne (Except.error.inj h)
            exact (tears_iff_of_clean hr hdoomed hchanged).trans
              (iff_of_true rfl ⟨hne, hrows⟩)
  · intro plan aggregate w' hplan hagg hrec
    have hrec : Recorded env w w' (plan.rows env claimId) := hrec
    have hdoomed := hrec.doomed
    rw [hclean, Bool.false_or] at hdoomed
    obtain ⟨ms, hobj⟩ := attestPlan_descriptor hplan
    refine Ends.mono (attestWrites_cases hobj) ?_
    intro r w'' hwritten
    split at hwritten
    · next hstores =>
        obtain ⟨rfl, hclean', hlonger⟩ := hwritten
        have hbinds : ((plan.rows env claimId).all fun r => r.binds env) = true := by
          rw [hstores.1] at hdoomed
          simpa using hdoomed.symm
        have hchanged : w''.db ≠ w.db := by
          obtain ⟨added, hdb, -⟩ := hrec.db
          intro h
          rw [h, hdb] at hlonger
          exact Nat.lt_irrefl _ hlonger
        rw [tornAttest_iff hplan hbinds, hagg]
        refine (tears_iff_of_clean (by simp [Except.map]) hclean' hchanged).trans ?_
        show (plan.result aggregate).toJson.finite = false ↔ _
        rw [finite_attestResult]
        have hsent : env.unsent claimId = false := by
          have hstorable := hstores.2
          rw [AttestPlan.storable, Bool.and_eq_true] at hstorable
          exact unsent_of_stores hstorable.1
        exact ⟨fun h => .inl ⟨hstores.2, h⟩, fun h => (h.resolve_right (by simp [hsent])).2⟩
    · next hstores =>
        split at hwritten
        · -- the attempt has begun, and its statement is refused unsent
          next hunsent =>
            obtain ⟨rfl, hdb, hclean'⟩ := hwritten
            have hbinds : ((plan.rows env claimId).all fun r => r.binds env) = true := by
              rw [hunsent.1] at hdoomed
              simpa using hdoomed.symm
            rw [tornAttest_iff hplan hbinds, hagg]
            obtain ⟨hct, -⟩ := attestPlan_eq_ok.1 hplan
            refine iff_of_true (tears_of_statement hclean' fun h => ?_) (.inr hunsent.2)
            obtain ⟨added, hrows, -⟩ := hrec.db
            rw [hdb, hrows] at h
            have htasks := congrArg Db.tasks h
            refine updateTask_ne (f := fun t => { t with
              attestationAttemptsUsed := t.attestationAttemptsUsed + 1, state := .attesting })
              (claimAndTask_holds hct).1.task ?_ htasks
            intro hrow
            simpa using congrArg WcpTask.attestationAttemptsUsed hrow
        · next hunsent =>
            subst hwritten
            refine iff_of_false not_tears_of_database ?_
            cases hbinds : (plan.rows env claimId).all fun r => r.binds env with
            | false => exact not_tornAttest hplan hbinds
            | true =>
                rw [hbinds] at hdoomed
                rw [tornAttest_iff hplan hbinds, hagg]
                rintro (h | h)
                · exact hstores ⟨hdoomed, h.1⟩
                · exact hunsent ⟨hdoomed, h⟩

/-! ## Dispatch -/

def TornCall (env : Env) (w : World) (name : String) (ms : List (String × Json)) : Prop :=
  (name = "tasks/post" ∧
    TornPost env w ((tasksPost env).signature.arg ms "task")
      ((tasksPost env).signature.arg ms "expiry")) ∨
  (name = "tasks/attest" ∧
    TornAttest env w ((tasksAttest env).signature.arg ms "claim_id")
      ((tasksAttest env).signature.arg ms "attestations")) ∨
  (name = "capabilities/upsert" ∧
    TornUpsert env w ((capabilitiesUpsert env).signature.arg ms "worker_id")
      ((capabilitiesUpsert env).signature.arg ms "capabilities")
      ((capabilitiesUpsert env).signature.arg ms "principal_id")
      ((capabilitiesUpsert env).signature.arg ms "ttl_seconds")) ∨
  (name = "tasks/execute.event" ∧
    TornClaim env w ((tasksExecuteEvent env).signature.arg ms "claim_id")
      (BeatsAnew env ((tasksExecuteEvent env).signature.arg ms "claim_id")
        ((tasksExecuteEvent env).signature.arg ms "event_type")
        ((tasksExecuteEvent env).signature.arg ms "timestamp")
        ((tasksExecuteEvent env).signature.arg ms "payload")
        ((tasksExecuteEvent env).signature.arg ms "sig"))) ∨
  (name = "tasks/supervise" ∧
    TornClaim env w ((tasksSupervise env).signature.arg ms "claim_id")
      fun _ t => t.state = .executing ∨ t.state = .supervising) ∨
  (name = "tasks/abort" ∧
    TornClaim env w ((tasksAbort env).signature.arg ms "claim_id")
      fun _ t => t.state.isTerminal = false)

/-- The methods that may tear. -/
def tearing : List String := ["tasks/post", "tasks/attest", "capabilities/upsert",
  "tasks/execute.event", "tasks/supervise", "tasks/abort"]

theorem TornCall.mem_tearing {name : String} {ms : List (String × Json)}
    (h : TornCall env w name ms) : name ∈ tearing := by
  rcases h with ⟨rfl, -⟩ | ⟨rfl, -⟩ | ⟨rfl, -⟩ | ⟨rfl, -⟩ | ⟨rfl, -⟩ | ⟨rfl, -⟩ <;> simp [tearing]

theorem Harmless.tears_iff {m : Action Json} {name : String} {ms : List (String × Json)}
    (h : Ends m w (Harmless w)) (hname : name ∉ tearing) :
    Tears w (m w) ↔ TornCall env w name ms :=
  iff_of_false (Harmless.not_tears h) fun htorn => hname htorn.mem_tearing

theorem body_tears_iff (hclean : w.doomed = false) (hwf : w.db.WellFormed) {name : String}
    {m : Method} (hm : (name, m) ∈ methods env) (ms : List (String × Json)) :
    Tears w (m.body ms w) ↔ TornCall env w name ms := by
  simp only [methods, List.mem_cons, Prod.mk.injEq, List.not_mem_nil, or_false] at hm
  rcases hm with ⟨rfl, rfl⟩ | ⟨rfl, rfl⟩ | ⟨rfl, rfl⟩ | ⟨rfl, rfl⟩ | ⟨rfl, rfl⟩ | ⟨rfl, rfl⟩ |
    ⟨rfl, rfl⟩ | ⟨rfl, rfl⟩ | ⟨rfl, rfl⟩ | ⟨rfl, rfl⟩ | ⟨rfl, rfl⟩
  · exact Harmless.tears_iff (.inr (.inr rfl)) (by decide)
  · refine (upsertCapabilities_tears_iff hclean _ _ _ _).trans ?_
    simp [TornCall, capabilitiesUpsert]
  · exact Harmless.tears_iff (createSubscription_harmless _ _ _) (by decide)
  · refine (post_tears_iff hclean _ _ _).trans ?_
    simp [TornCall, tasksPost]
  · exact Harmless.tears_iff (claim_harmless _ _ _ _ _) (by decide)
  · exact Harmless.tears_iff executeOpen_harmless (by decide)
  · refine (executeEvent_tears_iff hclean hwf _ _ _ _).trans ?_
    simp [TornCall, tasksExecuteEvent]
  · have hbody := Exec.bind_pure_apply (attest env ((tasksAttest env).signature.arg ms "claim_id")
      ((tasksAttest env).signature.arg ms "attestations")) AttestResult.toJson w
    refine (iff_of_eq (congrArg (Tears w) hbody)).trans ((attest_tears_iff hclean _ _).trans ?_)
    simp [TornCall]
  · refine (supervise_tears_iff hclean _ _).trans ?_
    simp [TornCall, tasksSupervise]
  · refine (abort_tears_iff hclean hwf _ _).trans ?_
    simp [TornCall, tasksAbort]
  · exact Harmless.tears_iff (.inr (.inr rfl)) (by decide)

theorem mapException_database {e : Err} :
    mapException e = .raised .database ↔ e = .raised .database := by
  constructor
  · intro h
    unfold mapException at h
    split at h
    · cases h
    · cases h
    · cases h
    · next message =>
        unfold mapValueError at h
        split at h
        · cases h
        · cases h
    · exact h
  · rintro rfl
    rfl

theorem settle_mapException (r : Except Err Json) (w' : World) :
    (w.settle (r.mapError mapException, w')).db = (w.settle (r, w')).db := by
  cases r with
  | ok v => rfl
  | error e =>
      by_cases he : e = .raised .database
      · rw [he]
        rfl
      · have hne : (.error e : Except Err Json) ≠ .error (.raised .database) :=
          fun h => he (Except.error.inj h)
        have hne' : (.error e : Except Err Json).mapError mapException ≠
            .error (.raised .database) :=
          fun h => he (mapException_database.1 (Except.error.inj h))
        cases hdoomed : w'.doomed with
        | true => rw [settle_of_doomed hdoomed, settle_of_doomed hdoomed]
        | false => rw [settle_of_clean hne hdoomed, settle_of_clean hne' hdoomed]

theorem tears_mapException (m : Action Json) :
    Tears w (Exec.mapError mapException m w) ↔ Tears w (m w) := by
  unfold Tears Exec.mapError
  have hrendered : rendered ((m w).1.mapError mapException) = rendered (m w).1 := by
    cases (m w).1 <;> rfl
  rw [hrendered]
  exact and_congr_right fun _ => not_congr (by rw [settle_mapException])

theorem mem_methods_of_lookup {name : String} {m : Method}
    (h : (methods env).lookup name = some m) :
    (name, m) ∈ methods env := by
  obtain ⟨before, after, hsplit, -⟩ := List.lookup_eq_some_iff.1 h
  rw [hsplit]
  simp

theorem dispatch_tears_iff (hclean : w.doomed = false) (hwf : w.db.WellFormed) (name : String)
    (params : Json) : Tears w (dispatch env (.str name) params w) ↔
      ∃ m ms, (methods env).lookup name = some m ∧
        m.signature.bindParams (params.or (.obj [])) = .ok ms ∧ TornCall env w name ms := by
  unfold dispatch
  dsimp only
  cases hm : (methods env).lookup name with
  | none =>
      refine iff_of_false (not_tears_of_unchanged rfl) ?_
      rintro ⟨m, ms, hm', -⟩
      cases hm'
  | some m =>
      dsimp only
      rw [tears_mapException]
      cases hms : m.signature.bindParams (params.or (.obj [])) with
      | error e =>
          have hcall : m.call (params.or (.obj [])) w = (.error e, w) := by
            rw [Method.call, hms]
            rfl
          rw [hcall]
          refine iff_of_false (not_tears_of_unchanged rfl) ?_
          rintro ⟨m', ms, hm', hms', -⟩
          cases hm'
          cases hms.symm.trans hms'
      | ok ms =>
          have hcall : m.call (params.or (.obj [])) w = m.body ms w := by
            rw [Method.call, hms]
            rfl
          rw [hcall, body_tears_iff hclean hwf (mem_methods_of_lookup hm)]
          constructor
          · intro h
            exact ⟨m, ms, rfl, hms, h⟩
          · rintro ⟨m', ms', hm', hms', h⟩
            cases hm'
            cases hms.symm.trans hms'
            exact h

/-! ## Requests -/

def carriesError : Option Json → Bool
  | some (.obj ms) => (ms.lookup "error").isSome
  | _ => false

/-- If the reply carries an error, the committed database is the one before the request. -/
def FailsClean (w : World) (outcome : Option Json × World) : Prop :=
  carriesError outcome.1 = true → outcome.2.db = w.db

/-- A POST of a call that tears, whose error can be reported. -/
def Request.Torn (env : Env) (w : World) : Request → Prop
  | .rpc payload => ∃ name m ms, member payload "method" = .str name ∧
      member payload "jsonrpc" = .str "2.0" ∧ (member payload "id").finite = true ∧
      (methods env).lookup name = some m ∧
      m.signature.bindParams ((member payload "params").or (.obj [])) = .ok ms ∧
      TornCall env w name ms
  | .ws _ => False

variable {exceptions : Exceptions}

theorem finite_errorReply (id : Json) (code : Int) (message : String) :
    (errorReply id code message).finite = id.finite := by
  simp [errorReply, Json.finite, finiteMembers]

theorem finite_resultReply (id result : Json) :
    (resultReply id result).finite = (id.finite && result.finite) := by
  simp [resultReply, Json.finite, finiteMembers]

theorem finite_rpcReply (id : Json) (outcome : Except Err Json) :
    (rpcReply exceptions id outcome).finite = id.finite := by
  unfold rpcReply
  split
  · next result =>
      split
      · next h =>
          rw [h]
          rw [finite_resultReply, Bool.and_eq_true] at h
          exact h.1.symm
      · exact finite_errorReply _ _ _
  · exact finite_errorReply _ _ _
  · exact finite_errorReply _ _ _

/-- Where the id has a JSON text, the reply is an error exactly if the outcome cannot be
replied. -/
theorem carriesError_rpcReply {id : Json} (hid : id.finite = true) (outcome : Except Err Json) :
    carriesError (some (rpcReply exceptions id outcome)) = true ↔ rendered outcome = false := by
  cases outcome with
  | ok result =>
      rw [rpcReply, finite_resultReply, hid, Bool.true_and]
      cases hresult : result.finite with
      | true => simp [carriesError, resultReply, rendered, hresult]
      | false => simp [carriesError, errorReply, rendered, hresult]
  | error e =>
      refine iff_of_true ?_ rfl
      unfold rpcReply
      split
      · next heq => cases heq
      · rfl
      · rfl

theorem or_or (v d : Json) : (v.or d).or d = v.or d := by
  unfold Json.or
  split
  · rfl
  · exact ite_self d

theorem invalid_failsClean (hclean : w.doomed = false) (reply : Json) :
    FailsClean w (w.respond reply (.ok .null, w)) := by
  intro _
  unfold World.respond
  split
  · exact settle_of_clean nofun hclean
  · rfl

/-- Over POST, a request fails clean exactly if it is not one that tears. -/
theorem rpc_failsClean_iff (hclean : w.doomed = false) (hwf : w.db.WellFormed)
    (payload : List (String × Json)) :
    FailsClean w (rpc env exceptions payload w) ↔ ¬ Request.Torn env w (.rpc payload) := by
  unfold rpc
  cases hmethod : member payload "method" with
  | str name =>
      dsimp only
      by_cases hversion : member payload "jsonrpc" = .str "2.0"
      · rw [if_pos hversion, World.respond, finite_rpcReply]
        have htears := @dispatch_tears_iff env w hclean hwf name
          ((member payload "params").or (.obj []))
        rw [or_or] at htears
        by_cases hid : (member payload "id").finite = true
        · have htorn : Request.Torn env w (.rpc payload) ↔
              Tears w (dispatch env (.str name) ((member payload "params").or (.obj [])) w) := by
            rw [htears]
            constructor
            · rintro ⟨name', m, ms, hname, -, -, h⟩
              cases hmethod.symm.trans hname
              exact ⟨m, ms, h⟩
            · rintro ⟨m, ms, h⟩
              exact ⟨name, m, ms, hmethod, hversion, hid, h⟩
          rw [if_pos hid, htorn, Tears, not_and, not_not, FailsClean, carriesError_rpcReply hid]
        · rw [if_neg hid]
          refine iff_of_true nofun ?_
          rintro ⟨_, _, _, -, -, hid', -⟩
          exact hid hid'
      · rw [if_neg hversion]
        refine iff_of_true (invalid_failsClean hclean _) ?_
        rintro ⟨_, _, _, -, hversion', -⟩
        exact hversion hversion'
  | _ =>
      refine iff_of_true (invalid_failsClean hclean _) ?_
      rintro ⟨_, _, _, hname, -⟩
      cases hmethod.symm.trans hname

theorem ws_failsClean (message : Option Json) : FailsClean w (ws env exceptions message w) := by
  unfold ws World.reply
  split
  · exact fun _ => rfl
  · split
    · split
      · exact fun _ => rfl
      · exact nofun
    · exact fun _ => rfl
  · exact nofun

/-! ## Histories -/

section Histories

variable {α : Type}

theorem body_changes (hwf : w.db.WellFormed) {name : String} {m : Method}
    (hm : (name, m) ∈ methods env) (ms : List (String × Json)) :
    Ends (m.body ms) w (Committed fun db => ∃ call, Changes env call w.db db) := by
  have hmono : ∀ {m : Action Json} {call : Call}, Ends m w (Committed (Changes env call w.db)) →
      Ends m w (Committed fun db => ∃ call, Changes env call w.db db) :=
    fun h => Ends.mono h fun _ _ h hr hdoomed => ⟨_, h hr hdoomed⟩
  -- a method that only reads is a call of any kind
  have hread : ∃ call, Changes env call w.db w.db := ⟨.executeOpen .null, Changes.refl⟩
  simp only [methods, List.mem_cons, Prod.mk.injEq, List.not_mem_nil, or_false] at hm
  rcases hm with ⟨rfl, rfl⟩ | ⟨rfl, rfl⟩ | ⟨rfl, rfl⟩ | ⟨rfl, rfl⟩ | ⟨rfl, rfl⟩ | ⟨rfl, rfl⟩ |
    ⟨rfl, rfl⟩ | ⟨rfl, rfl⟩ | ⟨rfl, rfl⟩ | ⟨rfl, rfl⟩ | ⟨rfl, rfl⟩
  · exact Committed.of hread
  · exact hmono (upsertCapabilities_changes _ _ _ _)
  · exact hmono (createSubscription_changes _ _ _)
  · exact hmono (post_changes _ _ _)
  · exact hmono (claim_changes hwf _ _ _ _ _)
  · exact hmono (executeOpen_changes hwf _)
  · exact hmono (executeEvent_changes _ _ _ _ _)
  · refine Ends.bind (Ends.mono (attest_changes hwf _ _) ?_)
    rintro (e | a) w' h
    · exact Committed.raised fun hr hdoomed => ⟨_, h hr hdoomed⟩
    · refine Ends.pure (Committed.returned (a := a) fun hr hdoomed => ⟨_, h hr hdoomed⟩)
  · exact hmono (supervise_changes hwf _ _ _)
  · exact hmono (abort_changes hwf _ _ _)
  · exact Committed.of hread

theorem dispatch_changes (hwf : w.db.WellFormed) (method params : Json) :
    ∃ call, Changes env call w.db (w.settle (dispatch env method params w)).db := by
  have hread : ∃ call, Changes env call w.db w.db := ⟨.executeOpen .null, Changes.refl⟩
  have hraise : ∀ e : Err,
      ∃ call, Changes env call w.db (w.settle (Exec.raise e w : Except Err Json × World)).db :=
    fun e => @settle_db _ w (Exec.raise e) (fun db => ∃ call, Changes env call w.db db) hread
      (Committed.of hread)
  unfold dispatch
  split
  · next name =>
    cases hm : (methods env).lookup name with
    | none => exact hraise _
    | some m =>
        show ∃ call, Changes env call w.db
          (w.settle ((m.call (params.or (.obj [])) w).1.mapError mapException,
            (m.call (params.or (.obj [])) w).2)).db
        rw [settle_mapException]
        refine @settle_db _ w (m.call (params.or (.obj [])))
          (fun db => ∃ call, Changes env call w.db db) hread
          (Ends.lift_bind ?_ fun e _ => Committed.of hread)
        intro ms _
        exact body_changes hwf (mem_methods_of_lookup hm) ms
  · split
    · exact hraise _
    · exact hraise _

/-- The state that a transaction starts from: nothing pending, and the tables well formed. -/
def World.Ready (w : World) : Prop := w.doomed = false ∧ w.db.WellFormed

/-- A state that one transaction leaves: nothing is pending, and the database has gone through the
changes of one call. -/
def Transacted (env : Env) (w w' : World) : Prop :=
  w'.doomed = false ∧ ∃ call, Changes env call w.db w'.db

theorem Transacted.unchanged {w' : World} (hclean : w'.doomed = false) (h : w'.db = w.db) :
    Transacted env w w' := ⟨hclean, .executeOpen .null, h ▸ Changes.refl⟩

theorem transacted_dispatch (h : w.Ready) (method params : Json) :
    Transacted env w (w.settle (dispatch env method params w)) :=
  ⟨settle_doomed _ _, dispatch_changes h.2 method params⟩

theorem transacted_rollback (outcome : Except Err Json × World) :
    Transacted env w (w.rollback outcome) :=
  Transacted.unchanged rfl rfl

theorem transacted_respond {outcome : Except Err Json × World}
    (hsettle : Transacted env w (w.settle outcome)) (reply : Json) :
    Transacted env w (w.respond reply outcome).2 := by
  unfold World.respond
  split
  · exact hsettle
  · exact transacted_rollback outcome

theorem rpc_transacted (h : w.Ready) (payload : List (String × Json)) :
    Transacted env w (rpc env exceptions payload w).2 := by
  have hinvalid : Transacted env w (w.settle ((.ok .null : Except Err Json), w)) :=
    Transacted.unchanged (settle_doomed _ _)
      (settle_db (m := pure Json.null) (R := fun db => db = w.db) rfl (Committed.of rfl))
  unfold rpc
  split
  · split
    · exact transacted_respond (transacted_dispatch h _ _) _
    · exact transacted_respond hinvalid _
  · exact transacted_respond hinvalid _

theorem ws_transacted (h : w.Ready) (message : Option Json) :
    Transacted env w (ws env exceptions message w).2 := by
  unfold ws World.reply
  split
  · exact Transacted.unchanged h.1 rfl
  · split
    · split
      · exact transacted_rollback _
      · exact transacted_dispatch h _ _
    · exact transacted_rollback _
  · exact Transacted.unchanged h.1 rfl

theorem eventStep_transacted (h : w.Ready) (event : Event) :
    Transacted env w (eventStep env exceptions w event) := by
  cases event with
  | request r =>
      cases r with
      | rpc payload => exact rpc_transacted h payload
      | ws message => exact ws_transacted h message
  | call c => exact ⟨step_doomed env w c, c, step_changes env h.2 c⟩

/-- What every change keeps holds in every state that events reach, which is ready for the next
transaction. -/
theorem served_invariant {Inv : Db → Prop} (env : Env) (exceptions : Exceptions)
    (workers : List WcpWorker) (history : List Event) (hinit : Inv (initial workers).db)
    (hchange : ∀ call db db', db.WellFormed → Change env call db db' → Inv db → Inv db') :
    (served env exceptions workers history).Ready ∧
      Inv (served env exceptions workers history).db := by
  refine @run_invariant _ _ (eventStep env exceptions) (fun w : World => w.Ready ∧ Inv w.db)
    (fun _ => True) ?_ (initial workers) history ⟨⟨rfl, initial_wellFormed workers⟩, hinit⟩
    fun _ _ => trivial
  rintro w event ⟨h, hinv⟩ -
  obtain ⟨hclean, call, hchanges⟩ := @eventStep_transacted env w exceptions h event
  exact ⟨⟨hclean, hchanges.wellFormed h.2⟩, hchanges.invariant h.2 hinv (hchange call)⟩

theorem served_ready (env : Env) (exceptions : Exceptions) (workers : List WcpWorker)
    (history : List Event) : (served env exceptions workers history).Ready :=
  (@served_invariant (fun _ => True) env exceptions workers history trivial
    fun _ _ _ _ _ _ => trivial).1

end Histories

/-- What the interpreter says when a list is asked for a member. -/
def localExceptions : Exceptions where
  str _ := "'list' object has no attribute 'get'"
  typeName _ := "AttributeError"

/-- Post a task whose `constraints` are a list. -/
def listConstraints : Request :=
  .rpc [
    ("jsonrpc", .str "2.0"),
    ("id", .int 1),
    ("method", .str "tasks/post"),
    ("params", .obj [
      ("task", .obj [
        ("task_id", .str "t1"),
        ("posted_by", .str oneDid),
        ("constraints", .arr [.str "x"]),
        ("attestation_requirement", .obj anySensor)]),
      ("expiry", localDate)])]

end Wcp.Coordinator
