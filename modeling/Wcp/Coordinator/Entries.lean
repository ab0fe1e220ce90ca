import Mathlib.Logic.Relation
import Wcp.Coordinator.Operations
/-!
# The entries a call appends

Whatever a call does, it only ever extends the audit table, by entries that
`append` built from a payload of the call: the payload of an event for
`execute_event`, an object of the coordinator's own for every other method.
Each one is linked to an entry that stood before it (`step_extends`).
-/

namespace Wcp.Coordinator

open Wcp.Base

variable {env : Env} {α β : Type} {R : List WcpAudit → WcpAudit → Prop}

/-! ## Actions that only append -/

/-- The audit table has been extended by entries in `S`. -/
def Db.Grown (S : WcpAudit → Prop) (db db' : Db) : Prop :=
  ∃ added, db'.audit = db.audit ++ added ∧ ∀ e ∈ added, S e

/-- An audit table is extended, entry by entry, by what `R` admits after the entries before. -/
def Extended (R : List WcpAudit → WcpAudit → Prop) : List WcpAudit → List WcpAudit → Prop :=
  Relation.ReflTransGen fun es es' => ∃ e, R es e ∧ es' = es ++ [e]

/-- What holds of every entry that `R` admits holds of the added ones. -/
theorem Extended.grown {S : WcpAudit → Prop} {db db' : Db} (h : Extended R db.audit db'.audit)
    (hadmits : ∀ es e, R es e → S e) : db.Grown S db' := by
  unfold Db.Grown
  generalize db'.audit = es at h ⊢
  induction h with
  | refl => exact ⟨[], (List.append_nil _).symm, fun _ he => absurd he List.not_mem_nil⟩
  | tail _ hlast ih =>
      obtain ⟨e, he, rfl⟩ := hlast
      obtain ⟨added, haudit, hadded⟩ := ih
      refine ⟨added ++ [e], by rw [haudit, List.append_assoc], ?_⟩
      rw [List.forall_mem_append, List.forall_mem_singleton]
      exact ⟨hadded, hadmits _ _ he⟩

/-- Unless the database refuses a write, an action only extends the audit table. -/
def Appends (R : List WcpAudit → WcpAudit → Prop) (m : Action α) : Prop :=
  ∀ w, (m w).1 ≠ .error (.raised .database) → Extended R w.db.audit (m w).2.db.audit

namespace Appends

theorem quiet {m : Action α} (h : ∀ w, (m w).2.db.audit = w.db.audit) : Appends R m :=
  fun w _ => (h w).symm ▸ Relation.ReflTransGen.refl

theorem pure (a : α) : Appends R (Pure.pure a) := quiet fun _ => rfl

theorem raise (e : Err) : Appends R (Exec.raise e : Action α) := quiet fun _ => rfl

theorem lift (x : Except Err α) : Appends R (Exec.lift x) := quiet fun _ => rfl

theorem readDb (f : Db → Except Err α) : Appends R (readDb f) := quiet fun _ => rfl

theorem utcnow : Appends R (utcnow env) := quiet fun _ => rfl

theorem uuid4 : Appends R (uuid4 env) := quiet fun _ => rfl

theorem writeDb {f : Db → Db} (h : ∀ db, (f db).audit = db.audit) : Appends R (writeDb f) :=
  quiet fun w => h w.db

theorem doom : Appends R doom := quiet fun _ => rfl

theorem flush : Appends R flush := by
  refine quiet fun w => ?_
  unfold Coordinator.flush
  split <;> rfl

theorem require {c : Prop} [Decidable c] (e : Err) :
    Appends R (Exec.require c e : Action Unit) := by
  unfold Exec.require
  split
  · exact pure ()
  · exact raise e

theorem bind {m : Action α} {f : α → Action β} (hm : Appends R m) (hf : ∀ a, Appends R (f a)) :
    Appends R (m >>= f) := by
  intro w
  have hfirst := hm w
  rw [Exec.bind_apply]
  rcases hr : m w with ⟨e | a, w'⟩
  · rw [hr] at hfirst
    intro hne
    exact hfirst fun heq => hne (by cases heq; rfl)
  · rw [hr] at hfirst
    intro hne
    exact Relation.ReflTransGen.trans (hfirst nofun) (hf a w' hne)

theorem readDb_bind {f : Db → Except Err α} {k : α → Action β}
    (hk : ∀ db a, f db = .ok a → Appends R (k a)) : Appends R (Coordinator.readDb f >>= k) := by
  intro w
  have hread : Coordinator.readDb f w = (f w.db, w) := rfl
  rw [Exec.bind_apply, hread]
  cases hf : f w.db with
  | ok a => exact hk w.db a hf w
  | error e => exact fun _ => Relation.ReflTransGen.refl

theorem append {eventType payload claimId taskId : Json} {actorDid : String}
    (h : ∀ query (db : Db) storedType claim task micros prev id,
      env.bindColumn eventType = some storedType → env.bindNullable claimId = some claim →
      env.bindNullable taskId = some task → predecessor env query db claimId = .ok prev →
      R db.audit (buildEntry env eventType storedType actorDid payload claimId taskId claim task
        micros prev id)) :
    Appends R (append env eventType actorDid payload claimId taskId none) := by
  intro w
  have hclock := normalizeTimestamp_utc (env.clock_lt w.tick)
  have hends : Exec.Ends (Coordinator.append env eventType actorDid payload claimId taskId none) w
      fun r w' => r ≠ .error (.raised .database) → Extended R w.db.audit w'.db.audit := by
    rw [append_none]
    with_reducible refine utcnow_bind ?_
    with_reducible refine append_ends hclock ?_ ?_ ?_
    · rintro r entry storedType claim task - hs hc ht ⟨prev, hprev, rfl⟩ -
      exact Relation.ReflTransGen.single ⟨_, h _ _ _ _ _ _ _ _ hs hc ht hprev, rfl⟩
    · exact fun _ _ _ hne => absurd rfl hne
    · exact fun _ _ _ => Relation.ReflTransGen.refl
  exact hends

theorem settle {m : Action α} (h : Appends R m) (w : World) :
    Extended R w.db.audit (w.settle (m w)).db.audit :=
  settle_db (R := fun db => Extended R w.db.audit db.audit) Relation.ReflTransGen.refl
    fun hne _ => h w hne

end Appends

/-! ## The methods -/

/-- The event, the payload, the claim and the task with which a call appends an entry. -/
inductive Call.Writes : Call → Json → Json → Json → Json → Prop
  | post {task expiry informational taskId : Json} {name : String} {ms : List (String × Json)} :
      Writes (.post task expiry informational) (.str name) (.obj ms) .null taskId
  | claim {taskId workerId eta acceptance bid : Json} {name id : String}
      {ms : List (String × Json)} :
      Writes (.claim taskId workerId eta acceptance bid) (.str name) (.obj ms) (.str id) taskId
  | executeOpen {claimId : Json} {name task : String} {ms : List (String × Json)} :
      Writes (.executeOpen claimId) (.str name) (.obj ms) claimId (.str task)
  | executeEvent {claimId eventType timestamp payload sig : Json} {task : String} :
      Writes (.executeEvent claimId eventType timestamp payload sig) eventType payload claimId
        (.str task)
  | checkHeartbeats {now : Option DateTime} {name id task : String} {ms : List (String × Json)} :
      Writes (.checkHeartbeats now) (.str name) (.obj ms) (.str id) (.str task)
  | attest {claimId attestations : Json} {name task : String} {ms : List (String × Json)} :
      Writes (.attest claimId attestations) (.str name) (.obj ms) claimId (.str task)
  | supervise {claimId handoffReason urgency : Json} {name task : String}
      {ms : List (String × Json)} :
      Writes (.supervise claimId handoffReason urgency) (.str name) (.obj ms) claimId (.str task)
  | abort {claimId reason stateSnapshot : Json} {name task : String} {ms : List (String × Json)} :
      Writes (.abort claimId reason stateSnapshot) (.str name) (.obj ms) claimId (.str task)

/-- An entry that `append` built for a call, from values that the driver stores. -/
def Call.Built (env : Env) (call : Call) (e : WcpAudit) : Prop :=
  ∃ eventType payload claimId taskId storedType actorDid claim task micros prev id,
    call.Writes eventType payload claimId taskId ∧ env.bindColumn eventType = some storedType ∧
      env.bindNullable claimId = some claim ∧ env.bindNullable taskId = some task ∧
      e = buildEntry env eventType storedType actorDid payload claimId taskId claim task micros
        prev id

/-- The entry stands after the entries before it: it is linked to one of its claim among them, and
only the posting of a task is about no claim. -/
def Call.BuiltAt (env : Env) (call : Call) (es : List WcpAudit) (e : WcpAudit) : Prop :=
  ∃ eventType payload claimId taskId storedType actorDid claim task micros prev id query,
    ∃ db : Db, db.audit = es ∧ predecessor env query db claimId = .ok prev ∧
      (claimId = .null → eventType = .str "task_posted") ∧
      call.Writes eventType payload claimId taskId ∧ env.bindColumn eventType = some storedType ∧
      env.bindNullable claimId = some claim ∧ env.bindNullable taskId = some task ∧
      e = buildEntry env eventType storedType actorDid payload claimId taskId claim task micros
        prev id

theorem Call.BuiltAt.built {call : Call} {es : List WcpAudit} {e : WcpAudit}
    (h : call.BuiltAt env es e) : call.Built env e := by
  obtain ⟨_, _, _, _, _, _, _, _, _, _, _, _, _, -, -, -, hbuilt⟩ := h
  exact ⟨_, _, _, _, _, _, _, _, _, _, _, hbuilt⟩

theorem append_built {call : Call} {eventType payload claimId taskId : Json} {actorDid : String}
    (h : call.Writes eventType payload claimId taskId)
    (hposting : claimId = .null → eventType = .str "task_posted") :
    Appends (call.BuiltAt env) (append env eventType actorDid payload claimId taskId none) :=
  .append fun _ _ _ _ _ _ _ _ hs hc ht hprev =>
    ⟨_, _, _, _, _, _, _, _, _, _, _, _, _, rfl, hprev, hposting, h, hs, hc, ht, rfl⟩

theorem claimAndTask_ne_null {db : Db} {claimId : Json} {c : WcpClaim} {t : WcpTask}
    (h : claimAndTask env db claimId = .ok (c, t)) : claimId ≠ .null := by
  rintro rfl
  cases (claimAndTask_key h).2

theorem setState_appends (t : WcpTask) (s : TaskState) : Appends R (setState t s) :=
  .writeDb fun _ => rfl

theorem insertTask_appends (plan : PostPlan) (at' : DateTime) :
    Appends R (insertTask env plan at') := by
  refine .quiet fun w => ?_
  unfold insertTask
  split
  · split <;> rfl
  · rfl

theorem post_appends (task expiry informational : Json) :
    Appends ((Call.post task expiry informational).BuiltAt env)
      (post env task expiry informational) := by
  refine .bind .uuid4 fun fresh => .bind (.lift _) fun plan => .bind .utcnow fun postedAt =>
    .bind (insertTask_appends plan postedAt) fun _ => .bind (.lift _) fun accountingRef =>
    .bind (append_built .post fun _ => rfl) fun _ => .bind (.readDb _) fun _ => .pure _

theorem claimWrite_appends (t : WcpTask) (worker : WcpWorker) (eta now : DateTime)
    (acceptance bid : Json) (claimId : String) :
    Appends R (claimWrite env t worker eta acceptance bid now claimId) := by
  refine .quiet fun w => ?_
  unfold claimWrite
  split
  · rfl
  · split <;> rfl

theorem claim_appends (taskId workerId eta acceptance bid : Json) :
    Appends ((Call.claim taskId workerId eta acceptance bid).BuiltAt env)
      (claim env taskId workerId eta acceptance bid) := by
  refine .bind (.readDb _) fun t => .bind .utcnow fun now => .bind (.lift _) fun _ =>
    .bind (.readDb _) fun worker => .bind (.lift _) fun resolved => .bind (.readDb _) fun _ =>
    .bind (.lift _) fun etaTime => .bind .utcnow fun heartbeat => .bind .uuid4 fun claimId =>
    .bind (claimWrite_appends _ _ _ _ _ _ _) fun _ =>
    .bind (append_built .claim nofun) fun _ => .pure _

theorem insertSession_appends (sessionId : String) (claimId : Json) :
    Appends R (insertSession env sessionId claimId) := by
  unfold insertSession
  split
  · exact .writeDb fun _ => rfl
  · exact .doom

theorem executeOpen_appends (claimId : Json) :
    Appends ((Call.executeOpen claimId).BuiltAt env) (executeOpen env claimId) := by
  refine .readDb_bind ?_
  rintro db ⟨c, t⟩ hct
  have hnull := claimAndTask_ne_null hct
  refine .bind (.require _) fun _ => .bind .uuid4 fun sessionId =>
    .bind (insertSession_appends _ _) fun _ => .bind (setState_appends _ _) fun _ =>
    .bind .flush fun _ => .bind (append_built .executeOpen fun h => absurd h hnull) fun _ => .pure _

theorem recordHeartbeat_appends (c : WcpClaim) (eventType timestamp : Json) :
    Appends R (recordHeartbeat env c eventType timestamp) := by
  unfold recordHeartbeat
  split
  · exact .bind (.lift _) fun _ => .bind (.writeDb fun _ => rfl) fun _ => .flush
  · exact .pure ()

theorem executeEvent_appends (claimId eventType timestamp payload sig : Json) :
    Appends ((Call.executeEvent claimId eventType timestamp payload sig).BuiltAt env)
      (executeEvent env claimId eventType timestamp payload sig) := by
  refine .readDb_bind ?_
  rintro db ⟨c, t⟩ hct
  have hnull := claimAndTask_ne_null hct
  refine .bind (.require _) fun _ => .bind (.lift _) fun _ =>
    .bind (recordHeartbeat_appends _ _ _) fun _ =>
      .bind (append_built .executeEvent fun h => absurd h hnull) fun _ => .pure _

theorem promoteStale_appends (now : Option DateTime) (cutoff : DateTime)
    (rows : List (WcpClaim × WcpTask)) :
    Appends ((Call.checkHeartbeats now).BuiltAt env) (promoteStale env cutoff rows) := by
  induction rows with
  | nil => exact .pure _
  | cons row rows ih =>
      obtain ⟨c, t⟩ := row
      unfold promoteStale
      cases c.lastHeartbeatAt with
      | none => exact ih
      | some hb =>
          refine .bind (.lift _) fun stale => ?_
          cases stale with
          | false => exact ih
          | true =>
              refine .bind (setState_appends _ _) fun _ => ?_
              refine .bind (append_built .checkHeartbeats (by simp)) fun _ => ?_
              exact .bind ih fun _ => .pure _

theorem checkHeartbeats_appends (now : Option DateTime) :
    Appends ((Call.checkHeartbeats now).BuiltAt env) (checkHeartbeats env now) := by
  have hrest (at' : DateTime) : Appends ((Call.checkHeartbeats now).BuiltAt env) (do
      let cutoff ← Exec.lift (at'.minus (heartbeatSeconds * missedHeartbeats * 1000000))
      let staleRows ← readDb fun db => Except.ok db.executingRows
      promoteStale env cutoff staleRows) :=
    .bind (.lift _) fun _ => .bind (.readDb _) fun _ => promoteStale_appends now _ _
  unfold checkHeartbeats
  cases now with
  | none => exact .bind .utcnow hrest
  | some at' => exact hrest at'

theorem collectEvidence_appends (c : WcpClaim) (resolved : ResolvedDID)
    (claimId taskPayload : Json) (evs : List Json) :
    Appends R (collectEvidence env c resolved claimId taskPayload evs) := by
  induction evs with
  | nil => exact .pure _
  | cons ev evs ih =>
      unfold collectEvidence
      refine .bind (.lift _) fun verdict => ?_
      have hrest : Appends R (collectEvidence env c resolved claimId taskPayload evs >>= fun rest =>
          Pure.pure ((verdict.mode, verdict.outcome) :: rest)) := .bind ih fun _ => .pure _
      cases verdict.row with
      | none => exact hrest
      | some row =>
          refine .bind ?_ fun _ => hrest
          refine .bind .uuid4 fun attestationId => ?_
          split
          · exact .writeDb fun _ => rfl
          · exact .doom

theorem routeDecision_appends {claimId : Json} (hnull : claimId ≠ .null) (attestations : Json)
    (t : WcpTask) (attempt : Nat) (remaining : Int) (accountingRef : Json)
    (aggregate : VerificationOutcome) :
    Appends ((Call.attest claimId attestations).BuiltAt env)
      (routeDecision env t claimId attempt remaining accountingRef aggregate) := by
  have hmove (state : TaskState) (name : String) (payload : List (String × Json)) :
      Appends ((Call.attest claimId attestations).BuiltAt env) (do
        setState t state
        let _ ← append env (.str name) coordinatorDid (.obj payload) claimId (.str t.taskId)
          none) :=
    .bind (setState_appends _ _) fun _ =>
      .bind (append_built .attest fun h => absurd h hnull) fun _ => .pure _
  unfold routeDecision
  split
  · exact hmove _ _ _
  · split
    · exact hmove _ _ _
    · exact hmove _ _ _
  · exact .pure _

theorem attest_appends (claimId attestations : Json) :
    Appends ((Call.attest claimId attestations).BuiltAt env)
      (attest env claimId attestations) := by
  refine .readDb_bind ?_
  rintro db ⟨c, t⟩ hct
  have hnull := claimAndTask_ne_null hct
  refine .bind (.lift _) fun _ => .bind (.lift _) fun req => .bind (.lift _) fun taskPayload =>
    .bind (.lift _) fun limit => .bind (.lift _) fun resolved => .bind (.lift _) fun items =>
    .bind (collectEvidence_appends _ _ _ _ _) fun outcomes => .bind (.lift _) fun aggregate =>
    .bind (.writeDb fun _ => rfl) fun _ =>
    .bind (append_built .attest fun h => absurd h hnull) fun _ =>
      .bind (.lift _) fun accountingRef =>
    .bind (routeDecision_appends hnull attestations _ _ _ _ _) fun _ =>
      .bind .flush fun _ => .pure _

theorem supervise_appends (claimId handoffReason urgency : Json) :
    Appends ((Call.supervise claimId handoffReason urgency).BuiltAt env)
      (supervise env claimId handoffReason urgency) := by
  refine .readDb_bind ?_
  rintro db ⟨c, t⟩ hct
  have hnull := claimAndTask_ne_null hct
  refine .bind (.require _) fun _ => .bind (setState_appends _ _) fun _ => .bind .flush fun _ =>
    .bind .uuid4 fun sessionKey =>
      .bind (append_built .supervise fun h => absurd h hnull) fun _ => .pure _

theorem abort_appends (claimId reason stateSnapshot : Json) :
    Appends ((Call.abort claimId reason stateSnapshot).BuiltAt env)
      (abort env claimId reason stateSnapshot) := by
  refine .readDb_bind ?_
  rintro db ⟨c, t⟩ hct
  have hnull := claimAndTask_ne_null hct
  refine .bind (.require _) fun _ => .bind (setState_appends _ _) fun _ =>
    .bind (.lift _) fun accountingRef => .bind .flush fun _ =>
    .bind (append_built .abort fun h => absurd h hnull) fun _ => .bind .uuid4 fun abortId => .pure _

theorem storeWorker_appends (existing : Option WcpWorker) (did : String) (workerClass : WorkerClass)
    (capabilities principalId ttlSeconds : Json) (asOf : DateTime) :
    Appends R
      (storeWorker env existing did workerClass capabilities principalId ttlSeconds asOf) := by
  unfold storeWorker
  split
  · exact .bind (.writeDb fun _ => rfl) fun _ => .flush
  · exact .quiet fun _ => rfl
  · exact .quiet fun _ => rfl
  · exact .quiet fun _ => rfl

theorem upsertCapabilities_appends (workerId capabilities principalId ttlSeconds : Json) :
    Appends R (upsertCapabilities env workerId capabilities principalId ttlSeconds) := by
  refine .bind (.lift _) fun resolved => .bind (.lift _) fun schemaVersion =>
    .bind (.require _) fun _ => .bind (.lift _) fun workerClassStr =>
    .bind (.lift _) fun workerClass => .bind (.readDb _) fun existing => .bind .utcnow fun asOf =>
    .bind (storeWorker_appends _ _ _ _ _ _ _) fun _ => .pure _

theorem createSubscription_appends (agentDid filterDict sinceRevision : Json) :
    Appends R (createSubscription env agentDid filterDict sinceRevision) := by
  refine .bind (.lift _) fun resolved => .bind .uuid4 fun subscriptionId => ?_
  split
  · exact .bind (.writeDb fun _ => rfl) fun _ => .bind .flush fun _ => .pure _
  · exact .bind .doom fun _ => .bind .flush fun _ => .pure _

/-! ## Steps and runs -/

/-- A call only extends the audit table, by entries built from its payloads. -/
theorem step_extends (env : Env) (w : World) (call : Call) :
    Extended (call.BuiltAt env) w.db.audit (step env w call).db.audit := by
  cases call with
  | post task expiry informational => exact (post_appends _ _ _).settle w
  | claim taskId workerId eta acceptance bid => exact (claim_appends _ _ _ _ _).settle w
  | executeOpen claimId => exact (executeOpen_appends _).settle w
  | executeEvent claimId eventType timestamp payload sig =>
      exact (executeEvent_appends _ _ _ _ _).settle w
  | checkHeartbeats now => exact (checkHeartbeats_appends _).settle w
  | attest claimId attestations => exact (attest_appends _ _).settle w
  | supervise claimId handoffReason urgency => exact (supervise_appends _ _ _).settle w
  | abort claimId reason stateSnapshot => exact (abort_appends _ _ _).settle w
  | upsertCapabilities workerId capabilities principalId ttlSeconds =>
      exact (upsertCapabilities_appends _ _ _ _).settle w
  | createSubscription agentDid filterDict sinceRevision =>
      exact (createSubscription_appends _ _ _).settle w

/-- What every entry that an admissible call adds satisfies holds of all entries in every state
that admissible calls reach. -/
theorem reach_entriesAt {Q : WcpAudit → Prop} {Ok : Call → Prop}
    (hbuilt : ∀ call es e, Ok call → call.BuiltAt env es e → Q e) (workers : List WcpWorker)
    {calls : List Call} (hok : ∀ call ∈ calls, Ok call) :
    ∀ e ∈ (reach env workers calls).db.audit, Q e := by
  refine @run_invariant _ _ (step env) (fun w => ∀ e ∈ w.db.audit, Q e) Ok ?_ (initial workers)
    calls (fun _ he => absurd he List.not_mem_nil) hok
  intro w call hw hcall e he
  obtain ⟨added, haudit, hadded⟩ :=
    (step_extends env w call).grown fun es e h => hbuilt call es e hcall h
  rw [haudit, List.mem_append] at he
  rcases he with he | he
  · exact hw e he
  · exact hadded e he

theorem reach_entries {Q : WcpAudit → Prop} {Ok : Call → Prop}
    (hbuilt : ∀ call e, Ok call → call.Built env e → Q e) (workers : List WcpWorker)
    {calls : List Call} (hok : ∀ call ∈ calls, Ok call) :
    ∀ e ∈ (reach env workers calls).db.audit, Q e :=
  reach_entriesAt (fun call _ e hcall h => hbuilt call e hcall h.built) workers hok

end Wcp.Coordinator
