import Wcp.Coordinator.Atomicity
import Wcp.Coordinator.Submissions
/-!
# Which requests end in the taxonomy

The dispatcher turns some exceptions into errors of the protocol, and lets the rest
through.  For every method this module gives the exact condition on its arguments and
on the database under which it returns or raises one that is mapped: the values it
comes to use, in the order in which it does, have the shapes that it needs and are
stored by the driver.
-/

namespace Wcp.Coordinator

open Wcp.Base
open Wcp.Base.Exec

variable {env : Env} {w : World} {α β : Type}

/-! ## Actions -/

/-- The outcome is in the taxonomy exactly under a condition. -/
abbrev Maps (C : Prop) : Except Err α → World → Prop := OnlyIff Mapped C

theorem maps_readDb_bind {g : Db → Except Err α} {f : α → Action β} {P : Prop} {C : α → Prop}
    (hg : RaisesOnly Mapped (g w.db) ↔ P)
    (hf : ∀ a, g w.db = .ok a → Ends (f a) w (Maps (C a))) :
    Ends (readDb g >>= f) w (Maps (P ∧ ∀ a, g w.db = .ok a → C a)) :=
  OnlyIff.reads_bind hg hf

theorem maps_get_bind {v : Json} {key : String} {f : Json → Action β} {C : Prop}
    (hf : v.isObject = true → Ends (f (v.member key)) w (Maps C)) :
    Ends (Exec.lift (v.get key) >>= f) w (Maps (v.isObject = true ∧ C)) := by
  rw [Json.get_eq]
  by_cases hobject : v.isObject = true
  · rw [if_pos hobject, and_iff_right hobject]
    exact hf hobject
  · rw [if_neg hobject]
    exact iff_of_false (fun h => h .attributeError rfl) fun h => hobject h.1

theorem maps_resolveOrRefuse_bind {label : String} {did : Json} {f : ResolvedDID → Action β}
    {C : Prop} (hf : ∀ r, resolve env did = .ok r → Ends (f r) w (Maps C)) :
    Ends (Exec.lift (resolveOrRefuse env label did) >>= f) w
      (Maps (did.isText = true ∧ (Returns (resolve env did) → C))) := by
  refine OnlyIff.congr (OnlyIff.lift_bind (C := fun _ => C) (mapped_resolveOrRefuse label did)
    fun r hr => hf r (resolveOrRefuse_eq_ok hr)) (and_congr_right fun _ => ?_)
  simp only [resolveOrRefuse_eq_ok_iff]
  exact returns_imp.symm

/-- An entry goes in where the driver stores it; a refusal of the database is not foreseen. -/
theorem maps_append_bind {eventType payload claimId taskId : Json} {actorDid : String} {C : Prop}
    {f : AuditAppendResult → Action β} (hclean : w.doomed = false)
    (hf : ∀ r entry, Ends (f r) (w.withEntry entry 2) (Maps C)) :
    Ends (append env eventType actorDid payload claimId taskId none >>= f) w
      (Maps (env.stores eventType claimId taskId = true ∧ C)) := by
  with_reducible refine append_bind_cases ?_ ?_ ?_
  · intro r entry _ hstores
    exact OnlyIff.congr (hf r entry) (and_iff_right hstores).symm
  · intro hbad _ _
    exact iff_of_false (fun h => h _ rfl) fun h => hbad ⟨hclean, h.1⟩
  · intro hunsent _
    refine iff_of_false (fun h => h _ rfl) fun h => ?_
    cases (unsent_of_stores h.1).symm.trans hunsent

/-- The claim and the task that a request is about, where a claim is looked up under the id. -/
def OnClaim (env : Env) (db : Db) (claimId : Json) (C : WcpClaim → WcpTask → Prop) : Prop :=
  KeyOperand env "claim_id" claimId ∧
    ∀ c t, claimAndTask env db claimId = .ok (c, t) → C c t

theorem mapped_claimAndTask (db : Db) (claimId : Json) :
    RaisesOnly Mapped (claimAndTask env db claimId) ↔ KeyOperand env "claim_id" claimId := by
  rw [claimAndTask, Db.getClaim, LawfulMonad.bind_assoc, raisesOnly_bind, mapped_lookupKey]
  refine and_iff_left fun key _ => ?_
  rw [LawfulMonad.pure_bind]
  split
  · exact raisesOnly_error.2 trivial
  · split
    · exact raisesOnly_error.2 trivial
    · exact raisesOnly_pure _

theorem maps_onClaim_bind {claimId : Json} {f : WcpClaim × WcpTask → Action β}
    {C : WcpClaim → WcpTask → Prop}
    (hf : ∀ c t, claimAndTask env w.db claimId = .ok (c, t) → Ends (f (c, t)) w (Maps (C c t))) :
    Ends (readDb (fun db => claimAndTask env db claimId) >>= f) w
      (Maps (OnClaim env w.db claimId C)) := by
  refine OnlyIff.congr
    (maps_readDb_bind (C := fun ct => C ct.1 ct.2) (mapped_claimAndTask _ _) ?_) ?_
  · rintro ⟨c, t⟩ hct
    exact hf c t hct
  · exact and_congr_right fun _ => Prod.forall

/-! ## Methods on a claim -/

section OnClaim

variable {claimId : Json}

/-- `tasks/execute`. -/
def ExecuteOpenOperands (env : Env) (db : Db) (claimId : Json) : Prop :=
  OnClaim env db claimId fun _ t => t.state = .claimed ∨ t.state = .supervising →
    env.stores (.str "execution_started") claimId (.str t.taskId) = true

theorem executeOpen_maps (hclean : w.doomed = false) :
    Ends (executeOpen env claimId) w (Maps (ExecuteOpenOperands env w.db claimId)) := by
  unfold executeOpen
  refine maps_onClaim_bind fun c t hct => OnlyIff.require_bind trivial fun _ => ?_
  refine uuid4_bind (insertSession_bind (fun stored _ => ?_) fun hnone => ?_)
  · refine writeDb_bind (flush_clean_bind hclean ?_)
    exact OnlyIff.congr (maps_append_bind hclean fun _ _ => OnlyIff.pure _) (and_iff_left trivial)
  · refine writeDb_bind (flush_bind (fun hdoomed => by cases hdoomed) ?_)
    refine iff_of_false (fun h => h _ rfl) fun hstores => ?_
    cases hnone.symm.trans (bindColumn_of_stores hct hstores)

/-- `tasks/supervise`. -/
def SuperviseOperands (env : Env) (db : Db) (claimId : Json) : Prop :=
  OnClaim env db claimId fun _ t => t.state = .executing ∨ t.state = .supervising →
    env.stores (.str "supervision_handoff") claimId (.str t.taskId) = true

theorem supervise_maps (hclean : w.doomed = false) (handoffReason urgency : Json) :
    Ends (supervise env claimId handoffReason urgency) w
      (Maps (SuperviseOperands env w.db claimId)) := by
  unfold supervise
  refine maps_onClaim_bind fun c t _ => OnlyIff.require_bind trivial fun _ => ?_
  refine writeDb_bind (flush_clean_bind hclean (uuid4_bind ?_))
  exact OnlyIff.congr (maps_append_bind hclean fun _ _ => OnlyIff.pure _) (and_iff_left trivial)

/-- `tasks/abort`. -/
def AbortOperands (env : Env) (db : Db) (claimId : Json) : Prop :=
  OnClaim env db claimId fun _ t => t.state.isTerminal = false →
    env.stores (.str "task_aborted") claimId (.str t.taskId) = true

theorem abort_maps (hclean : w.doomed = false) (hwf : w.db.WellFormed)
    (reason stateSnapshot : Json) :
    Ends (abort env claimId reason stateSnapshot) w (Maps (AbortOperands env w.db claimId)) := by
  unfold abort
  refine maps_onClaim_bind fun c t hct => OnlyIff.require_bind trivial fun _ => ?_
  obtain ⟨ms, hms⟩ := hwf.descriptors t (claimAndTask_holds hct).1.task
  refine writeDb_bind (Ends.lift_bind ?_ fun e he => by simp [hms, Json.get, Json.getD] at he)
  intro accountingRef _
  refine flush_clean_bind hclean ?_
  refine OnlyIff.congr (maps_append_bind hclean fun _ _ => ?_) (and_iff_left trivial)
  exact uuid4_bind (OnlyIff.pure _)

/-- `tasks/execute.event`. -/
def ExecuteEventOperands (env : Env) (db : Db) (claimId eventType timestamp payload sig : Json) :
    Prop :=
  OnClaim env db claimId fun c t => t.state = .executing → sig.isText = true ∧
    (eventVerify env c claimId eventType timestamp payload sig = .ok () →
      (eventType = .str "heartbeat" → timestamp.isText = true) ∧
      ((eventType = .str "heartbeat" → Returns (parseIso env timestamp)) →
        env.stores eventType claimId (.str t.taskId) = true))

theorem mapped_eventVerify {c : WcpClaim} (hworker : Resolves env c.workerId)
    (eventType timestamp payload sig : Json) :
    RaisesOnly Mapped (eventVerify env c claimId eventType timestamp payload sig) ↔
      sig.isText = true := by
  obtain ⟨resolved, hresolved⟩ := hworker
  simp only [eventVerify, hresolved, bind, Except.bind]
  cases sig with
  | str s =>
      refine iff_of_true ?_ rfl
      split
      · exact raisesOnly_error.2 trivial
      · next hne =>
          intro e he
          obtain ⟨message, rfl⟩ := verify_error he
          exact absurd he (hne message)
  | _ => exact iff_of_false (fun h => h .attributeError rfl) (by simp [Json.isText])

theorem recordHeartbeat_maps {c : WcpClaim} {eventType timestamp : Json} {C : Prop}
    {f : Unit → Action β} (hclean : w.doomed = false)
    (hf : ∀ db, Ends (f ()) { w with db := db } (Maps C)) :
    Ends (recordHeartbeat env c eventType timestamp >>= f) w
      (Maps ((eventType = .str "heartbeat" → timestamp.isText = true) ∧
        ((eventType = .str "heartbeat" → Returns (parseIso env timestamp)) → C))) := by
  unfold recordHeartbeat
  by_cases hbeat : eventType = .str "heartbeat"
  · rw [if_pos hbeat, imp_iff_right hbeat, imp_iff_right hbeat, Exec.bind_assoc]
    refine OnlyIff.congr (OnlyIff.lift_bind (C := fun _ => C) (mapped_parseIso timestamp) ?_) ?_
    · intro sentAt _
      rw [Exec.bind_assoc]
      exact writeDb_bind (flush_clean_bind hclean (hf _))
    · exact and_congr_right fun _ => returns_imp.symm
  · rw [if_neg hbeat]
    refine OnlyIff.congr (hf w.db) ?_
    simp [hbeat]

theorem executeEvent_maps (hclean : w.doomed = false) (hworkers : ∀ c ∈ w.db.claims,
    Resolves env c.workerId) (eventType timestamp payload sig : Json) :
    Ends (executeEvent env claimId eventType timestamp payload sig) w
      (Maps (ExecuteEventOperands env w.db claimId eventType timestamp payload sig)) := by
  unfold executeEvent
  refine maps_onClaim_bind fun c t hct => OnlyIff.require_bind trivial fun _ => ?_
  have hworker := hworkers c (claimAndTask_holds hct).1.claim
  refine OnlyIff.lift_bind_unit (mapped_eventVerify hworker eventType timestamp payload sig) ?_
  refine fun _ => recordHeartbeat_maps hclean fun db => ?_
  exact OnlyIff.congr (maps_append_bind hclean fun _ _ => OnlyIff.pure _) (and_iff_left trivial)

end OnClaim

/-! ## Capabilities and the audit chain -/

/-- `capabilities/list`. -/
def ListOperands (env : Env) (workerId : Json) : Prop := KeyOperand env "worker_id" workerId

theorem mapped_getWorker (db : Db) (workerId : Json) :
    RaisesOnly Mapped (db.getWorker env workerId) ↔ KeyOperand env "worker_id" workerId := by
  rw [Db.getWorker, raisesOnly_bind, mapped_lookupKey]
  exact and_iff_left fun _ _ => raisesOnly_pure _

theorem mapped_listCapabilities (db : Db) (workerId : Json) :
    RaisesOnly Mapped (listCapabilities env db workerId) ↔ ListOperands env workerId := by
  rw [listCapabilities, raisesOnly_bind, mapped_getWorker]
  refine and_iff_left fun found _ => ?_
  cases found with
  | none => exact raisesOnly_error.2 trivial
  | some row => exact raisesOnly_pure _

/-- `audit/observe`. -/
def ObserveOperands (env : Env) (claimId taskId : Json) : Prop :=
  claimId.truthy = true ∨ taskId.truthy = true →
    (env.bindNullable (if claimId.truthy then claimId else taskId)).isSome = true

theorem mapped_observeAudit (query : Nat) (db : Db) (claimId taskId : Json) :
    RaisesOnly Mapped (observeAudit env query db claimId taskId) ↔
      ObserveOperands env claimId taskId := by
  rw [observeAudit, raisesOnly_ensure_bind trivial, raisesOnly_bind, mapped_comparedText]
  exact imp_congr_right fun _ => and_iff_left fun _ _ => raisesOnly_pure _

/-- `capabilities/subscribe`. -/
def SubscribeOperands (env : Env) (agentDid sinceRevision : Json) : Prop :=
  agentDid.isText = true ∧ (Returns (resolve env agentDid) →
    sinceRevision = .null ∨ env.bindsInt sinceRevision = true)

theorem createSubscription_maps (hclean : w.doomed = false)
    (agentDid filterDict sinceRevision : Json) :
    Ends (createSubscription env agentDid filterDict sinceRevision) w
      (Maps (SubscribeOperands env agentDid sinceRevision)) := by
  unfold createSubscription
  refine maps_resolveOrRefuse_bind fun resolved _ => uuid4_bind ?_
  split
  · next hbinds =>
      refine writeDb_bind (flush_clean_bind hclean ?_)
      exact OnlyIff.congr (OnlyIff.pure _) (iff_of_true trivial hbinds)
  · next hbinds =>
      refine Ends.write_bind (flush_bind (fun hdoomed => by cases hdoomed) ?_)
      exact iff_of_false (fun h => h _ rfl) hbinds

/-- What a descriptor names: a version and a class that are known. -/
structure Described (capabilities : Json) : Prop where
  version : capabilities.member "schema_version" = .str "wcp/0.1" ∨
    capabilities.member "schema_version" = .str "wcp/0.2"
  workerClass : (WorkerClass.ofValue (capabilities.member "class")).isSome = true

/-- `capabilities/upsert`. -/
def UpsertOperands (env : Env) (db : Db) (workerId capabilities principalId ttlSeconds : Json) :
    Prop :=
  workerId.isText = true ∧ (Returns (resolve env workerId) → capabilities.isObject = true ∧
    (Described capabilities → KeyOperand env "worker_id" workerId ∧
      (db.getWorker env workerId = .ok none → env.storesWorker principalId ttlSeconds = true)))

theorem storeWorker_maps {existing : Option WcpWorker} {did : String} {workerClass : WorkerClass}
    {capabilities principalId ttlSeconds : Json} {asOf : DateTime} {f : Unit → Action β}
    (hclean : w.doomed = false) (hf : ∀ w', Ends (f ()) w' (Maps True)) :
    Ends (storeWorker env existing did workerClass capabilities principalId ttlSeconds asOf >>= f) w
      (Maps (existing = none → env.storesWorker principalId ttlSeconds = true)) := by
  apply Ends.bind
  unfold storeWorker
  split
  · next principal hprincipal hint =>
      refine writeDb_bind ?_
      unfold Ends flush
      rw [if_neg (by simp [hclean])]
      refine OnlyIff.congr (hf _) (iff_of_true trivial fun _ => ?_)
      simp [Env.storesWorker, hprincipal, hint]
  · exact OnlyIff.congr (hf _) (iff_of_true trivial (by simp))
  · next hno =>
      refine iff_of_false (fun h => h (.raised .database) rfl) fun h => ?_
      cases (storesWorker_eq_false hno).symm.trans (h rfl)
  · exact OnlyIff.congr (hf _) (iff_of_true trivial (by simp))

theorem upsertCapabilities_maps (hclean : w.doomed = false)
    (workerId capabilities principalId ttlSeconds : Json) :
    Ends (upsertCapabilities env workerId capabilities principalId ttlSeconds) w
      (Maps (UpsertOperands env w.db workerId capabilities principalId ttlSeconds)) := by
  unfold upsertCapabilities
  refine maps_resolveOrRefuse_bind fun resolved _ => ?_
  refine OnlyIff.congr (maps_get_bind fun hobject => OnlyIff.require_bind trivial fun hversion =>
    maps_get_bind fun _ => OnlyIff.lift_bind (P := True)
      (C := fun _ => KeyOperand env "worker_id" workerId ∧
        ∀ existing, w.db.getWorker env workerId = .ok existing → existing = none →
          env.storesWorker principalId ttlSeconds = true) ?_ ?_) ?_
  · refine iff_of_true ?_ trivial
    split
    · exact raisesOnly_ok _
    · exact raisesOnly_error.2 trivial
  · intro workerClass _
    refine maps_readDb_bind (C := fun existing => existing = none →
      env.storesWorker principalId ttlSeconds = true) (mapped_getWorker _ _) fun existing _ => ?_
    exact utcnow_bind (storeWorker_maps hclean fun _ => OnlyIff.pure _)
  · refine and_congr_right fun hobject => ⟨?_, ?_⟩
    · rintro h ⟨hversion, hclass⟩
      obtain ⟨c, hc⟩ := Option.isSome_iff_exists.1 hclass
      obtain ⟨hbound, hstores⟩ := (h hversion).2.2 c (by rw [hc])
      exact ⟨hbound, fun hnone => hstores none hnone rfl⟩
    · intro h hversion
      refine ⟨hobject, trivial, fun c hc => ?_⟩
      have hclass : (WorkerClass.ofValue (capabilities.member "class")).isSome = true := by
        split at hc
        · next hsome => rw [hsome, Option.isSome_some]
        · cases hc
      obtain ⟨hbound, hstores⟩ := h ⟨hversion, hclass⟩
      exact ⟨hbound, fun existing hexisting hnone => hstores (hnone ▸ hexisting)⟩

/-! ## tasks/post -/

def taskIdOf (task : Json) (fresh : String) : Json := (task.member "task_id").or (.str fresh)

/-- The row of a posted task goes in: the driver binds its values and the id is not taken. -/
structure Insertable (env : Env) (db : Db) (task : Json) (fresh : String) : Prop where
  taskId : ∃ id, env.bindColumn (taskIdOf task fresh) = some id ∧ db.findTask id = none
  postedBy : (env.bindColumn (task.member "posted_by")).isSome = true
  descriptorType : (env.bindColumn
    ((task.memberD "descriptor_type" (.str "")).or (.str "unknown"))).isSome = true

/-- `tasks/post`. -/
def PostRequestOperands (env : Env) (w : World) (task expiry : Json) : Prop :=
  PostOperands env task expiry ∧ (Returns (postChecks env (env.uuid w.tick) task expiry) →
    Insertable env w.db task (env.uuid w.tick) ∧
    env.stores (.str "task_posted") .null (taskIdOf task (env.uuid w.tick)) = true ∧
    CountOperands env w.db task)

/-- What the plan of a post takes from the descriptor. -/
structure PlanOf (task : Json) (fresh : String) (plan : PostPlan) : Prop where
  object : ∃ ms, task = .obj ms ∧ plan.task = .obj (Json.setItem ms "task_id" plan.taskId)
  taskId : plan.taskId = taskIdOf task fresh
  postedBy : task.member "posted_by" = .str plan.postedBy
  descriptorType : plan.descriptorType = task.memberD "descriptor_type" (.str "")

theorem planOf_postChecks {fresh : String} {task expiry : Json} {plan : PostPlan}
    (h : postChecks env fresh task expiry = .ok plan) : PlanOf task fresh plan := by
  simp only [postChecks, bind_eq_ok] at h
  obtain ⟨_, -, _, -, _, hreq, _, -, _, -, descriptorType, hdescriptor, _, -, _, -, _, -, named,
    hnamed, postedBy, hposted, _, -, resolved, hresolved, _, -, h⟩ := h
  obtain ⟨ms, rfl, -⟩ := getD_eq_ok hreq
  cases h
  obtain ⟨-, rfl⟩ := Json.get_eq_ok.1 hnamed
  obtain ⟨-, hmember⟩ := Json.get_eq_ok.1 hposted
  rw [member_setItem (by decide)] at hmember
  refine ⟨⟨ms, rfl, rfl⟩, rfl, ?_, (Except.ok.inj hdescriptor).symm⟩
  rw [hmember]
  exact resolve_text (resolveOrRefuse_eq_ok hresolved)

theorem PlanOf.insertable_iff {task : Json} {fresh : String} {plan : PostPlan} {db : Db}
    (h : PlanOf task fresh plan) :
    plan.insertable env db = true ↔ Insertable env db task fresh := by
  unfold PostPlan.insertable
  rw [h.taskId, ← h.postedBy, h.descriptorType]
  constructor
  · intro hinsertable
    split at hinsertable
    · next id _ _ hid hby htype =>
        refine ⟨⟨id, hid, by simpa using hinsertable⟩, ?_, ?_⟩
        · rw [hby, Option.isSome_some]
        · rw [htype, Option.isSome_some]
    · cases hinsertable
  · rintro ⟨⟨id, hid, hfresh⟩, hby, htype⟩
    obtain ⟨_, hby⟩ := Option.isSome_iff_exists.1 hby
    obtain ⟨_, htype⟩ := Option.isSome_iff_exists.1 htype
    rw [hid, hby, htype]
    simp [hfresh]

theorem countEligible_setItem (db : Db) (ms : List (String × Json)) (taskId : Json) :
    countEligible env db (.obj (Json.setItem ms "task_id" taskId)) =
      countEligible env db (.obj ms) := by
  have hsame : ∀ key d, key ≠ "task_id" →
      ((Json.obj (Json.setItem ms "task_id" taskId)).getD key d : Except Err Json) =
        (Json.obj ms).getD key d := by
    intro key d hkey
    rw [Json.getD, Json.getD, Json.lookup_setItem_ne ms taskId hkey]
  simp (disch := decide) only [countEligible, capabilityQuery, queryVenue, Json.get, hsame]

theorem maps_insertTask_bind {plan : PostPlan} {postedAt : DateTime} {f : Unit → Action β}
    {C : Prop} (hf : ∀ row, Ends (f ()) { w with
      db := { w.db with tasks := w.db.tasks ++ [row] } } (Maps C)) :
    Ends (insertTask env plan postedAt >>= f) w (Maps (plan.insertable env w.db = true ∧ C)) := by
  refine insertTask_bind ?_ ?_
  · intro row hinsertable _ _ _ _
    exact OnlyIff.congr (hf row) (and_iff_right hinsertable).symm
  · intro hno
    refine iff_of_false (fun h => h _ rfl) ?_
    rintro ⟨hyes, -⟩
    cases hno.symm.trans hyes

theorem post_maps (hclean : w.doomed = false) (task expiry informational : Json) :
    Ends (post env task expiry informational) w (Maps (PostRequestOperands env w task expiry)) := by
  unfold post
  refine uuid4_bind (OnlyIff.congr (OnlyIff.lift_bind (C := fun _ =>
    Insertable env w.db task (env.uuid w.tick) ∧
    env.stores (.str "task_posted") .null (taskIdOf task (env.uuid w.tick)) = true ∧
    CountOperands env w.db task) (mapped_postChecks _ task expiry) ?_) ?_)
  · intro plan hplan
    have hof := planOf_postChecks hplan
    obtain ⟨ms, rfl, htask⟩ := hof.object
    refine utcnow_bind (OnlyIff.congr (maps_insertTask_bind fun row => ?_)
      (and_congr_left' hof.insertable_iff))
    rw [htask]
    refine Ends.lift_bind ?_ fun e he => nomatch he
    intro accountingRef _
    rw [← hof.taskId]
    refine maps_append_bind hclean fun r entry => ?_
    refine OnlyIff.congr (maps_readDb_bind (C := fun _ => True) ?_ fun _ _ => OnlyIff.pure _)
      (and_iff_left fun _ _ => trivial)
    -- neither the new row nor the entry is looked at
    have hcount : ∀ db : Db, db.workers = w.db.workers → (RaisesOnly Mapped
        (countEligible env db (.obj (Json.setItem ms "task_id" plan.taskId))) ↔
          CountOperands env w.db (.obj ms)) := by
      intro db hworkers
      rw [countEligible_congr hworkers, countEligible_setItem]
      exact mapped_countEligible rfl
    exact hcount _ rfl
  · exact and_congr_right fun _ => returns_imp.symm

/-! ## tasks/claim -/

section Claim

variable {taskId workerId eta acceptance bid : Json} {t : WcpTask}

/-- The worker of a claim request; a task dealt to its own poster has its modes looked through. -/
structure WorkerOperands (env : Env) (db : Db) (t : WcpTask) (workerId : Json) : Prop where
  bound : KeyOperand env "worker_id" workerId
  modes : ∀ worker, db.getWorker env workerId = .ok (some worker) →
    t.postedBy = worker.principalId → (modesOf (requirementOf t.taskJson)).searchable = true

/-- An acceptance, of which every member is there before the worker is resolved. -/
structure AcceptanceOperands (env : Env) (workerId acceptance : Json) : Prop where
  object : acceptance.isObject = true
  signed : (acceptance.member "sig").truthy = true →
    (acceptance.member "payload_hash").truthy = true →
    (acceptance.member "signed_at").truthy = true → workerId.isText = true ∧
      (Returns (resolve env workerId) → (acceptance.member "sig").isText = true)

/-- What a claim writes: the driver binds the bid and the entry, and the id that is drawn is not
taken. -/
structure ClaimWritable (env : Env) (db : Db) (taskId bid : Json) (claimId : String) : Prop where
  bid : (env.bindNullable bid).isSome = true
  fresh : db.findClaim claimId = none
  stored : env.stores (.str "task_claimed") (.str claimId) taskId = true

/-- `tasks/claim`. -/
def ClaimOperands (env : Env) (w : World) (taskId workerId eta acceptance bid : Json) : Prop :=
  KeyOperand env "task_id" taskId ∧ ∀ t, claimLoadTask env w.db taskId = .ok t →
    claimCheckExpiry env taskId t (.utc (env.clock w.tick)) = .ok () →
    WorkerOperands env w.db t workerId ∧ (Returns (claimLoadWorker env w.db t workerId) →
      AcceptanceOperands env workerId acceptance ∧
      (Returns (claimVerifyAcceptance env taskId workerId eta acceptance bid) →
        (env.bindNullable taskId).isSome = true ∧ (claimCheckExisting env w.db taskId = .ok () →
          eta.isText = true ∧ (Returns (parseIso env eta) →
            ClaimWritable env w.db taskId bid (env.uuid (w.tick + 2))))))

theorem mapped_claimLoadTask (db : Db) :
    RaisesOnly Mapped (claimLoadTask env db taskId) ↔ KeyOperand env "task_id" taskId := by
  rw [claimLoadTask, Db.getTask, LawfulMonad.bind_assoc, raisesOnly_bind, mapped_lookupKey]
  refine and_iff_left fun key _ => ?_
  rw [LawfulMonad.pure_bind]
  split
  · exact raisesOnly_error.2 trivial
  · refine (raisesOnly_ensure_bind ?_).2 fun _ => raisesOnly_pure _
    split
    · exact trivial
    · exact trivial

theorem mapped_claimCheckExpiry (micros : Nat) :
    RaisesOnly Mapped (claimCheckExpiry env taskId t (.utc micros)) := by
  rw [claimCheckExpiry, DateTime.less_aware (DateTime.isSome_offset_assumeUtc _) rfl]
  exact raisesOnly_ensure trivial

theorem mapped_claimLoadWorker {db : Db} (htask : t.taskJson.isObject = true)
    (hrequirement : (requirementOf t.taskJson).isObject = true) :
    RaisesOnly Mapped (claimLoadWorker env db t workerId) ↔ WorkerOperands env db t workerId := by
  have hmodes : ∀ worker : WcpWorker, RaisesOnly Mapped (do
      let req ← t.taskJson.getD "attestation_requirement" (.obj [])
      let modes ← req.get "modes"
      let witnessed ← (modes.or (.arr [])).contains "third-party-witness"
      ensure (witnessed = true)
        (.valueError ("POLICY_VIOLATION: self-dealing detected " ++
          "(posted_by == worker.principal_id) and " ++
          "attestation_requirement lacks third-party-witness"))
      return worker : Except Err WcpWorker) ↔
        (modesOf (requirementOf t.taskJson)).searchable = true := by
    intro worker
    rw [foreseen_mapped.getD_bind, and_iff_right htask, foreseen_mapped.get_bind]
    refine (and_iff_right hrequirement).trans ?_
    rw [foreseen_mapped.contains_bind]
    refine and_iff_left ?_
    exact (raisesOnly_ensure_bind trivial).2 fun _ => raisesOnly_pure _
  rw [claimLoadWorker, raisesOnly_bind, mapped_getWorker]
  constructor
  · rintro ⟨hbound, h⟩
    refine ⟨hbound, fun worker hworker hself => (hmodes worker).1 ?_⟩
    have h := h (some worker) hworker
    dsimp only at h
    rw [if_pos hself] at h
    exact h
  · rintro ⟨hbound, hmode⟩
    refine ⟨hbound, fun found hfound => ?_⟩
    cases found with
    | none => exact raisesOnly_error.2 trivial
    | some worker =>
        dsimp only
        by_cases hself : t.postedBy = worker.principalId
        · rw [if_pos hself]
          exact (hmodes worker).2 (hmode worker hfound hself)
        · rw [if_neg hself]
          exact raisesOnly_pure _

theorem acceptanceOperands_iff : AcceptanceOperands env workerId acceptance ↔
    acceptance.isObject = true ∧ ((acceptance.member "sig").truthy = true ∧
      (acceptance.member "payload_hash").truthy = true ∧
      (acceptance.member "signed_at").truthy = true → workerId.isText = true ∧
        (Returns (resolve env workerId) → (acceptance.member "sig").isText = true)) := by
  constructor
  · intro h
    refine ⟨h.object, ?_⟩
    rintro ⟨hsig, hhash, hat⟩
    exact h.signed hsig hhash hat
  · rintro ⟨hobject, h⟩
    exact ⟨hobject, fun hsig hhash hat => h ⟨hsig, hhash, hat⟩⟩

theorem mapped_claimVerifyAcceptance :
    RaisesOnly Mapped (claimVerifyAcceptance env taskId workerId eta acceptance bid) ↔
      AcceptanceOperands env workerId acceptance := by
  rw [claimVerifyAcceptance, foreseen_mapped.get_bind, foreseen_mapped.get_bind,
    foreseen_mapped.get_bind, raisesOnly_ensure_bind trivial]
  simp only [and_self_left]
  rw [acceptanceOperands_iff]
  refine and_congr_right fun _ => imp_congr_right fun _ => ?_
  generalize acceptance.member "sig" = sig
  cases workerId with
  | str s =>
      rw [Json.isText, and_iff_right rfl]
      cases hresolve : resolve env (.str s) with
      | error e =>
          obtain ⟨message, rfl⟩ := resolve_error hresolve
          exact iff_of_true (raisesOnly_error.2 trivial) fun h => absurd h (not_returns_error _)
      | ok resolved =>
          rw [imp_iff_right (returns_ok resolved)]
          cases sig with
          | str text =>
              refine iff_of_true ?_ rfl
              simp only [bind, Except.bind]
              cases hverify : verify env resolved (claimBody taskId (.str s) eta bid
                  (acceptance.member "payload_hash") (acceptance.member "signed_at"))
                  (.str text) with
              | ok u => exact raisesOnly_ok resolved
              | error e =>
                  obtain ⟨message, rfl⟩ := verify_error hverify
                  exact raisesOnly_error.2 trivial
          | _ => exact iff_of_false (fun h => h .attributeError rfl) (by simp [Json.isText])
  | _ => exact iff_of_false (fun h => h .attributeError rfl) (by simp [Json.isText])

theorem mapped_claimCheckExisting {db : Db} :
    RaisesOnly Mapped (claimCheckExisting env db taskId) ↔
      (env.bindNullable taskId).isSome = true := by
  rw [claimCheckExisting, raisesOnly_bind, mapped_comparedText]
  exact and_iff_left fun key _ => raisesOnly_ensure trivial

theorem maps_claimWrite_bind {worker : WcpWorker} {etaTime now : DateTime} {claimId : String}
    {C : Prop} {f : Unit → Action β} (hf : ∀ db, Ends (f ()) { w with db := db } (Maps C)) :
    Ends (claimWrite env t worker etaTime acceptance bid now claimId >>= f) w
      (Maps ((env.bindNullable bid).isSome = true ∧ w.db.findClaim claimId = none ∧ C)) := by
  apply Ends.bind
  unfold Ends claimWrite
  cases hbid : env.bindNullable bid with
  | none => exact iff_of_false (fun h => h (.raised .database) rfl) fun h => nomatch h.1
  | some bidAmount =>
      dsimp only
      by_cases hfresh : (w.db.findClaim claimId).isSome = true
      · rw [if_pos hfresh]
        refine iff_of_false (fun h => h (.raised .database) rfl) fun h => ?_
        rw [h.2.1] at hfresh
        cases hfresh
      · rw [if_neg hfresh]
        refine OnlyIff.congr (hf _) ?_
        simp [Option.not_isSome_iff_eq_none.1 hfresh]

theorem Db.Valid.requirement_isObject {db : Db} (h : db.Valid env)
    (ht : t ∈ db.tasks) :
    t.taskJson.isObject = true ∧ (requirementOf t.taskJson).isObject = true := by
  obtain ⟨ms, hms, hvalid⟩ := h t ht
  obtain ⟨s, -, hthreshold, -⟩ := validateAttestationRequirement_eq_ok hvalid
  rw [requirementOf, hms]
  exact ⟨rfl, (Json.get_eq_ok.1 hthreshold).1⟩

theorem claim_maps (hclean : w.doomed = false) (hvalid : w.db.Valid env) :
    Ends (claim env taskId workerId eta acceptance bid) w
      (Maps (ClaimOperands env w taskId workerId eta acceptance bid)) := by
  unfold claim
  refine OnlyIff.congr (maps_readDb_bind (C := fun t =>
    claimCheckExpiry env taskId t (.utc (env.clock w.tick)) = .ok () →
    WorkerOperands env w.db t workerId ∧
      ∀ worker, claimLoadWorker env w.db t workerId = .ok worker →
      AcceptanceOperands env workerId acceptance ∧
      ∀ r, claimVerifyAcceptance env taskId workerId eta acceptance bid = .ok r →
        (env.bindNullable taskId).isSome = true ∧ (claimCheckExisting env w.db taskId = .ok () →
          eta.isText = true ∧ ∀ d, parseIso env eta = .ok d →
            (env.bindNullable bid).isSome = true ∧
              w.db.findClaim (env.uuid (w.tick + 2)) = none ∧
              env.stores (.str "task_claimed") (.str (env.uuid (w.tick + 2))) taskId = true))
    (mapped_claimLoadTask _) ?_) ?_
  · intro t ht
    have htask := hvalid.requirement_isObject (claimLoadTask_eq_ok ht).2.1
    refine utcnow_bind (OnlyIff.congr (OnlyIff.lift_bind_unit (P := True)
      (iff_of_true (mapped_claimCheckExpiry _) trivial) fun _ => ?_) (Iff.of_eq (true_and _)))
    refine maps_readDb_bind (mapped_claimLoadWorker htask.1 htask.2) fun worker _ => ?_
    refine OnlyIff.lift_bind mapped_claimVerifyAcceptance fun resolved _ => ?_
    refine OnlyIff.lift_bind_unit mapped_claimCheckExisting fun _ => ?_
    refine OnlyIff.lift_bind (mapped_parseIso eta) fun etaTime _ => ?_
    refine utcnow_bind (uuid4_bind (maps_claimWrite_bind fun db => ?_))
    exact OnlyIff.congr (maps_append_bind hclean fun _ _ => OnlyIff.pure _) (and_iff_left trivial)
  · refine and_congr_right fun _ => forall_congr' fun t => imp_congr_right fun _ =>
      imp_congr_right fun _ => and_congr_right fun _ => ?_
    rw [returns_imp]
    refine forall_congr' fun worker => imp_congr_right fun _ => and_congr_right fun _ => ?_
    rw [returns_imp]
    refine forall_congr' fun resolved => imp_congr_right fun _ => ?_
    rw [returns_imp]
    refine and_congr_right fun _ => imp_congr_right fun _ => and_congr_right fun _ =>
      forall_congr' fun d => imp_congr_right fun _ => ?_
    constructor
    · rintro ⟨hbid, hfresh, hstores⟩
      exact ⟨hbid, hfresh, hstores⟩
    · intro h
      exact ⟨h.bid, h.fresh, h.stored⟩

end Claim

/-! ## tasks/attest -/

section Attest

variable {db : Db} {plan : AttestPlan} {claimId attestations : Json}

/-- The number of attempts that a descriptor admits, as it stands there. -/
def attemptsOf (task : Json) : Json :=
  (task.memberD "max_attestation_attempts" (.int 1)).or (.int 1)

/-- What an attestation reads before it looks at an item. -/
def AttestReads (env : Env) (db : Db) (claimId attestations : Json) : Prop :=
  OnClaim env db claimId fun _ t => attestCheckState t = .ok () →
    (attemptsOf t.taskJson).convertible = true ∧
      (Returns (maxAttempts env t.taskJson) → attestations.searchable = true)

/-- The items of a submission in turn, the modes that the threshold sorts, and the rows and the
entries that are written. -/
structure AttestPlan.Operands (env : Env) (plan : AttestPlan) (claimId : Json) : Prop where
  items : InTurn
    (ItemOperands env plan.claim.workerId plan.resolved claimId plan.taskPayload)
    (fun ev => Returns (plan.judge env claimId ev)) plan.items
  modes : ∀ verdicts, plan.verdicts env claimId = .ok verdicts →
    plan.requirement.member "threshold" = .str "all" →
      (modesOf plan.requirement).settable = true ∧
        Json.sortable (missingModes plan.requirement (verdicts.map EvidenceVerdict.pair))
  stored : ∀ aggregate, plan.aggregate env claimId = .ok aggregate →
    ((plan.rows env claimId).all fun r => r.binds env) = true ∧
      plan.storable env claimId aggregate.decision = true

/-- `tasks/attest`. -/
def AttestOperands (env : Env) (db : Db) (claimId attestations : Json) : Prop :=
  AttestReads env db claimId attestations ∧
    ∀ plan, attestPlan env db claimId attestations = .ok plan → plan.Operands env claimId

theorem mapped_attestCheckState (t : WcpTask) : RaisesOnly Mapped (attestCheckState t) := by
  rw [attestCheckState, raisesOnly_ensure_bind trivial]
  exact fun _ => raisesOnly_ensure trivial

theorem mapped_maxAttempts {task : Json} (hobject : task.isObject = true) :
    RaisesOnly Mapped (maxAttempts env task) ↔ (attemptsOf task).convertible = true := by
  rw [maxAttempts, foreseen_mapped.getD_bind, and_iff_right hobject]
  exact mapped_toInt _

theorem mapped_attestPlan (hwf : db.WellFormed)
    (hworkers : ∀ c ∈ db.claims, Resolves env c.workerId) :
    RaisesOnly Mapped (attestPlan env db claimId attestations) ↔
      AttestReads env db claimId attestations := by
  rw [attestPlan, raisesOnly_bind, mapped_claimAndTask]
  refine and_congr_right fun _ => Prod.forall.trans ?_
  refine forall₂_congr fun c t => imp_congr_right fun hct => ?_
  have hholds := (claimAndTask_holds hct).1
  obtain ⟨ms, hms⟩ := hwf.descriptors t hholds.task
  obtain ⟨resolved, hresolved⟩ := hworkers c hholds.claim
  have hobject : t.taskJson.isObject = true := by rw [hms]; rfl
  dsimp only
  rw [raisesOnly_bind_unit, and_iff_right (mapped_attestCheckState t)]
  refine imp_congr_right fun _ => ?_
  rw [foreseen_mapped.getD_bind, and_iff_right hobject, foreseen_mapped.getD_bind,
    and_iff_right hobject, raisesOnly_bind, mapped_maxAttempts hobject, returns_imp]
  refine and_congr_right fun _ => forall₂_congr fun limit _ => ?_
  rw [hresolved]
  refine Iff.trans foreseen_mapped.iter_bind ?_
  exact and_iff_left (raisesOnly_pure _)

theorem mapped_verdicts : RaisesOnly Mapped (plan.verdicts env claimId) ↔ InTurn
    (ItemOperands env plan.claim.workerId plan.resolved claimId plan.taskPayload)
    (fun ev => Returns (plan.judge env claimId ev)) plan.items := by
  rw [AttestPlan.verdicts, raisesOnly_mapM]
  exact InTurn.congr (fun ev => mapped_judgeEvidence _ _ _ _ ev) fun _ => Iff.rfl

theorem verdicts_hashable {verdicts : List EvidenceVerdict}
    (h : plan.verdicts env claimId = .ok verdicts) :
    ∀ o ∈ verdicts.map EvidenceVerdict.pair, o.2.decision = .pass → o.1.hashable = true := by
  have : Nonempty EvidenceVerdict := ⟨⟨.null, .pass, none⟩⟩
  obtain ⟨g, hg, rfl⟩ := exists_map_of_mapM h
  rw [List.map_map]
  intro o ho hpass
  obtain ⟨ev, hev, rfl⟩ := List.mem_map.1 ho
  obtain ⟨-, m, hm⟩ := AttestPlan.judge_pass (hg ev hev) hpass
  show (g ev).mode.hashable = true
  rw [hm]
  rfl

theorem mapped_aggregate (hvalid : validateAttestationRequirement env plan.requirement = .ok ()) :
    RaisesOnly Mapped (plan.aggregate env claimId) ↔
      InTurn (ItemOperands env plan.claim.workerId plan.resolved claimId plan.taskPayload)
        (fun ev => Returns (plan.judge env claimId ev)) plan.items ∧
      ∀ verdicts, plan.verdicts env claimId = .ok verdicts →
        plan.requirement.member "threshold" = .str "all" →
          (modesOf plan.requirement).settable = true ∧
            Json.sortable (missingModes plan.requirement (verdicts.map EvidenceVerdict.pair)) := by
  rw [AttestPlan.aggregate, raisesOnly_bind, mapped_verdicts]
  refine and_congr_right fun _ => forall₂_congr fun verdicts hverdicts => ?_
  exact mapped_evaluateThreshold hvalid (verdicts_hashable hverdicts)

theorem attestPlan_requirement (hvalid : db.Valid env)
    (h : attestPlan env db claimId attestations = .ok plan) :
    validateAttestationRequirement env plan.requirement = .ok () := by
  obtain ⟨hct, -, hreq, -⟩ := attestPlan_eq_ok.1 h
  obtain ⟨ms, hms, hchecked⟩ := hvalid plan.task (claimAndTask_holds hct).1.task
  rw [hms] at hreq
  rw [← Except.ok.inj hreq]
  exact hchecked

theorem attest_maps (hclean : w.doomed = false) (hwf : w.db.WellFormed) (hvalid : w.db.Valid env)
    (hworkers : ∀ c ∈ w.db.claims, Resolves env c.workerId) :
    Ends (attest env claimId attestations) w
      (Maps (AttestOperands env w.db claimId attestations)) := by
  have hreads := @mapped_attestPlan env w.db claimId attestations hwf hworkers
  have hiff : ∀ {plan}, attestPlan env w.db claimId attestations = .ok plan →
      (AttestOperands env w.db claimId attestations ↔ plan.Operands env claimId) := by
    intro plan hplan
    rw [AttestOperands, ← hreads, hplan, and_iff_right (raisesOnly_ok plan)]
    simp
  refine attest_ends ?_ ?_ ?_
  · intro e he
    rw [he, raisesOnly_error] at hreads
    refine raisesOnly_error.trans (hreads.trans (and_iff_left ?_).symm)
    rw [he]
    simp
  · intro plan e w' hplan hagg _
    have hmapped := @mapped_aggregate env plan claimId (attestPlan_requirement hvalid hplan)
    rw [hagg, raisesOnly_error] at hmapped
    refine raisesOnly_error.trans (hmapped.trans (Iff.trans ?_ (hiff hplan).symm))
    constructor
    · rintro ⟨hitems, hmodes⟩
      refine ⟨hitems, hmodes, fun aggregate h => ?_⟩
      cases hagg.symm.trans h
    · intro h
      exact ⟨h.items, h.modes⟩
  · intro plan aggregate w' hplan hagg hrec
    have hrec : Recorded env w w' (plan.rows env claimId) := hrec
    obtain ⟨hitems, hmodes⟩ := (mapped_aggregate (attestPlan_requirement hvalid hplan)).1
      (hagg ▸ raisesOnly_ok aggregate)
    have hdoomed := hrec.doomed
    rw [hclean, Bool.false_or] at hdoomed
    obtain ⟨ms, hobj⟩ := attestPlan_descriptor hplan
    refine Ends.mono (attestWrites_cases hobj) ?_
    intro r w'' hwritten
    refine Iff.trans ?_ (hiff hplan).symm
    split at hwritten
    · next h =>
        obtain ⟨rfl, -⟩ := hwritten
        refine iff_of_true (raisesOnly_ok _) ⟨hitems, hmodes, fun aggregate' hagg' => ?_⟩
        cases hagg.symm.trans hagg'
        rw [h.1] at hdoomed
        exact ⟨by simpa using hdoomed.symm, h.2⟩
    · next h =>
        have hstored : plan.Operands env claimId → w'.doomed = false ∧
            plan.storable env claimId aggregate.decision = true := by
          intro hoperands
          obtain ⟨hrows, hstorable⟩ := hoperands.stored aggregate hagg
          rw [hrows] at hdoomed
          exact ⟨hdoomed, hstorable⟩
        have hraised : ∃ e, r = .error e ∧ ¬ Mapped e := by
          split at hwritten
          · exact ⟨_, hwritten.1, not_false⟩
          · exact ⟨_, hwritten, not_false⟩
        obtain ⟨e, rfl, hunmapped⟩ := hraised
        exact iff_of_false (fun hraise => hunmapped (hraise e rfl)) fun hoperands =>
          h (hstored hoperands)

end Attest

end Wcp.Coordinator
