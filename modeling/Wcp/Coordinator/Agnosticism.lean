import Wcp.Base.Coupling
import Wcp.Coordinator.LocalEnvironment
import Wcp.Coordinator.Operations
/-!
# What a coordinator does not read

Two runs of the same calls that differ in the `class_extension` of registrations,
in the informational siblings of posted tasks and, where no task filters by class,
in the classes of workers, go the same way: every call fails with the same
exception or returns the same answer, and the tasks are the same after every step
(`class_agnostic`).

The databases of such runs are `Similar`: the rows of workers may differ in what
the matcher does not read, and the entries of `task_posted`, which belong to no
claim, in their payload and what is computed from it.
-/

namespace Wcp.Coordinator

open Wcp.Base

variable {env : Env} {free : Prop} {α β : Type}

/-! ## Similar states -/

/-- Rows of workers that differ in what is not read: in the descriptor outside its `required`
block and, where classes are free, in the class. -/
structure WcpWorker.Similar (free : Prop) (r r' : WcpWorker) : Prop where
  workerId : r.workerId = r'.workerId
  principalId : r.principalId = r'.principalId
  revision : r.revision = r'.revision
  ttlSeconds : r.ttlSeconds = r'.ttlSeconds
  workerClass : ¬ free → r.workerClass = r'.workerClass
  required : ((r.capabilitiesJson.or (.obj [])).get "required" : Except Err Json) =
    (r'.capabilitiesJson.or (.obj [])).get "required"

/-- Equal entries, or entries that belong to no claim and differ in their payload. -/
def WcpAudit.Similar (e e' : WcpAudit) : Prop :=
  e = e' ∨ e.claimId = none ∧ e'.claimId = none

/-- Databases that differ in what is not read. -/
structure Db.Similar (free : Prop) (db db' : Db) : Prop where
  tasks : db.tasks = db'.tasks
  claims : db.claims = db'.claims
  attestations : db.attestations = db'.attestations
  workers : List.Forall₂ (WcpWorker.Similar free) db.workers db'.workers
  audit : List.Forall₂ WcpAudit.Similar db.audit db'.audit

structure World.Similar (free : Prop) (w w' : World) : Prop where
  db : w.db.Similar free w'.db
  tick : w.tick = w'.tick
  doomed : w.doomed = w'.doomed

theorem WcpWorker.Similar.refl (r : WcpWorker) : r.Similar free r :=
  ⟨rfl, rfl, rfl, rfl, fun _ => rfl, rfl⟩

theorem initial_similar (workers : List WcpWorker) :
    (initial workers).Similar free (initial workers) :=
  ⟨⟨rfl, rfl, rfl, List.forall₂_same.2 fun r _ => WcpWorker.Similar.refl r, .nil⟩, rfl, rfl⟩

/-! ## Reads -/

section Reads

variable {db db' : Db}

theorem filter_similar {es es' : List WcpAudit} (h : List.Forall₂ WcpAudit.Similar es es')
    (claimId : String) :
    (es.filter fun e => e.claimId = some claimId) =
      es'.filter fun e => e.claimId = some claimId := by
  induction h with
  | nil => rfl
  | cons hentry _ ih =>
      rcases hentry with rfl | ⟨hnone, hnone'⟩
      · rw [List.filter_cons, List.filter_cons, ih]
      · rw [List.filter_cons_of_neg (by simp [hnone]), List.filter_cons_of_neg (by simp [hnone']),
          ih]

theorem Db.Similar.entriesOf (h : db.Similar free db') : db.entriesOf = db'.entriesOf :=
  funext fun claimId => filter_similar h.audit claimId

theorem Db.Similar.findTask (h : db.Similar free db') : db.findTask = db'.findTask := by
  unfold Db.findTask
  rw [h.tasks]

theorem Db.Similar.findClaim (h : db.Similar free db') : db.findClaim = db'.findClaim := by
  unfold Db.findClaim
  rw [h.claims]

theorem Db.Similar.claimAndTask (h : db.Similar free db') (claimId : Json) :
    claimAndTask env db claimId = claimAndTask env db' claimId := by
  unfold Coordinator.claimAndTask Db.getClaim
  rw [h.findTask, h.findClaim]

theorem find?_similar {rs rs' : List WcpWorker}
    (h : List.Forall₂ (WcpWorker.Similar free) rs rs') (id : String) :
    Option.Rel (WcpWorker.Similar free) (rs.find? fun r => r.workerId = id)
      (rs'.find? fun r => r.workerId = id) := by
  induction h with
  | nil => exact .none
  | cons hrow _ ih =>
      rw [List.find?_cons, List.find?_cons, hrow.workerId]
      split
      · exact .some hrow
      · exact ih

theorem Db.Similar.getWorker (h : db.Similar free db') (workerId : Json) :
    Agree (Option.Rel (WcpWorker.Similar free)) (db.getWorker env workerId)
      (db'.getWorker env workerId) := by
  unfold Db.getWorker
  refine Agree.bindSame (env.lookupKey "worker_id" workerId) fun key _ => ?_
  cases key with
  | none => exact Option.Rel.none
  | some id => exact find?_similar h.workers id

end Reads

/-! ## Actions -/

section Actions

/-- Actions that go the same way in similar states. -/
abbrev Alike (free : Prop) (V : α → β → Prop) (m : Action α) (m' : Action β) : Prop :=
  Coupled (World.Similar free) V m m'

theorem utcnow_alike : Alike free (· = ·) (utcnow env) (utcnow env) := by
  rintro w w' ⟨hdb, htick, hdoomed⟩
  exact ⟨congrArg (fun n => DateTime.utc (env.clock n)) htick, hdb, congrArg (· + 1) htick, hdoomed⟩

theorem uuid4_alike : Alike free (· = ·) (uuid4 env) (uuid4 env) := by
  rintro w w' ⟨hdb, htick, hdoomed⟩
  exact ⟨congrArg env.uuid htick, hdb, congrArg (· + 1) htick, hdoomed⟩

theorem readDb_alike {V : α → β → Prop} {f : Db → Except Err α} {g : Db → Except Err β}
    (h : ∀ db db', db.Similar free db' → Agree V (f db) (g db')) :
    Alike free V (readDb f) (readDb g) :=
  Coupled.reads fun w w' hw => h w.db w'.db hw.db

theorem readDb_alike_eq {f : Db → Except Err α}
    (h : ∀ db db', db.Similar free db' → f db = f db') :
    Alike free (· = ·) (readDb f) (readDb f) :=
  readDb_alike fun db db' hdb => h db db' hdb ▸ Agree.refl (fun _ => rfl) (f db)

theorem writeDb_alike {f g : Db → Db}
    (h : ∀ db db', db.Similar free db' → (f db).Similar free (g db')) :
    Alike free (fun _ _ => True) (writeDb f) (writeDb g) :=
  Coupled.write fun w w' hw => ⟨h w.db w'.db hw.db, hw.tick, hw.doomed⟩

theorem flush_alike : Alike free (fun _ _ => True) flush flush := by
  intro w w' hw
  unfold flush
  rw [hw.doomed]
  split
  · exact ⟨rfl, hw⟩
  · exact ⟨trivial, hw⟩

theorem doom_alike : Alike free (fun _ _ => True) doom doom :=
  Coupled.write fun _ _ hw => ⟨hw.db, hw.tick, rfl⟩

theorem updateTask_alike (id : String) (f : WcpTask → WcpTask) :
    Alike free (fun _ _ => True) (writeDb fun db => db.updateTask id f)
      (writeDb fun db => db.updateTask id f) :=
  writeDb_alike fun db db' h => by
    refine ⟨?_, h.claims, h.attestations, h.workers, h.audit⟩
    simp only [Db.updateTask, h.tasks]

theorem setState_alike (t : WcpTask) (s : TaskState) :
    Alike free (fun _ _ => True) (setState t s) (setState t s) :=
  updateTask_alike _ _

theorem autoflush_alike (claimId : Json) :
    Alike free (fun _ _ => True) (autoflush claimId) (autoflush claimId) := by
  unfold autoflush
  split
  · exact flush_alike
  · exact Coupled.pure trivial

/-- Entries with the same payload, or entries that belong to no claim. -/
theorem append_alike (eventType : Json) (actorDid : String) {payload payload' : Json}
    (claimId taskId : Json) (h : payload = payload' ∨ claimId = .null) :
    Alike free (fun _ _ => True) (append env eventType actorDid payload claimId taskId none)
      (append env eventType actorDid payload' claimId taskId none) := by
  unfold append
  refine Coupled.bindSame utcnow_alike fun ts => ?_
  refine Coupled.liftSame _ fun tsUtcNaive _ => ?_
  refine Coupled.seq (autoflush_alike claimId) fun _ _ => ?_
  refine Coupled.bindSame (Coupled.reads fun w w' hw => ?_) fun prevHash => ?_
  · have hlatest : latestHashForClaim env w.tick w.db = latestHashForClaim env w'.tick w'.db := by
      funext id
      unfold latestHashForClaim
      rw [hw.tick, hw.db.entriesOf]
    unfold predecessor
    rw [hlatest]
    exact Agree.refl (fun _ => rfl) _
  refine Coupled.bindSame uuid4_alike fun entryId => ?_
  split
  · next claim _ _ hclaim _ =>
      refine Coupled.seq (writeDb_alike fun db db' hdb => ?_) fun _ _ =>
        Coupled.seq flush_alike fun _ _ => Coupled.pure trivial
      refine ⟨hdb.tasks, hdb.claims, hdb.attestations, hdb.workers,
        List.rel_append hdb.audit (.cons ?_ .nil)⟩
      rcases h with rfl | rfl
      · exact .inl rfl
      · have hnone : claim = none := by simpa [Driver.bindNullable] using hclaim.symm
        exact .inr ⟨hnone, hnone⟩
  · exact Coupled.seq doom_alike fun _ _ => Coupled.seq flush_alike fun _ _ => Coupled.pure trivial

theorem append_alike_same (eventType : Json) (actorDid : String) (payload claimId taskId : Json) :
    Alike free (fun _ _ => True) (append env eventType actorDid payload claimId taskId none)
      (append env eventType actorDid payload claimId taskId none) :=
  append_alike eventType actorDid claimId taskId (.inl rfl)

theorem claimAndTask_alike (claimId : Json) :
    Alike free (· = ·) (readDb fun db => claimAndTask env db claimId)
      (readDb fun db => claimAndTask env db claimId) :=
  readDb_alike_eq fun _ _ h => h.claimAndTask claimId

end Actions

/-! ## The methods that read no worker -/

section Methods

theorem insertSession_alike (sessionId : String) (claimId : Json) :
    Alike free (fun _ _ => True) (insertSession env sessionId claimId)
      (insertSession env sessionId claimId) := by
  unfold insertSession
  split
  · exact writeDb_alike fun _ _ h => ⟨h.tasks, h.claims, h.attestations, h.workers, h.audit⟩
  · exact doom_alike

theorem executeOpen_alike (claimId : Json) :
    Alike free (· = ·) (executeOpen env claimId) (executeOpen env claimId) := by
  unfold executeOpen
  refine Coupled.bindSame (claimAndTask_alike claimId) ?_
  rintro ⟨c, t⟩
  refine Coupled.seq (Coupled.require _) fun _ _ => ?_
  refine Coupled.bindSame uuid4_alike fun sessionId => ?_
  refine Coupled.seq (insertSession_alike sessionId claimId) fun _ _ => ?_
  refine Coupled.seq (setState_alike t _) fun _ _ => ?_
  refine Coupled.seq flush_alike fun _ _ => ?_
  exact Coupled.seq (append_alike_same _ _ _ _ _) fun _ _ => Coupled.pure rfl

theorem recordHeartbeat_alike (c : WcpClaim) (eventType timestamp : Json) :
    Alike free (fun _ _ => True) (recordHeartbeat env c eventType timestamp)
      (recordHeartbeat env c eventType timestamp) := by
  unfold recordHeartbeat
  split
  · refine Coupled.liftSame _ fun sentAt _ => ?_
    refine Coupled.seq (writeDb_alike fun _ _ h =>
      ⟨h.tasks, ?_, h.attestations, h.workers, h.audit⟩)
      fun _ _ => flush_alike
    simp only [Db.updateClaim, h.claims]
  · exact Coupled.pure trivial

theorem executeEvent_alike (claimId eventType timestamp payload sig : Json) :
    Alike free (· = ·) (executeEvent env claimId eventType timestamp payload sig)
      (executeEvent env claimId eventType timestamp payload sig) := by
  unfold executeEvent
  refine Coupled.bindSame (claimAndTask_alike claimId) ?_
  rintro ⟨c, t⟩
  refine Coupled.seq (Coupled.require _) fun _ _ => ?_
  refine Coupled.liftSame _ fun _ _ => ?_
  refine Coupled.seq (recordHeartbeat_alike c eventType timestamp) fun _ _ => ?_
  exact Coupled.seq (append_alike_same _ _ _ _ _) fun _ _ => Coupled.pure rfl

theorem promoteStale_alike (cutoff : DateTime) (rows : List (WcpClaim × WcpTask)) :
    Alike free (· = ·) (promoteStale env cutoff rows) (promoteStale env cutoff rows) := by
  induction rows with
  | nil => exact Coupled.pure rfl
  | cons row rows ih =>
      obtain ⟨c, t⟩ := row
      unfold promoteStale
      cases c.lastHeartbeatAt with
      | none => exact ih
      | some hb =>
          refine Coupled.liftSame _ fun stale _ => ?_
          cases stale with
          | false => exact ih
          | true =>
              refine Coupled.seq (setState_alike t _) fun _ _ => ?_
              refine Coupled.seq (append_alike_same _ _ _ _ _) fun _ _ => ?_
              exact Coupled.bindSame ih fun _ => Coupled.pure rfl

theorem checkHeartbeats_alike (now : Option DateTime) :
    Alike free (· = ·) (checkHeartbeats env now) (checkHeartbeats env now) := by
  have hrest (now : DateTime) : Alike free (· = ·)
      (do
        let cutoff ← Exec.lift (now.minus (heartbeatSeconds * missedHeartbeats * 1000000))
        let staleRows ← readDb fun db => Except.ok db.executingRows
        promoteStale env cutoff staleRows)
      (do
        let cutoff ← Exec.lift (now.minus (heartbeatSeconds * missedHeartbeats * 1000000))
        let staleRows ← readDb fun db => Except.ok db.executingRows
        promoteStale env cutoff staleRows) := by
    refine Coupled.liftSame _ fun cutoff _ => ?_
    refine Coupled.bindSame (readDb_alike_eq fun db db' h => ?_) fun rows =>
      promoteStale_alike cutoff rows
    simp only [Db.executingRows, h.claims, h.findTask]
  unfold checkHeartbeats
  cases now with
  | none => exact Coupled.bindSame utcnow_alike hrest
  | some now => exact hrest now

theorem recordEvidence_alike (c : WcpClaim) (outcome : VerificationOutcome) (row : EvidenceRow) :
    Alike free (fun _ _ => True) (recordEvidence env c outcome row)
      (recordEvidence env c outcome row) := by
  unfold recordEvidence
  refine Coupled.bindSame uuid4_alike fun attestationId => ?_
  split
  · refine writeDb_alike fun _ _ h => ⟨h.tasks, h.claims, ?_, h.workers, h.audit⟩
    simp only [h.attestations]
  · exact doom_alike

theorem collectEvidence_alike (c : WcpClaim) (resolved : ResolvedDID) (claimId taskPayload : Json)
    (evs : List Json) :
    Alike free (· = ·) (collectEvidence env c resolved claimId taskPayload evs)
      (collectEvidence env c resolved claimId taskPayload evs) := by
  induction evs with
  | nil => exact Coupled.pure rfl
  | cons ev evs ih =>
      unfold collectEvidence
      refine Coupled.liftSame _ fun verdict _ => ?_
      cases verdict.row with
      | none => exact Coupled.bindSame ih fun _ => Coupled.pure rfl
      | some row =>
          refine Coupled.seq (recordEvidence_alike c _ row) fun _ _ => ?_
          exact Coupled.bindSame ih fun _ => Coupled.pure rfl

theorem routeDecision_alike (t : WcpTask) (claimId : Json) (attempt : Nat) (remaining : Int)
    (accountingRef : Json) (aggregate : VerificationOutcome) :
    Alike free (fun _ _ => True)
      (routeDecision env t claimId attempt remaining accountingRef aggregate)
      (routeDecision env t claimId attempt remaining accountingRef aggregate) := by
  have hmove (state : TaskState) (eventType payload : Json) : Alike free (fun _ _ => True)
      (do
        setState t state
        let _ ← append env eventType coordinatorDid payload claimId (.str t.taskId) none)
      (do
        setState t state
        let _ ← append env eventType coordinatorDid payload claimId (.str t.taskId) none) := by
    refine Coupled.seq (setState_alike t state) fun _ _ => ?_
    exact Coupled.seq (append_alike_same _ _ _ _ _) fun _ _ => Coupled.pure trivial
  unfold routeDecision
  split
  · exact hmove _ _ _
  · split
    · exact hmove _ _ _
    · exact hmove _ _ _
  · exact Coupled.pure trivial

theorem attest_alike (claimId attestations : Json) :
    Alike free (· = ·) (attest env claimId attestations) (attest env claimId attestations) := by
  unfold attest
  refine Coupled.bindSame (claimAndTask_alike claimId) ?_
  rintro ⟨c, t⟩
  refine Coupled.liftSame _ fun _ _ => ?_
  refine Coupled.liftSame _ fun req _ => ?_
  refine Coupled.liftSame _ fun taskPayload _ => ?_
  refine Coupled.liftSame _ fun limit _ => ?_
  refine Coupled.liftSame _ fun resolved _ => ?_
  refine Coupled.liftSame _ fun items _ => ?_
  refine Coupled.bindSame (collectEvidence_alike c resolved claimId taskPayload items)
    fun outcomes => ?_
  refine Coupled.liftSame _ fun aggregate _ => ?_
  refine Coupled.seq (updateTask_alike _ _) fun _ _ => ?_
  refine Coupled.seq (append_alike_same _ _ _ _ _) fun _ _ => ?_
  refine Coupled.liftSame _ fun accountingRef _ => ?_
  refine Coupled.seq (routeDecision_alike t claimId _ _ accountingRef aggregate) fun _ _ => ?_
  exact Coupled.seq flush_alike fun _ _ => Coupled.pure rfl

theorem supervise_alike (claimId handoffReason urgency : Json) :
    Alike free (· = ·) (supervise env claimId handoffReason urgency)
      (supervise env claimId handoffReason urgency) := by
  unfold supervise
  refine Coupled.bindSame (claimAndTask_alike claimId) ?_
  rintro ⟨c, t⟩
  refine Coupled.seq (Coupled.require _) fun _ _ => ?_
  refine Coupled.seq (setState_alike t _) fun _ _ => ?_
  refine Coupled.seq flush_alike fun _ _ => ?_
  refine Coupled.bindSame uuid4_alike fun sessionKey => ?_
  exact Coupled.seq (append_alike_same _ _ _ _ _) fun _ _ => Coupled.pure rfl

theorem abort_alike (claimId reason stateSnapshot : Json) :
    Alike free (· = ·) (abort env claimId reason stateSnapshot)
      (abort env claimId reason stateSnapshot) := by
  unfold abort
  refine Coupled.bindSame (claimAndTask_alike claimId) ?_
  rintro ⟨c, t⟩
  refine Coupled.seq (Coupled.require _) fun _ _ => ?_
  refine Coupled.seq (setState_alike t _) fun _ _ => ?_
  refine Coupled.liftSame _ fun accountingRef _ => ?_
  refine Coupled.seq flush_alike fun _ _ => ?_
  refine Coupled.seq (append_alike_same _ _ _ _ _) fun _ _ => ?_
  exact Coupled.bindSame uuid4_alike fun _ => Coupled.pure rfl

theorem createSubscription_alike (agentDid filterDict sinceRevision : Json) :
    Alike free (· = ·) (createSubscription env agentDid filterDict sinceRevision)
      (createSubscription env agentDid filterDict sinceRevision) := by
  unfold createSubscription
  refine Coupled.liftSame _ fun resolved _ => ?_
  refine Coupled.bindSame uuid4_alike fun subId => ?_
  dsimp only
  split
  · refine Coupled.seq (writeDb_alike fun _ _ h =>
      ⟨h.tasks, h.claims, h.attestations, h.workers, h.audit⟩)
      fun _ _ => ?_
    exact Coupled.seq flush_alike fun _ _ => Coupled.pure rfl
  · refine Coupled.seq doom_alike fun _ _ => ?_
    exact Coupled.seq flush_alike fun _ _ => Coupled.pure rfl

end Methods

/-! ## tasks/claim -/

section Claim

theorem Db.Similar.claimLoadWorker {db db' : Db} (h : db.Similar free db') (t : WcpTask)
    (workerId : Json) :
    Agree (WcpWorker.Similar free) (claimLoadWorker env db t workerId)
      (claimLoadWorker env db' t workerId) := by
  unfold Coordinator.claimLoadWorker
  refine Agree.bind (h.getWorker workerId) fun found found' hfound => ?_
  cases hfound with
  | none => exact rfl
  | some hrow =>
      dsimp only
      rw [hrow.principalId]
      split
      · refine Agree.bindSame _ fun req _ => Agree.bindSame _ fun modes _ => ?_
        exact Agree.bindSame _ fun witnessed _ => Agree.bindSame _ fun _ _ => hrow
      · exact hrow

theorem claimWrite_alike (t : WcpTask) {worker worker' : WcpWorker}
    (h : worker.Similar free worker') (eta : DateTime) (acceptanceAttestation bid : Json)
    (now : DateTime) (claimId : String) :
    Alike free (fun _ _ => True)
      (claimWrite env t worker eta acceptanceAttestation bid now claimId)
      (claimWrite env t worker' eta acceptanceAttestation bid now claimId) := by
  rintro w w' ⟨hdb, htick, hdoomed⟩
  unfold claimWrite
  rw [h.workerId, hdb.findClaim]
  cases env.bindNullable bid with
  | none => exact ⟨rfl, hdb, htick, hdoomed⟩
  | some bidAmount =>
      dsimp only
      split
      · exact ⟨rfl, hdb, htick, hdoomed⟩
      · refine ⟨trivial, ⟨?_, ?_, hdb.attestations, hdb.workers, hdb.audit⟩, htick, hdoomed⟩
        · simp only [Db.updateTask, hdb.tasks]
        · simp only [hdb.claims]

theorem claim_alike (taskId workerId eta acceptanceAttestation bid : Json) :
    Alike free (· = ·) (claim env taskId workerId eta acceptanceAttestation bid)
      (claim env taskId workerId eta acceptanceAttestation bid) := by
  unfold claim
  refine Coupled.bindSame (readDb_alike_eq fun db db' h => ?_) fun t => ?_
  · unfold claimLoadTask Db.getTask
    rw [h.findTask]
  refine Coupled.bindSame utcnow_alike fun now => ?_
  refine Coupled.liftSame _ fun _ _ => ?_
  refine Coupled.bind (readDb_alike fun _ _ h => h.claimLoadWorker t workerId)
    fun worker worker' hworker => ?_
  refine Coupled.liftSame _ fun resolved _ => ?_
  refine Coupled.bindSame (readDb_alike_eq fun db db' h => ?_) fun _ => ?_
  · unfold claimCheckExisting
    rw [h.claims]
  refine Coupled.liftSame _ fun etaTime _ => ?_
  refine Coupled.bindSame utcnow_alike fun heartbeat => ?_
  refine Coupled.bindSame uuid4_alike fun claimId => ?_
  refine Coupled.seq
    (claimWrite_alike t hworker etaTime acceptanceAttestation bid heartbeat claimId)
    fun _ _ => ?_
  exact Coupled.seq (append_alike_same _ _ _ _ _) fun _ _ => Coupled.pure rfl

end Claim

/-! ## tasks/post -/

section Post

/-- The classes that a task admits, as `_count_eligible` reads them. -/
def classFilter (task : Json) : Except Err Json := do
  let constraints ← task.getD "constraints" (.obj [])
  let filter ← (constraints.or (.obj [])).get "worker_class_filter"
  let allowed ← (filter.or (.obj [])).get "allowed"
  return allowed.or (.arr [])

/-- The class filter of a task is empty. -/
def Unfiltered (task : Json) : Prop :=
  ∀ filter, classFilter task = .ok filter → filter.truthy = false

theorem filterWorkers_similar (wanted : Wanted) {rs rs' : List WcpWorker}
    (h : List.Forall₂ (WcpWorker.Similar free) rs rs') :
    Agree (fun ws ws' => ws.length = ws'.length) (filterWorkers wanted rs)
      (filterWorkers wanted rs') := by
  induction h with
  | nil => exact rfl
  | @cons r r' _ _ hrow _ ih =>
      have hmatch : matchesRequired wanted r.capabilitiesJson =
          matchesRequired wanted r'.capabilitiesJson := by
        unfold matchesRequired
        rw [hrow.required]
      unfold filterWorkers
      rw [hmatch]
      refine Agree.bindSame _ fun keep _ => ?_
      refine Agree.bind ih fun ws ws' hws => ?_
      cases keep with
      | false => exact hws
      | true => exact congrArg (· + 1) hws

theorem candidateWorkers_similar {db db' : Db} (h : db.Similar free db') {filter : Json}
    (hfree : free → filter.truthy = false) :
    Agree (List.Forall₂ (WcpWorker.Similar free)) (candidateWorkers env db filter)
      (candidateWorkers env db' filter) := by
  unfold candidateWorkers
  split
  · next htruthy =>
      refine Agree.bindSame _ fun labels _ => ?_
      refine List.rel_filter (fun r r' hrow => ?_) h.workers
      have hclass : ¬ free := fun hf => by simp [hfree hf] at htruthy
      dsimp only
      rw [hrow.workerClass hclass]
  · exact h.workers

theorem matchingWorkers_similar {db db' : Db} (h : db.Similar free db') (query : Json)
    {filter : Json} (hfree : free → filter.truthy = false) :
    Agree (fun ws ws' => ws.length = ws'.length) (matchingWorkers env db query filter)
      (matchingWorkers env db' query filter) := by
  unfold matchingWorkers
  refine Agree.bind (candidateWorkers_similar h hfree) fun rs rs' hrs => ?_
  split
  · exact hrs.length_eq
  · refine Agree.bindSame _ fun _ _ => Agree.bindSame _ fun methods _ => ?_
    refine Agree.bindSame _ fun _ _ => Agree.bindSame _ fun descriptors _ => ?_
    refine Agree.bindSame _ fun _ _ => Agree.bindSame _ fun certifications _ => ?_
    exact Agree.bindSame _ fun venue _ => filterWorkers_similar _ hrs

theorem countEligible_similar {db db' : Db} (h : db.Similar free db') {task : Json}
    (hfree : free → Unfiltered task) :
    countEligible env db task = countEligible env db' task := by
  refine Agree.eq ?_
  unfold countEligible
  refine Agree.bindSame _ fun constraints hconstraints => ?_
  refine Agree.bindSame _ fun filter hfilter => ?_
  refine Agree.bindSame _ fun allowed hallowed => ?_
  refine Agree.bindSame _ fun query _ => ?_
  have hread : classFilter task = .ok (allowed.or (.arr [])) := by
    simp only [classFilter, bind_eq_ok]
    exact ⟨constraints, hconstraints, filter, hfilter, allowed, hallowed, rfl⟩
  exact Agree.bind (matchingWorkers_similar h query fun hf => hfree hf _ hread)
    fun ws ws' hlength => hlength

/-- The filter of a task that passed the checks is the one it was posted with. -/
theorem postChecks_unfiltered {fresh : String} {task expiry : Json} {plan : PostPlan}
    (h : postChecks env fresh task expiry = .ok plan) (hfilter : Unfiltered task) :
    Unfiltered plan.task := by
  simp only [postChecks, bind_eq_ok] at h
  obtain ⟨_, -, _, -, req, hreq, _, -, _, -, _, -, _, -, _, -, _, -, named, -, _, -, _, -,
    _, -, _, -, h⟩ := h
  obtain ⟨ms, rfl, rfl⟩ := getD_eq_ok hreq
  cases h
  have hsame : classFilter (.obj (Json.setItem ms "task_id" (named.or (.str fresh)))) =
      classFilter (.obj ms) := by
    simp only [classFilter, Json.getD,
      Json.lookup_setItem_ne ms _ (by decide : "constraints" ≠ "task_id")]
  exact fun filter hread => hfilter filter (hsame ▸ hread)

theorem insertTask_alike (plan : PostPlan) (postedAt : DateTime) :
    Alike free (fun _ _ => True) (insertTask env plan postedAt) (insertTask env plan postedAt) := by
  rintro w w' ⟨hdb, htick, hdoomed⟩
  unfold insertTask
  rw [hdb.findTask]
  split
  · split
    · exact ⟨rfl, hdb, htick, hdoomed⟩
    · refine ⟨trivial, ⟨?_, hdb.claims, hdb.attestations, hdb.workers, hdb.audit⟩, htick, hdoomed⟩
      simp only [hdb.tasks]
  · exact ⟨rfl, hdb, htick, hdoomed⟩

theorem post_alike {task : Json} (expiry informational informational' : Json)
    (hfree : free → Unfiltered task) :
    Alike free (· = ·) (post env task expiry informational)
      (post env task expiry informational') := by
  unfold post
  refine Coupled.bindSame uuid4_alike fun fresh => ?_
  refine Coupled.liftSame _ fun plan hplan => ?_
  refine Coupled.bindSame utcnow_alike fun postedAt => ?_
  refine Coupled.seq (insertTask_alike plan postedAt) fun _ _ => ?_
  refine Coupled.liftSame _ fun accountingRef _ => ?_
  refine Coupled.seq (append_alike _ _ _ _ (.inr rfl)) fun _ _ => ?_
  refine Coupled.bindSame (readDb_alike_eq fun db db' h => ?_) fun eligible => Coupled.pure rfl
  exact countEligible_similar h fun hf => postChecks_unfiltered hplan (hfree hf)

end Post

/-! ## capabilities/upsert -/

section Upsert

/-- Capability descriptors that differ in `class_extension` and, where classes are free, in their
class, which is valid in both. -/
inductive SimilarDescriptors (free : Prop) : Json → Json → Prop
  | same (v : Json) : SimilarDescriptors free v v
  | differ {ms ms' : List (String × Json)}
      (hrest : ∀ key, key ≠ "class_extension" → key ≠ "class" → ms.lookup key = ms'.lookup key)
      (hclass : ms.lookup "class" = ms'.lookup "class" ∨
        free ∧ (WorkerClass.ofValue ((ms.lookup "class").getD .null)).isSome ∧
          (WorkerClass.ofValue ((ms'.lookup "class").getD .null)).isSome) :
      SimilarDescriptors free (.obj ms) (.obj ms')

variable {capabilities capabilities' : Json}

theorem SimilarDescriptors.get (h : SimilarDescriptors free capabilities capabilities')
    {key : String}
    (hext : key ≠ "class_extension") (hclass : key ≠ "class") :
    (capabilities.get key : Except Err Json) = capabilities'.get key := by
  cases h with
  | same => rfl
  | differ hrest => simp only [Json.get, Json.getD, hrest key hext hclass]

theorem SimilarDescriptors.required (h : SimilarDescriptors free capabilities capabilities') :
    ((capabilities.or (.obj [])).get "required" : Except Err Json) =
      (capabilities'.or (.obj [])).get "required" := by
  cases h with
  | same => rfl
  | differ hrest =>
      rw [Json.or_obj, Json.or_obj]
      simp only [Json.get, Json.getD, hrest "required" (by decide) (by decide)]

theorem SimilarDescriptors.getClass (h : SimilarDescriptors free capabilities capabilities') :
    Agree (fun v v' => v = v' ∨
        free ∧ (WorkerClass.ofValue v).isSome ∧ (WorkerClass.ofValue v').isSome)
      (capabilities.get "class" : Except Err Json) (capabilities'.get "class") := by
  cases h with
  | same => exact Agree.refl (fun _ => .inl rfl) _
  | differ _ hclass =>
      rcases hclass with heq | hfree
      · simp only [Json.get, Json.getD, heq]
        exact .inl rfl
      · exact .inr hfree

theorem storeWorker_alike {existing existing' : Option WcpWorker}
    (hexisting : Option.Rel (WcpWorker.Similar free) existing existing') (did : String)
    {workerClass workerClass' : WorkerClass} (hclass : ¬ free → workerClass = workerClass')
    (h : SimilarDescriptors free capabilities capabilities') (principalId ttlSeconds : Json)
    (asOf : DateTime) :
    Alike free (fun _ _ => True)
      (storeWorker env existing did workerClass capabilities principalId ttlSeconds asOf)
      (storeWorker env existing' did workerClass' capabilities' principalId ttlSeconds asOf) := by
  unfold storeWorker
  cases env.bindColumn principalId with
  | none =>
      cases hexisting with
      | none => exact Coupled.seq doom_alike fun _ _ => flush_alike
      | some => exact doom_alike
  | some principal =>
      cases env.bindsInt ttlSeconds with
      | false =>
          cases hexisting with
          | none => exact Coupled.seq doom_alike fun _ _ => flush_alike
          | some => exact doom_alike
      | true =>
          cases hexisting with
          | none =>
              refine Coupled.seq (writeDb_alike fun db db' hdb => ?_) fun _ _ => flush_alike
              refine ⟨hdb.tasks, hdb.claims, hdb.attestations,
                List.rel_append hdb.workers (.cons ?_ .nil), hdb.audit⟩
              exact ⟨rfl, rfl, rfl, rfl, hclass, h.required⟩
          | some hrow =>
              refine writeDb_alike fun db db' hdb =>
                ⟨hdb.tasks, hdb.claims, hdb.attestations, ?_, hdb.audit⟩
              refine List.rel_map (fun r r' hr => ?_) hdb.workers
              rw [hr.workerId, hrow.workerId]
              split
              · exact ⟨hr.workerId, rfl, congrArg (· + 1) hr.revision, rfl, hclass, h.required⟩
              · exact hr

/-- An answer without the descriptor. -/
def withoutCapabilities : Json → Json
  | .obj ms => .obj (ms.filter fun m => m.1 ≠ "capabilities")
  | v => v

theorem upsertCapabilities_alike (workerId principalId ttlSeconds : Json)
    (h : SimilarDescriptors free capabilities capabilities') :
    Alike free (fun r r' => withoutCapabilities r = withoutCapabilities r')
      (upsertCapabilities env workerId capabilities principalId ttlSeconds)
      (upsertCapabilities env workerId capabilities' principalId ttlSeconds) := by
  unfold upsertCapabilities
  refine Coupled.liftSame _ fun resolved _ => ?_
  rw [h.get (by decide : "schema_version" ≠ "class_extension") (by decide)]
  refine Coupled.liftSame _ fun schemaVersion _ => ?_
  refine Coupled.seq (Coupled.require _) fun _ _ => ?_
  refine Coupled.bind (Coupled.lift h.getClass) fun v v' hv => ?_
  refine Coupled.bind (V := fun c c' => ¬ free → c = c') (Coupled.lift ?_)
    fun workerClass workerClass' hclass => ?_
  · rcases hv with rfl | ⟨hfree, hvalid, hvalid'⟩
    · exact Agree.refl (fun _ _ => rfl) _
    · obtain ⟨c, hc⟩ := Option.isSome_iff_exists.1 hvalid
      obtain ⟨c', hc'⟩ := Option.isSome_iff_exists.1 hvalid'
      rw [hc, hc']
      exact fun hno => absurd hfree hno
  refine Coupled.bind (readDb_alike fun _ _ hdb => hdb.getWorker workerId)
    fun existing existing' hexisting => ?_
  refine Coupled.bindSame utcnow_alike fun asOf => ?_
  refine Coupled.seq (storeWorker_alike hexisting resolved.did hclass h principalId ttlSeconds asOf)
    fun _ _ => Coupled.pure ?_
  cases hexisting with
  | none => rfl
  | some hrow =>
      dsimp only
      rw [hrow.revision]
      rfl

end Upsert

/-! ## Reads -/

section Observers

variable {db db' : Db}

theorem Db.Similar.listCapabilities (h : db.Similar free db') (workerId : Json) :
    Agree (fun r r' => withoutCapabilities r = withoutCapabilities r')
      (listCapabilities env db workerId) (listCapabilities env db' workerId) := by
  unfold Coordinator.listCapabilities
  refine Agree.bind (h.getWorker workerId) fun found found' hfound => ?_
  cases hfound with
  | none => rfl
  | some hrow =>
      dsimp only
      rw [hrow.workerId, hrow.ttlSeconds, hrow.revision]
      rfl

theorem Db.Similar.observeAudit (h : db.Similar free db') (query : Nat) (claimId taskId : Json) :
    Agree (fun o o' => claimId.truthy = true → o = o') (observeAudit env query db claimId taskId)
      (observeAudit env query db' claimId taskId) := by
  unfold Coordinator.observeAudit
  refine Agree.bindSame _ fun _ _ => Agree.bindSame _ fun key _ => ?_
  intro htruthy
  cases key with
  | none => simp [htruthy]
  | some id =>
      have hrows := filter_similar h.audit id
      have hverify : verifyChain env (query + 1) db = verifyChain env (query + 1) db' := by
        unfold verifyChain
        rw [h.entriesOf]
      simp only [htruthy, if_true, Option.isSome_some, Bool.true_and, hrows, hverify]

end Observers

/-! ## Calls -/

section Calls

/-- What the caller is told: a write that the database refuses at the commit fails the call. -/
def answer (env : Env) (w : World) (call : Call) : Except Err Json :=
  match serviceMethod env call w with
  | (.ok r, w') => if w'.doomed then .error (.raised .database) else .ok r
  | (.error e, _) => .error e

/-- Calls that differ in what is not read. -/
inductive Call.Similar (free : Prop) : Call → Call → Prop
  | same (call : Call) : Call.Similar free call call
  | post (task expiry informational informational' : Json) :
      Call.Similar free (.post task expiry informational) (.post task expiry informational')
  | upsertCapabilities (workerId principalId ttlSeconds : Json) {capabilities capabilities' : Json}
      (h : SimilarDescriptors free capabilities capabilities') :
      Call.Similar free (.upsertCapabilities workerId capabilities principalId ttlSeconds)
        (.upsertCapabilities workerId capabilities' principalId ttlSeconds)

/-- A posted task has an empty class filter. -/
def Call.Unfiltered : Call → Prop
  | .post task _ _ => Coordinator.Unfiltered task
  | _ => True

/-- Answers to a call that are told apart only by the descriptor that a registration echoes. -/
def Call.Answers : Call → Json → Json → Prop
  | .upsertCapabilities .., r, r' => withoutCapabilities r = withoutCapabilities r'
  | _, r, r' => r = r'

theorem serviceMethod_alike {call call' : Call} (h : call.Similar free call')
    (hfree : free → call.Unfiltered) :
    Alike free call.Answers (serviceMethod env call) (serviceMethod env call') := by
  cases h with
  | same =>
      cases call with
      | post task expiry informational => exact post_alike expiry _ _ hfree
      | claim taskId workerId eta acceptanceAttestation bid => exact claim_alike _ _ _ _ _
      | executeOpen claimId => exact executeOpen_alike claimId
      | executeEvent claimId eventType timestamp payload sig => exact executeEvent_alike _ _ _ _ _
      | checkHeartbeats now =>
          exact Coupled.bindSame (checkHeartbeats_alike now) fun _ => Coupled.pure rfl
      | attest claimId attestations =>
          exact Coupled.bindSame (attest_alike claimId attestations) fun _ => Coupled.pure rfl
      | supervise claimId handoffReason urgency => exact supervise_alike _ _ _
      | abort claimId reason stateSnapshot => exact abort_alike _ _ _
      | upsertCapabilities workerId capabilities principalId ttlSeconds =>
          exact upsertCapabilities_alike _ _ _ (.same capabilities)
      | createSubscription agentDid filterDict sinceRevision => exact createSubscription_alike _ _ _
  | post task expiry informational informational' => exact post_alike expiry _ _ hfree
  | upsertCapabilities workerId principalId ttlSeconds hcap =>
      exact upsertCapabilities_alike workerId principalId ttlSeconds hcap

variable {w w' : World} {call call' : Call}

theorem settle_similar {V : α → β → Prop} {m : Action α} {m' : Action β} (hw : w.Similar free w')
    (h : Alike free V m m') : (w.settle (m w)).Similar free (w'.settle (m' w')) := by
  obtain ⟨hvalue, hstate⟩ := h w w' hw
  rcases hm : m w with ⟨r, t⟩
  rcases hm' : m' w' with ⟨r', t'⟩
  rw [hm, hm'] at hvalue hstate
  have hdrop : ({ w with tick := t.tick, doomed := false } : World).Similar free
      { w' with tick := t'.tick, doomed := false } := ⟨hw.db, hstate.tick, rfl⟩
  have hkeep : (if t.doomed then { w with tick := t.tick, doomed := false }
        else { t with doomed := false } : World).Similar free
      (if t'.doomed then { w' with tick := t'.tick, doomed := false }
        else { t' with doomed := false }) := by
    rw [hstate.doomed]
    split
    · exact hdrop
    · exact ⟨hstate.db, hstate.tick, rfl⟩
  unfold World.settle
  cases r with
  | ok a =>
      cases r' with
      | ok b => exact hkeep
      | error e => cases hvalue
  | error e =>
      cases r' with
      | ok b => cases hvalue
      | error e' =>
          obtain rfl : e = e' := hvalue
          cases e with
          | raised x =>
              cases x with
              | database => exact hdrop
              | _ => exact hkeep
          | _ => exact hkeep

theorem step_similar (hw : w.Similar free w') (h : call.Similar free call')
    (hfree : free → call.Unfiltered) : (step env w call).Similar free (step env w' call') := by
  rw [step_eq_settle, step_eq_settle]
  exact settle_similar hw (serviceMethod_alike h hfree)

theorem answer_similar (hw : w.Similar free w') (h : call.Similar free call')
    (hfree : free → call.Unfiltered) :
    Agree call.Answers (answer env w call) (answer env w' call') := by
  obtain ⟨hvalue, hstate⟩ := @serviceMethod_alike env free call call' h hfree w w' hw
  unfold answer
  rcases hm : serviceMethod env call w with ⟨_ | r, t⟩ <;>
    rcases hm' : serviceMethod env call' w' with ⟨_ | r', t'⟩ <;>
    rw [hm, hm'] at hvalue hstate
  · exact hvalue
  · cases hvalue
  · cases hvalue
  · dsimp only
    rw [hstate.doomed]
    split
    · exact rfl
    · exact hvalue

end Calls

/-! ## Runs -/

section Runs

/-- What is seen of one step of a run: the call, its answer and the committed state. -/
structure Observation where
  call : Call
  answer : Except Err Json
  world : World

/-- The steps of a run. -/
def observations (env : Env) : World → List Call → List Observation
  | _, [] => []
  | w, call :: calls =>
      ⟨call, answer env w call, step env w call⟩ :: observations env (step env w call) calls

/-- Steps that go the same way: the same exception or the same answer, the same tasks and judged
attestations after it, and reads that fail alike. -/
structure Observation.Agrees (env : Env) (o o' : Observation) : Prop where
  answer : Agree o.call.Answers o.answer o'.answer
  tasks : o.world.db.tasks = o'.world.db.tasks
  attestations : o.world.db.attestations = o'.world.db.attestations
  listed : ∀ workerId, Agree (fun r r' => withoutCapabilities r = withoutCapabilities r')
    (listCapabilities env o.world.db workerId) (listCapabilities env o'.world.db workerId)
  observed : ∀ claimId taskId, Agree (fun a a' => claimId.truthy = true → a = a')
    (observeAudit env o.world.tick o.world.db claimId taskId)
    (observeAudit env o'.world.tick o'.world.db claimId taskId)

theorem observations_similar {w w' : World} {calls calls' : List Call} (hw : w.Similar free w')
    (h : List.Forall₂ (Call.Similar free) calls calls')
    (hfree : free → ∀ call ∈ calls, call.Unfiltered) :
    List.Forall₂ (Observation.Agrees env) (observations env w calls)
      (observations env w' calls') := by
  induction h generalizing w w' with
  | nil => exact .nil
  | @cons call call' calls calls' hcall _ ih =>
      have hfirst : free → call.Unfiltered := fun hf => hfree hf call List.mem_cons_self
      have hnext := @step_similar env free w w' call call' hw hcall hfirst
      refine .cons ⟨answer_similar hw hcall hfirst, hnext.db.tasks, hnext.db.attestations, ?_, ?_⟩
        (ih hnext ?_)
      · exact fun workerId => hnext.db.listCapabilities workerId
      · intro claimId taskId
        rw [hnext.tick]
        exact hnext.db.observeAudit _ claimId taskId
      · exact fun hf c hc => hfree hf c (List.mem_cons_of_mem call hc)

/-- Two runs of the same calls that differ in the `class_extension` of registrations, in the
informational siblings of posted tasks and, if every posted task has an empty class filter, in
the valid classes of workers, go the same way at every step. -/
theorem class_agnostic (env : Env) (workers : List WcpWorker) (calls calls' : List Call)
    (h : List.Forall₂ (Call.Similar (∀ call ∈ calls, call.Unfiltered)) calls calls') :
    List.Forall₂ (Observation.Agrees env) (observations env (initial workers) calls)
      (observations env (initial workers) calls') :=
  observations_similar (initial_similar workers) h id

/-- Register a worker of a class, post a task, let the worker claim and complete it. -/
def classRun (workerClass : String) (extension informational : List (String × Json)) :
    List Call := [
  .upsertCapabilities (.str zeroDid)
    (.obj [
      ("schema_version", .str "wcp/0.2"),
      ("class", .str workerClass),
      ("required", .obj [("attestation_methods_supported", .arr [.str "sensor-witness"])]),
      ("class_extension", .obj extension)])
    (.str zeroDid) (.int 3600),
  .post (localTask anySensor) localDate (.obj informational),
  .claim (.str "t1") (.str zeroDid) localDate (localAcceptance zeroSig) .null,
  .executeOpen (.str "id-7"),
  .attest (.str "id-7") (.arr [coverageEvidence])]

theorem classRun_unfiltered (workerClass : String)
    (extension informational : List (String × Json)) :
    ∀ call ∈ classRun workerClass extension informational, call.Unfiltered := by
  have htask : Unfiltered (localTask anySensor) := by
    intro filter hfilter
    cases hfilter
    rfl
  simp [classRun, Call.Unfiltered, htask]

/-- A run with a human and a run with a robot go the same way. -/
theorem class_agnostic_robot :
    List.Forall₂ (Observation.Agrees localEnv)
      (observations localEnv (initial []) (classRun "human" [("skill", .int 1)] []))
      (observations localEnv (initial [])
        (classRun "autonomous_robot" [("firmware", .str "2.1")]
          [("agent_class", .str "robot")])) := by
  refine class_agnostic localEnv [] _ _ ?_
  have hfree := classRun_unfiltered "human" [("skill", .int 1)] []
  refine .cons (.upsertCapabilities _ _ _ (.differ ?_ (.inr ⟨hfree, by decide, by decide⟩)))
    (.cons (.post _ _ _ _) (.cons (.same _) (.cons (.same _) (.cons (.same _) .nil))))
  intro key hext hclass
  have hext' : (key == "class_extension") = false := by simpa using hext
  have hclass' : (key == "class") = false := by simpa using hclass
  simp only [List.lookup_cons, hext', hclass', List.lookup_nil]

end Runs

end Wcp.Coordinator
