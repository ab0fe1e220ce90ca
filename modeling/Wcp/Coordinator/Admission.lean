import Wcp.Coordinator.Completion
import Wcp.Coordinator.Persistence
/-!
# Who wins a claim

`claim` looks at the state and the expiry of the task, at whether the worker deals
with itself, and at the worker's signature (`claim_admitted`).  Two rules about
the winner are set against it.  A worker that deals with itself needs a
requirement that names the mode of an independent witness, which a threshold of
`all` turns into a passing item (`self_dealing_witnessed`).  Whether the worker is
one that `matching_workers` finds for the task is not asked at all
(`claim_eligible_iff`).
-/

namespace Wcp.Coordinator

open Wcp.Base
open Wcp.Base.Exec

variable {env : Env} {w : World} {taskId workerId eta acceptance bid answer : Json}

/-! ## A successful claim -/

/-- What a claim has passed: the rows it read and the tests it made on them. -/
structure Admitted (env : Env) (w : World) (taskId workerId : Json) (t : WcpTask)
    (worker : WcpWorker) : Prop where
  task : claimLoadTask env w.db taskId = .ok t
  unexpired : claimCheckExpiry env taskId t (.utc (env.clock w.tick)) = .ok ()
  worker : claimLoadWorker env w.db t workerId = .ok worker

theorem claim_admitted (h : (claim env taskId workerId eta acceptance bid w).1 = .ok answer) :
    ∃ t worker, Admitted env w taskId workerId t worker := by
  have hends : Ends (claim env taskId workerId eta acceptance bid) w fun r _ =>
      ∀ a, r = .ok a → ∃ t worker, Admitted env w taskId workerId t worker := by
    unfold claim
    refine readDb_bind ?_ fun _ _ => nofun
    intro t ht
    refine utcnow_bind (Ends.lift_bind ?_ fun _ _ => nofun)
    intro _ hexpiry
    refine readDb_bind ?_ fun _ _ => nofun
    intro worker hworker _ _
    exact ⟨t, worker, ht, hexpiry, hworker⟩
  exact hends answer h

/-- What the worker of a successful claim is: a stored row, whose principal is not the poster of a
task without an independent witness. -/
theorem claimLoadWorker_cases {db : Db} {t : WcpTask} {worker : WcpWorker}
    (h : claimLoadWorker env db t workerId = .ok worker) :
    db.getWorker env workerId = .ok (some worker) ∧
      (t.postedBy = worker.principalId → ∃ requirement modes,
        t.taskJson.getD "attestation_requirement" (.obj []) =
          (.ok requirement : Except Err Json) ∧
        requirement.get "modes" = (.ok modes : Except Err Json) ∧
        (modes.or (.arr [])).contains "third-party-witness" = (.ok true : Except Err Bool)) := by
  unfold claimLoadWorker at h
  obtain ⟨found, hfound, h⟩ := bind_eq_ok.1 h
  cases found with
  | none => cases h
  | some row =>
      dsimp only at h
      by_cases hself : t.postedBy = row.principalId
      · rw [if_pos hself] at h
        simp only [bind_eq_ok, ensure_eq_ok] at h
        obtain ⟨requirement, hreq, modes, hmodes, _, hcontains, _, rfl, h⟩ := h
        cases h
        exact ⟨hfound, fun _ => ⟨requirement, modes, hreq, hmodes, hcontains⟩⟩
      · rw [if_neg hself] at h
        cases h
        exact ⟨hfound, fun h => absurd h hself⟩

theorem claimLoadTask_getTask {db : Db} {t : WcpTask} (h : claimLoadTask env db taskId = .ok t) :
    db.getTask env taskId = .ok (some t) := by
  unfold claimLoadTask at h
  obtain ⟨found, hfound, h⟩ := bind_eq_ok.1 h
  cases found with
  | none => cases h
  | some row =>
      obtain ⟨_, -, h⟩ := bind_eq_ok.1 h
      cases h
      exact hfound

/-- The rows that a claim read are those stored under the ids of the request. -/
theorem Admitted.rows {t t' : WcpTask} {worker worker' : WcpWorker}
    (h : Admitted env w taskId workerId t worker)
    (ht : w.db.getTask env taskId = .ok (some t'))
    (hworker : w.db.getWorker env workerId = .ok (some worker')) : t' = t ∧ worker' = worker := by
  constructor
  · have hload := claimLoadTask_getTask h.task
    rw [ht] at hload
    exact Option.some.inj (Except.ok.inj hload)
  · have hload := (claimLoadWorker_cases h.worker).1
    rw [hworker] at hload
    exact Option.some.inj (Except.ok.inj hload)

/-! ## Self-dealing -/

/-- The requirement names the mode of an independent witness. -/
def NamesWitness (requirement : Json) : Prop :=
  ∃ modes, requirement.get "modes" = (.ok modes : Except Err Json) ∧
    (modes.or (.arr [])).contains "third-party-witness" = (.ok true : Except Err Bool)

theorem Admitted.namesWitness {t : WcpTask} {worker : WcpWorker}
    (h : Admitted env w taskId workerId t worker) (hself : t.postedBy = worker.principalId)
    {requirement : Json}
    (hreq : t.taskJson.getD "attestation_requirement" (.obj []) =
      (.ok requirement : Except Err Json)) : NamesWitness requirement := by
  obtain ⟨requirement', modes, hreq', hmodes, hcontains⟩ :=
    (claimLoadWorker_cases h.worker).2 hself
  cases hreq.symm.trans hreq'
  exact ⟨modes, hmodes, hcontains⟩

theorem infix_of_contains {s key : String}
    (h : (Json.str s).contains key = (.ok true : Except Err Bool)) : key.toList <:+: s.toList := by
  simpa using Except.ok.inj h

/-- Where the modes are a list or the keys of an object, the witness is one of them; a text is
read letter by letter. -/
theorem NamesWitness.mem_listed {requirement : Json} (h : NamesWitness requirement) :
    .str "third-party-witness" ∈ listed requirement "modes" ∨
      ∃ c, .str (String.singleton c) ∈ listed requirement "modes" := by
  obtain ⟨modes, hmodes, hcontains⟩ := h
  have hlisted : ∀ xs, (modes.or (.arr [])).iter = (.ok xs : Except Err (List Json)) →
      listed requirement "modes" = xs := by
    intro xs hxs
    rw [listed, bind_eq_ok.2 ⟨modes, hmodes, hxs⟩]
  cases hor : modes.or (.arr []) with
  | arr xs =>
      rw [hor] at hlisted hcontains
      rw [hlisted xs rfl]
      exact .inl (by simpa [Json.contains] using hcontains)
  | obj ms =>
      rw [hor] at hlisted hcontains
      rw [hlisted _ rfl]
      have hkey : (ms.lookup "third-party-witness").isSome = true := Except.ok.inj hcontains
      obtain ⟨x, hx⟩ := Option.isSome_iff_exists.1 hkey
      exact .inl (List.mem_map_of_mem (mem_of_lookup hx))
  | str s =>
      rw [hor] at hlisted hcontains
      rw [hlisted _ rfl]
      have hmem : 't' ∈ s.toList := (infix_of_contains hcontains).subset (by decide)
      exact .inr ⟨'t', List.mem_map_of_mem hmem⟩
  | _ =>
      rw [hor] at hcontains
      cases hcontains

/-- Under threshold `all`, what such a requirement lets pass contains a witness that passes. -/
theorem AttestPlan.witness_passes {plan : AttestPlan} {claimId : Json}
    {aggregate : VerificationOutcome} (hagg : plan.aggregate env claimId = .ok aggregate)
    (hpass : aggregate.decision = .pass) (hnames : NamesWitness plan.requirement)
    (hall : plan.requirement.get "threshold" = (.ok (.str "all") : Except Err Json)) :
    ∃ ev ∈ plan.items, plan.passes env claimId ev = true ∧
      ev.get "mode" = (.ok (.str "third-party-witness") : Except Err Json) := by
  have hcovered := AttestPlan.all_covered hagg hpass hall
  rcases hnames.mem_listed with hmem | ⟨c, hmem⟩
  · exact hcovered _ hmem
  · -- no letter is a mode
    obtain ⟨ev, -, hpasses, hmode⟩ := hcovered _ hmem
    obtain ⟨m, hm⟩ := AttestPlan.mode_of_passes hpasses
    rw [hm, Except.ok.injEq, Json.str.injEq] at hmode
    have hlength := congrArg String.length hmode
    rw [String.length_singleton] at hlength
    cases m <;> cases hlength

/-- A task that was claimed by a worker of the principal that posted it, and is completed, names
an independent witness in its requirement; under threshold `all` the attestation that completed
it contained a witness that passed. -/
theorem self_dealing_witnessed (env : Env) (workers : List WcpWorker)
    (calls before after : List Call)
    (taskId workerId eta acceptance bid answer : Json)
    (hsplit : calls = before ++ .claim taskId workerId eta acceptance bid :: after)
    (haccepted : (claim env taskId workerId eta acceptance bid (reach env workers before)).1 =
      .ok answer)
    (claimed : WcpTask) (worker : WcpWorker)
    (htask : (reach env workers before).db.getTask env taskId = .ok (some claimed))
    (hworker : (reach env workers before).db.getWorker env workerId = .ok (some worker))
    (hself : claimed.postedBy = worker.principalId)
    (t : WcpTask) (ht : t ∈ (reach env workers calls).db.tasks) (hid : t.taskId = claimed.taskId)
    (hdone : t.state = .completed) :
    ∃ earlier claimId attestations later plan,
      calls = earlier ++ .attest claimId attestations :: later ∧
      attestPlan env (reach env workers earlier).db claimId attestations = .ok plan ∧
      plan.task.taskId = t.taskId ∧
      t ∈ (reach env workers (earlier ++ [.attest claimId attestations])).db.tasks ∧
      NamesWitness plan.requirement ∧
      (plan.requirement.get "threshold" = (.ok (.str "all") : Except Err Json) →
        ∃ ev ∈ plan.items, plan.passes env claimId ev = true ∧
          ev.get "mode" = (.ok (.str "third-party-witness") : Except Err Json)) := by
  obtain ⟨earlier, claimId, attestations, later, plan, aggregate, hcalls, hplan, hagg, hpass,
    hplanId,
    hmem, hreq, -⟩ := reach_completed_by workers calls ht hdone
  obtain ⟨task, row, hadmitted⟩ := claim_admitted haccepted
  obtain ⟨rfl, rfl⟩ := hadmitted.rows htask hworker
  -- the descriptor that the claim looked at is the one the task still has
  have hjson : t.taskJson = claimed.taskJson := by
    have hkeeps : (reach env workers before).db.Keeps (reach env workers calls).db := by
      have hcalls' : reach env workers calls = run (step env) (reach env workers before)
          (.claim taskId workerId eta acceptance bid :: after) := by
        rw [hsplit]
        exact run_append (step env) (initial workers) before _
      rw [hcalls']
      exact run_keeps env (reach_wellFormed env workers before) _
    obtain ⟨t', ht', hid', hsame⟩ :=
      hkeeps.tasks claimed (claimLoadTask_eq_ok hadmitted.task).2.1
    have heq := (reach_wellFormed env workers calls).task_eq ht' ht (hid'.trans hid.symm)
    rw [← heq, hsame]
  have hnames : NamesWitness plan.requirement := hadmitted.namesWitness hself (hjson ▸ hreq)
  exact ⟨earlier, claimId, attestations, later, plan, hcalls, hplan, hplanId, hmem, hnames,
    AttestPlan.witness_passes hagg hpass hnames⟩

/-! ### Two tasks of the worker's own principal -/

/-- Post a task in the name of the worker's principal, claim it and start executing. -/
def selfDealing (requirement : List (String × Json)) : List Call := [
  .post (.obj [
    ("task_id", .str "t1"),
    ("posted_by", .str zeroDid),
    ("attestation_requirement", .obj requirement)]) localDate .null,
  .claim (.str "t1") (.str zeroDid) localDate (localAcceptance zeroSig) .null,
  .executeOpen localClaimId]

/-- A witness and a sensor, of which each has to pass or any is enough. -/
def witnessed (threshold : String) : List (String × Json) := [
  ("modes", .arr [.str "third-party-witness", .str "sensor-witness"]),
  ("threshold", .str threshold)]

/-- The worker of the local run deals with itself: what its claim reads and answers. -/
structure SelfDealt (requirement : List (String × Json)) (claimed : WcpTask) (worker : WcpWorker)
    (answer : Json) : Prop where
  task : (reach localEnv [zeroWorker] ((selfDealing requirement).take 1)).db.getTask localEnv
    (.str "t1") = .ok (some claimed)
  row : (reach localEnv [zeroWorker] ((selfDealing requirement).take 1)).db.getWorker localEnv
    (.str zeroDid) = .ok (some worker)
  accepted : (claim localEnv (.str "t1") (.str zeroDid) localDate (localAcceptance zeroSig) .null
    (reach localEnv [zeroWorker] ((selfDealing requirement).take 1))).1 = .ok answer
  self : claimed.postedBy = worker.principalId
  taskId : claimed.taskId = "t1"

theorem exists_selfDealt {requirement : List (String × Json)}
    (h : (match (reach localEnv [zeroWorker] ((selfDealing requirement).take 1)).db.getTask localEnv
          (.str "t1"),
        (reach localEnv [zeroWorker] ((selfDealing requirement).take 1)).db.getWorker localEnv
          (.str zeroDid),
        (claim localEnv (.str "t1") (.str zeroDid) localDate (localAcceptance zeroSig) .null
          (reach localEnv [zeroWorker] ((selfDealing requirement).take 1))).1 with
      | .ok (some t), .ok (some w), .ok _ => decide (t.postedBy = w.principalId ∧ t.taskId = "t1")
      | _, _, _ => false) = true) :
    ∃ claimed worker answer, SelfDealt requirement claimed worker answer := by
  split at h
  · next t w answer ht hw hanswer =>
      obtain ⟨hself, hid⟩ := of_decide_eq_true h
      exact ⟨t, w, answer, ht, hw, hanswer, hself, hid⟩
  · cases h

theorem self_dealing_witnessed_all :
    ∃ t ∈ (reach localEnv [zeroWorker] (selfDealing (witnessed "all") ++
        [.attest localClaimId (.arr [coverageEvidence, beaconEvidence])])).db.tasks,
      t.state = .completed ∧
      ∃ earlier claimId attestations later plan,
        selfDealing (witnessed "all") ++
            [.attest localClaimId (.arr [coverageEvidence, beaconEvidence])] =
          earlier ++ .attest claimId attestations :: later ∧
        attestPlan localEnv (reach localEnv [zeroWorker] earlier).db claimId attestations =
          .ok plan ∧
        plan.task.taskId = t.taskId ∧ NamesWitness plan.requirement := by
  obtain ⟨claimed, worker, answer, hdealt⟩ :=
    @exists_selfDealt (witnessed "all") (by decide +kernel)
  have hdone : ((reach localEnv [zeroWorker] (selfDealing (witnessed "all") ++
      [.attest localClaimId (.arr [coverageEvidence, beaconEvidence])])).db.tasks.map fun t =>
        (t.taskId, t.state)) = [("t1", .completed)] := by decide +kernel
  obtain ⟨t, ht, heq⟩ := List.map_eq_singleton_iff.1 hdone
  obtain ⟨hid, hstate⟩ := Prod.mk.inj heq
  have hmem : t ∈ (reach localEnv [zeroWorker] (selfDealing (witnessed "all") ++
      [.attest localClaimId (.arr [coverageEvidence, beaconEvidence])])).db.tasks := by
    rw [ht]
    exact List.mem_singleton_self t
  refine ⟨t, hmem, hstate, ?_⟩
  have hrule := self_dealing_witnessed localEnv [zeroWorker] (selfDealing (witnessed "all") ++
      [.attest localClaimId (.arr [coverageEvidence, beaconEvidence])])
    ((selfDealing (witnessed "all")).take 1)
    [.executeOpen localClaimId, .attest localClaimId (.arr [coverageEvidence, beaconEvidence])]
    (.str "t1") (.str zeroDid) localDate (localAcceptance zeroSig) .null answer rfl hdealt.accepted
    claimed worker hdealt.task hdealt.row hdealt.self
  obtain ⟨earlier, claimId, attestations, later, plan, hcalls, hplan, hplanId, -, hnames, -⟩ :=
    hrule t hmem (hid.trans hdealt.taskId.symm) hstate
  exact ⟨earlier, claimId, attestations, later, plan, hcalls, hplan, hplanId, hnames⟩

/-- Where any item is enough, sensor evidence alone completes the worker's own task. -/
theorem self_dealing_unwitnessed :
    ∃ claimed worker answer plan, SelfDealt (witnessed "any") claimed worker answer ∧
      (∃ t ∈ (reach localEnv [zeroWorker] (selfDealing (witnessed "any") ++
          [.attest localClaimId (.arr [coverageEvidence])])).db.tasks,
        t.taskId = claimed.taskId ∧ t.state = .completed) ∧
      attestPlan localEnv (reach localEnv [zeroWorker] (selfDealing (witnessed "any"))).db
        localClaimId (.arr [coverageEvidence]) = .ok plan ∧
      ∀ ev ∈ plan.items,
        ev.get "mode" ≠ (.ok (.str "third-party-witness") : Except Err Json) := by
  obtain ⟨claimed, worker, answer, hdealt⟩ :=
    @exists_selfDealt (witnessed "any") (by decide +kernel)
  have hdone : ((reach localEnv [zeroWorker] (selfDealing (witnessed "any") ++
      [.attest localClaimId (.arr [coverageEvidence])])).db.tasks.map fun t =>
        (t.taskId, t.state)) = [("t1", .completed)] := by decide +kernel
  obtain ⟨t, ht, heq⟩ := List.map_eq_singleton_iff.1 hdone
  obtain ⟨hid, hstate⟩ := Prod.mk.inj heq
  have hplan : (attestPlan localEnv (reach localEnv [zeroWorker] (selfDealing (witnessed "any"))).db
      localClaimId (.arr [coverageEvidence])).toOption.isSome = true := by decide +kernel
  cases hread : attestPlan localEnv (reach localEnv [zeroWorker] (selfDealing (witnessed "any"))).db
      localClaimId (.arr [coverageEvidence]) with
  | error e =>
      rw [hread] at hplan
      cases hplan
  | ok plan =>
      refine ⟨claimed, worker, answer, plan, hdealt, ⟨t, ?_, hid.trans hdealt.taskId.symm, hstate⟩,
        rfl, ?_⟩
      · rw [ht]
        exact List.mem_singleton_self t
      · have hitems : plan.items = [coverageEvidence] :=
          Except.ok.inj (attestPlan_eq_ok.1 hread).2.2.2.2.2.2.symm
        rw [hitems, List.forall_mem_singleton]
        decide

/-! ## Eligibility -/

/-- The capability query and the class filter that `_count_eligible` derives from a task. -/
def eligibility (task : Json) : Except Err (Json × Json) := do
  let constraints ← task.getD "constraints" (.obj [])
  let constraints := constraints.or (.obj [])
  let filter ← constraints.get "worker_class_filter"
  let allowed ← (filter.or (.obj [])).get "allowed"
  let query ← capabilityQuery task constraints
  return (query, allowed.or (.arr []))

theorem countEligible_eq (db : Db) (task : Json) :
    countEligible env db task = eligibility task >>= fun q =>
      matchingWorkers env db q.1 q.2 >>= fun workers => pure workers.length := by
  unfold countEligible eligibility
  simp only [LawfulMonad.bind_assoc, LawfulMonad.pure_bind]

/-- What a capability query asks of a worker. -/
def wantedOf (query : Json) : Except Err Wanted := do
  let methods ← ((← query.getD "attestation_methods" (.arr [])).or (.arr [])).toSet
  let descriptors ← ((← query.getD "descriptor_types" (.arr [])).or (.arr [])).toSet
  let certifications ← ((← query.getD "certifications" (.arr [])).or (.arr [])).toSet
  let venue ← query.get "location_venue_id"
  return ⟨methods, descriptors, certifications, venue⟩

theorem matchingWorkers_eq (db : Db) (query allowed : Json) :
    matchingWorkers env db query allowed = candidateWorkers env db allowed >>= fun candidates =>
      if query.truthy = false then pure candidates
      else wantedOf query >>= fun wanted => filterWorkers wanted candidates := by
  unfold matchingWorkers wantedOf
  refine congrArg _ (funext fun candidates => ?_)
  split
  · rfl
  · simp only [LawfulMonad.bind_assoc, LawfulMonad.pure_bind]

/-- The worker is found for the task. -/
def Eligible (env : Env) (db : Db) (task : Json) (worker : WcpWorker) : Prop :=
  ∃ query allowed found, eligibility task = .ok (query, allowed) ∧
    matchingWorkers env db query allowed = .ok found ∧ worker ∈ found

/-- The worker's class is among the allowed ones. -/
def OfClass (env : Env) (allowed : Json) (worker : WcpWorker) : Prop :=
  allowed.truthy = true →
    ∃ labels, classLabels env allowed = .ok labels ∧ some worker.workerClass ∈ labels

/-- The `required` block of a worker has every method, type and certification that is wanted, and
the venue. -/
structure HasRequired (wanted : Wanted) (required : Json) : Prop where
  methods : methodsMatch wanted.methods required = .ok true
  descriptors : descriptorsMatch wanted.descriptors required = .ok true
  certifications : certificationsMatch wanted.certifications required = .ok true
  venue : venueMatch wanted.venue required = .ok true

/-- The worker is of an allowed class and has what the task asks for, and no block of another
worker of an allowed class stops the search. -/
structure Suitable (env : Env) (db : Db) (query allowed : Json) (worker : WcpWorker) : Prop where
  ofClass : OfClass env allowed worker
  has : query.truthy = true → ∃ wanted block, wantedOf query = .ok wanted ∧
    (worker.capabilitiesJson.or (.obj [])).get "required" = (.ok block : Except Err Json) ∧
    HasRequired wanted (block.or (.obj [])) ∧
    ∀ other ∈ db.workers, OfClass env allowed other →
      ∃ b, matchesRequired wanted other.capabilitiesJson = .ok b

theorem andThen_eq_ok_true {a b : Except Err Bool} :
    andThen a b = .ok true ↔ a = .ok true ∧ b = .ok true := by
  cases a with
  | error e => simp [andThen]
  | ok x => cases x <;> simp [andThen]

theorem matchesRequired_iff {wanted : Wanted} {capabilities : Json} :
    matchesRequired wanted capabilities = .ok true ↔
      ∃ block, (capabilities.or (.obj [])).get "required" = (.ok block : Except Err Json) ∧
        HasRequired wanted (block.or (.obj [])) := by
  simp only [matchesRequired, bind_eq_ok, andThen_eq_ok_true]
  refine exists_congr fun block => and_congr_right fun _ => ?_
  exact ⟨fun h => ⟨h.1, h.2.1, h.2.2.1, h.2.2.2⟩,
    fun h => ⟨h.methods, h.descriptors, h.certifications, h.venue⟩⟩

/-- The search returns when every test does, and keeps the workers that pass it. -/
theorem filterWorkers_eq_ok {wanted : Wanted} {workers found : List WcpWorker}
    (h : filterWorkers wanted workers = .ok found) :
    (∀ worker ∈ workers, ∃ b, matchesRequired wanted worker.capabilitiesJson = .ok b) ∧
      ∀ worker, worker ∈ found ↔
        worker ∈ workers ∧ matchesRequired wanted worker.capabilitiesJson = .ok true := by
  induction workers generalizing found with
  | nil =>
      cases h
      simp
  | cons worker workers ih =>
      simp only [filterWorkers, bind_eq_ok] at h
      obtain ⟨keep, hkeep, rest, hrest, h⟩ := h
      obtain ⟨htests, hmem⟩ := ih hrest
      refine ⟨List.forall_mem_cons.2 ⟨⟨keep, hkeep⟩, htests⟩, ?_⟩
      intro x
      cases keep with
      | true =>
          cases h
          show x ∈ worker :: rest ↔ _
          rw [List.mem_cons, List.mem_cons, hmem]
          constructor
          · rintro (rfl | hx)
            · exact ⟨.inl rfl, hkeep⟩
            · exact ⟨.inr hx.1, hx.2⟩
          · rintro ⟨rfl | hx, hpass⟩
            · exact .inl rfl
            · exact .inr ⟨hx, hpass⟩
      | false =>
          cases h
          show x ∈ rest ↔ _
          rw [hmem, List.mem_cons]
          constructor
          · rintro ⟨hx, hpass⟩
            exact ⟨.inr hx, hpass⟩
          · rintro ⟨rfl | hx, hpass⟩
            · cases hkeep.symm.trans hpass
            · exact ⟨hx, hpass⟩

theorem exists_filterWorkers {wanted : Wanted} {workers : List WcpWorker}
    (h : ∀ worker ∈ workers, ∃ b, matchesRequired wanted worker.capabilitiesJson = .ok b) :
    ∃ found, filterWorkers wanted workers = .ok found := by
  induction workers with
  | nil => exact ⟨[], rfl⟩
  | cons worker workers ih =>
      obtain ⟨⟨keep, hkeep⟩, htests⟩ := List.forall_mem_cons.1 h
      obtain ⟨rest, hrest⟩ := ih htests
      exact ⟨_, bind_eq_ok.2 ⟨keep, hkeep, bind_eq_ok.2 ⟨rest, hrest, rfl⟩⟩⟩

theorem candidateWorkers_eq_ok {db : Db} {allowed : Json} {candidates : List WcpWorker}
    (h : candidateWorkers env db allowed = .ok candidates) (worker : WcpWorker) :
    worker ∈ candidates ↔ worker ∈ db.workers ∧ OfClass env allowed worker := by
  unfold candidateWorkers at h
  split at h
  · next htruthy =>
      obtain ⟨labels, hlabels, h⟩ := bind_eq_ok.1 h
      cases h
      rw [List.mem_filter]
      refine and_congr_right fun _ => ?_
      rw [List.contains_iff_mem]
      constructor
      · exact fun hmem _ => ⟨labels, hlabels, hmem⟩
      · intro hclass
        obtain ⟨labels', hlabels', hmem⟩ := hclass htruthy
        cases hlabels.symm.trans hlabels'
        exact hmem
  · next hfalsy =>
      cases h
      exact ⟨fun hmem => ⟨hmem, fun htruthy => absurd htruthy hfalsy⟩, fun h => h.1⟩

theorem exists_candidateWorkers {allowed : Json} {worker : WcpWorker}
    (h : OfClass env allowed worker) (db : Db) :
    ∃ candidates, candidateWorkers env db allowed = .ok candidates := by
  unfold candidateWorkers
  split
  · next htruthy =>
      obtain ⟨labels, hlabels, -⟩ := h htruthy
      exact ⟨_, bind_eq_ok.2 ⟨labels, hlabels, rfl⟩⟩
  · exact ⟨_, rfl⟩

theorem mem_matchingWorkers_iff {db : Db} {query allowed : Json} {worker : WcpWorker}
    (hworker : worker ∈ db.workers) :
    (∃ found, matchingWorkers env db query allowed = .ok found ∧ worker ∈ found) ↔
      Suitable env db query allowed worker := by
  rw [matchingWorkers_eq]
  constructor
  · rintro ⟨found, hfound, hmem⟩
    obtain ⟨candidates, hcandidates, hfound⟩ := bind_eq_ok.1 hfound
    have hcandidate := candidateWorkers_eq_ok hcandidates
    split at hfound
    · next hfalsy =>
        cases hfound
        refine ⟨((hcandidate worker).1 hmem).2, fun htruthy => ?_⟩
        cases hfalsy.symm.trans htruthy
    · obtain ⟨wanted, hwanted, hfilter⟩ := bind_eq_ok.1 hfound
      obtain ⟨htests, hfilter⟩ := filterWorkers_eq_ok hfilter
      obtain ⟨hin, hpass⟩ := (hfilter worker).1 hmem
      obtain ⟨block, hblock, hhas⟩ := matchesRequired_iff.1 hpass
      refine ⟨((hcandidate worker).1 hin).2, fun _ => ⟨wanted, block, hwanted, hblock, hhas, ?_⟩⟩
      exact fun other hother hclass => htests other ((hcandidate other).2 ⟨hother, hclass⟩)
  · intro h
    obtain ⟨candidates, hcandidates⟩ := exists_candidateWorkers h.ofClass db
    have hcandidate := candidateWorkers_eq_ok hcandidates
    have hin := (hcandidate worker).2 ⟨hworker, h.ofClass⟩
    cases htruthy : query.truthy with
    | false => exact ⟨candidates, bind_eq_ok.2 ⟨candidates, hcandidates, if_pos rfl⟩, hin⟩
    | true =>
        obtain ⟨wanted, block, hwanted, hblock, hhas, hothers⟩ := h.has htruthy
        obtain ⟨found, hfound⟩ := @exists_filterWorkers wanted candidates fun other hother =>
          hothers other ((hcandidate other).1 hother).1 ((hcandidate other).1 hother).2
        refine ⟨found, bind_eq_ok.2 ⟨candidates, hcandidates, ?_⟩, ?_⟩
        · rw [if_neg (by simp)]
          exact bind_eq_ok.2 ⟨wanted, hwanted, hfound⟩
        · exact ((filterWorkers_eq_ok hfound).2 worker).2
            ⟨hin, matchesRequired_iff.2 ⟨block, hblock, hhas⟩⟩

/-- The worker of a successful claim is one that `matching_workers` finds for the task exactly if
it is suitable: of an allowed class, with the methods, types, certifications and venue that the
task asks for. -/
theorem claim_eligible_iff (env : Env) (workers : List WcpWorker) (calls : List Call)
    (taskId workerId eta acceptance bid answer : Json)
    (h : (claim env taskId workerId eta acceptance bid (reach env workers calls)).1 = .ok answer) :
    ∃ t worker, (reach env workers calls).db.getTask env taskId = .ok (some t) ∧
      (reach env workers calls).db.getWorker env workerId = .ok (some worker) ∧
      (Eligible env (reach env workers calls).db t.taskJson worker ↔
        ∃ query allowed, eligibility t.taskJson = .ok (query, allowed) ∧
          Suitable env (reach env workers calls).db query allowed worker) := by
  obtain ⟨t, worker, hadmitted⟩ := claim_admitted h
  refine ⟨t, worker, claimLoadTask_getTask hadmitted.task,
    (claimLoadWorker_cases hadmitted.worker).1, ?_⟩
  have hmem := (claimLoadWorker_eq_ok hadmitted.worker).2
  unfold Eligible
  constructor
  · rintro ⟨query, allowed, found, hderived, hfound, hin⟩
    exact ⟨query, allowed, hderived, (mem_matchingWorkers_iff hmem).1 ⟨found, hfound, hin⟩⟩
  · rintro ⟨query, allowed, hderived, hsuitable⟩
    obtain ⟨found, hfound, hin⟩ := (mem_matchingWorkers_iff hmem).2 hsuitable
    exact ⟨query, allowed, found, hderived, hfound, hin⟩

/-! ### A robot's task -/

/-- A task for robots, posted by another principal. -/
def robotTask : Call :=
  .post (.obj [
    ("task_id", .str "t1"),
    ("posted_by", .str oneDid),
    ("attestation_requirement", .obj anySensor),
    ("constraints", .obj [
      ("worker_class_filter", .obj [("allowed", .arr [.str "autonomous_robot"])])])])
    localDate .null

def humanClaim : Except Err Json :=
  (claim localEnv (.str "t1") (.str zeroDid) localDate (localAcceptance zeroSig) .null
    (reach localEnv [zeroWorker] [robotTask])).1

theorem exists_humanClaim : ∃ answer, humanClaim = .ok answer := by
  have hok : humanClaim.toOption.isSome = true := by decide +kernel
  cases h : humanClaim with
  | error e =>
      rw [h] at hok
      cases hok
  | ok answer => exact ⟨answer, rfl⟩

theorem claim_eligible_iff_human :
    ∃ t worker, (reach localEnv [zeroWorker] [robotTask]).db.getTask localEnv (.str "t1") =
        .ok (some t) ∧
      (reach localEnv [zeroWorker] [robotTask]).db.getWorker localEnv (.str zeroDid) =
        .ok (some worker) ∧
      (Eligible localEnv (reach localEnv [zeroWorker] [robotTask]).db t.taskJson worker ↔
        ∃ query allowed, eligibility t.taskJson = .ok (query, allowed) ∧
          Suitable localEnv (reach localEnv [zeroWorker] [robotTask]).db query allowed worker) := by
  obtain ⟨answer, hanswer⟩ := exists_humanClaim
  exact claim_eligible_iff localEnv [zeroWorker] [robotTask] (.str "t1") (.str zeroDid) localDate
    (localAcceptance zeroSig) .null answer hanswer

/-- The human worker wins the robot's task. -/
theorem human_claims_robot_task :
    ∃ answer t worker, humanClaim = .ok answer ∧
      (reach localEnv [zeroWorker] [robotTask]).db.getTask localEnv (.str "t1") = .ok (some t) ∧
      (reach localEnv [zeroWorker] [robotTask]).db.getWorker localEnv (.str zeroDid) =
        .ok (some worker) ∧
      ¬Eligible localEnv (reach localEnv [zeroWorker] [robotTask]).db t.taskJson worker := by
  obtain ⟨answer, hanswer⟩ := exists_humanClaim
  obtain ⟨t, worker, hadmitted⟩ := claim_admitted hanswer
  have htask := claimLoadTask_getTask hadmitted.task
  refine ⟨answer, t, worker, hanswer, htask, (claimLoadWorker_cases hadmitted.worker).1, ?_⟩
  rintro ⟨query, allowed, found, hderived, hfound, hmem⟩
  have hnone : (((reach localEnv [zeroWorker] [robotTask]).db.getTask localEnv
      (.str "t1")).toOption.any fun row => row.any fun t =>
        (eligibility t.taskJson).toOption.any fun asked =>
          (matchingWorkers localEnv (reach localEnv [zeroWorker] [robotTask]).db asked.1
            asked.2).toOption.any List.isEmpty) = true := by decide +kernel
  simp only [htask, hderived, hfound, Except.toOption, Option.any_some, List.isEmpty_iff] at hnone
  rw [hnone] at hmem
  cases hmem

end Wcp.Coordinator
