import Wcp.Coordinator.LocalEnvironment
import Wcp.Coordinator.Operations
/-!
# What a row keeps

A task keeps the descriptor it was posted with and a claim its task and its
worker, whatever is called later (`run_keeps`).  So the decision on a submission
is a function of the descriptor, the claim id, the worker and the evidence
(`attest_decision_congr`): no earlier attempt, no counter, no state and no
capability flows into it.
-/

namespace Wcp.Coordinator

open Wcp.Base
open Wcp.Base.Exec

variable {env : Env} {call : Call} {db db' : Db}

/-! ## Rows -/

/-- Every task is still there with its descriptor, every claim with its task and its worker. -/
structure Db.Keeps (db db' : Db) : Prop where
  tasks : ∀ t ∈ db.tasks, ∃ t' ∈ db'.tasks, t'.taskId = t.taskId ∧ t'.taskJson = t.taskJson
  claims : ∀ c ∈ db.claims, ∃ c' ∈ db'.claims, c'.claimId = c.claimId ∧ c'.taskId = c.taskId ∧
    c'.workerId = c.workerId

theorem Db.Keeps.refl (db : Db) : db.Keeps db :=
  ⟨fun t ht => ⟨t, ht, rfl, rfl⟩, fun c hc => ⟨c, hc, rfl, rfl, rfl⟩⟩

theorem Db.Keeps.trans {a b c : Db} (h : a.Keeps b) (h' : b.Keeps c) : a.Keeps c := by
  constructor
  · intro t ht
    obtain ⟨t', ht', hid, hjson⟩ := h.tasks t ht
    obtain ⟨t'', ht'', hid', hjson'⟩ := h'.tasks t' ht'
    exact ⟨t'', ht'', hid'.trans hid, hjson'.trans hjson⟩
  · intro x hx
    obtain ⟨x', hx', hid, htask, hworker⟩ := h.claims x hx
    obtain ⟨x'', hx'', hid', htask', hworker'⟩ := h'.claims x' hx'
    exact ⟨x'', hx'', hid'.trans hid, htask'.trans htask, hworker'.trans hworker⟩

theorem keeps_progressed {id : String} {p : Progress} (h : db'.tasks = db.progressed id p) :
    ∀ t ∈ db.tasks, ∃ t' ∈ db'.tasks, t'.taskId = t.taskId ∧ t'.taskJson = t.taskJson := by
  intro t ht
  rw [h]
  by_cases hid : t.taskId = id
  · exact ⟨t.withProgress p, mem_progressed.2 (.inl ⟨t, ht, hid, rfl⟩), rfl, rfl⟩
  · exact ⟨t, mem_progressed.2 (.inr ⟨ht, hid⟩), rfl, rfl⟩

theorem keeps_tasks (ts : List WcpTask) (h : db'.tasks = db.tasks ++ ts) :
    ∀ t ∈ db.tasks, ∃ t' ∈ db'.tasks, t'.taskId = t.taskId ∧ t'.taskJson = t.taskJson :=
  fun t ht => ⟨t, h ▸ List.mem_append_left _ ht, rfl, rfl⟩

theorem keeps_claims (cs : List WcpClaim) (h : db'.claims = db.claims ++ cs) :
    ∀ c ∈ db.claims, ∃ c' ∈ db'.claims, c'.claimId = c.claimId ∧ c'.taskId = c.taskId ∧
      c'.workerId = c.workerId :=
  fun c hc => ⟨c, h ▸ List.mem_append_left _ hc, rfl, rfl, rfl⟩

theorem keeps_beat {id : String} {beat : Option DateTime → Option DateTime}
    (h : db'.claims = (db.updateClaim id fun r =>
      { r with lastHeartbeatAt := beat r.lastHeartbeatAt }).claims) :
    ∀ c ∈ db.claims, ∃ c' ∈ db'.claims, c'.claimId = c.claimId ∧ c'.taskId = c.taskId ∧
      c'.workerId = c.workerId := by
  intro c hc
  rw [h]
  refine ⟨_, List.mem_map_of_mem hc, ?_⟩
  split <;> exact ⟨rfl, rfl, rfl⟩

theorem Change.keeps (h : Change env call db db') : db.Keeps db' := by
  cases h with
  | quiet htasks hclaims haudit =>
      exact ⟨keeps_tasks [] (by simpa using htasks),
        keeps_claims [] (by simpa using hclaims)⟩
  | posted row entry hchecked hprogress hfresh hentry htasks hclaims haudit hauthor =>
      exact ⟨keeps_tasks _ htasks, keeps_claims [] (by simpa using hclaims)⟩
  | claimed t c entry ht hposted hfresh hsame haccepted hid hbinds htype hentry htasks hclaims
      haudit hauthor =>
      exact ⟨keeps_progressed htasks, keeps_claims _ hclaims⟩
  | moved c t p entry hholds hmove hreplay hpayload hentry hcall htasks hclaims haudit hauthor =>
      exact ⟨keeps_progressed htasks, keeps_claims [] (by simpa using hclaims)⟩
  | event c t beat entry eventType hcall htype hholds hstate hentry htasks hclaims haudit hauthor =>
      exact ⟨keeps_tasks [] (by simpa using htasks), keeps_beat hclaims⟩
  | unrecorded c t p name hholds hmove hname hcall htasks hclaims haudit =>
      exact ⟨keeps_progressed htasks, keeps_claims [] (by simpa using hclaims)⟩
  | unheard c t beat hcall hholds hstate htasks hclaims haudit =>
      exact ⟨keeps_tasks [] (by simpa using htasks), keeps_beat hclaims⟩

theorem run_keeps (env : Env) {w : World} (hwf : w.db.WellFormed) (later : List Call) :
    w.db.Keeps (run (step env) w later).db :=
  (@run_changes_invariant env (fun db => w.db.Keeps db) (fun _ => True)
    (fun _ _ _ _ _ hchange hinv => hinv.trans hchange.keeps)
    w later hwf (Db.Keeps.refl _) fun _ _ => trivial).2

theorem reach_wellFormed (env : Env) (workers : List WcpWorker) (calls : List Call) :
    (reach env workers calls).db.WellFormed :=
  (@run_changes_invariant env (fun _ => True) (fun _ => True) (fun _ _ _ _ _ _ _ => trivial)
    (initial workers) calls (initial_wellFormed workers) trivial fun _ _ => trivial).1

/-- A claim id that stands for a worker's claim on a task with a given descriptor. -/
def Db.Binds (env : Env) (db : Db) (claimId : Json) (worker : String) (descriptor : Json) : Prop :=
  ∃ c t, claimAndTask env db claimId = .ok (c, t) ∧ c.workerId = worker ∧ t.taskJson = descriptor

theorem Db.Keeps.binds_eq {claimId : Json} {worker worker' : String} {descriptor descriptor' : Json}
    (hkeeps : db.Keeps db') (hwf' : db'.WellFormed) (h : db.Binds env claimId worker descriptor)
    (h' : db'.Binds env claimId worker' descriptor') :
    worker = worker' ∧ descriptor = descriptor' := by
  obtain ⟨c, t, hct, rfl, rfl⟩ := h
  obtain ⟨c', t', hct', rfl, rfl⟩ := h'
  obtain ⟨hholds, hkey⟩ := claimAndTask_key hct
  obtain ⟨hholds', hkey'⟩ := claimAndTask_key hct'
  obtain ⟨x, hx, hid, htask, hworker⟩ := hkeeps.claims c hholds.claim
  have hsameId : c.claimId = c'.claimId := by
    rw [hkey] at hkey'
    exact Option.some.inj (Except.ok.inj hkey')
  obtain rfl := hwf'.claim_eq hx hholds'.claim (hid.trans hsameId)
  obtain ⟨y, hy, hyid, hjson⟩ := hkeeps.tasks t hholds.task
  have hsameTask : y.taskId = t'.taskId := by
    rw [hyid, ← hholds.same, ← htask, hholds'.same]
  obtain rfl := hwf'.task_eq hy hholds'.task hsameTask
  exact ⟨hworker.symm, hjson.symm⟩

/-! ## Decisions -/

/-- Two coordinators that judge alike: the same signature scheme, the same interpreter and the
same registry.  Clocks, ids and databases may differ. -/
structure Env.JudgesAs (env env' : Env) : Prop where
  crypto : env.toCrypto = env'.toCrypto
  interpreter : env.toInterpreter = env'.toInterpreter
  registry : env.registry = env'.registry

section Congruence

variable {env' : Env}

theorem Env.JudgesAs.eq (h : env.JudgesAs env') : env' = { env' with
    toCrypto := env.toCrypto, toInterpreter := env.toInterpreter, registry := env.registry } := by
  rw [h.crypto, h.interpreter, h.registry]

theorem Env.JudgesAs.resolve (h : env.JudgesAs env') :
    Coordinator.resolve env = Coordinator.resolve env' := by
  rw [h.eq]
  rfl

theorem Env.JudgesAs.judgeEvidence (h : env.JudgesAs env') :
    Coordinator.judgeEvidence env = Coordinator.judgeEvidence env' := by
  rw [h.eq]
  rfl

theorem Env.JudgesAs.evaluateThreshold (h : env.JudgesAs env') :
    Coordinator.evaluateThreshold env = Coordinator.evaluateThreshold env' := by
  rw [h.eq]
  rfl

/-- The decision is drawn from the worker, the descriptor, the claim id and the evidence. -/
theorem aggregate_congr (h : env.JudgesAs env') {claimId E : Json} {plan plan' : AttestPlan}
    (hplan : attestPlan env db claimId E = .ok plan)
    (hplan' : attestPlan env' db' claimId E = .ok plan')
    (hworker : plan.claim.workerId = plan'.claim.workerId)
    (hjson : plan.task.taskJson = plan'.task.taskJson) :
    plan.aggregate env claimId = plan'.aggregate env' claimId := by
  obtain ⟨-, -, hreq, hpayload, -, hresolved, hitems⟩ := attestPlan_eq_ok.1 hplan
  obtain ⟨-, -, hreq', hpayload', -, hresolved', hitems'⟩ := attestPlan_eq_ok.1 hplan'
  have hrequirement : plan.requirement = plan'.requirement := by
    rw [hjson, hreq'] at hreq
    exact (Except.ok.inj hreq).symm
  have htaskPayload : plan.taskPayload = plan'.taskPayload := by
    rw [hjson, hpayload'] at hpayload
    exact (Except.ok.inj hpayload).symm
  have hresolution : plan.resolved = plan'.resolved := by
    rw [h.resolve, hworker, hresolved'] at hresolved
    exact (Except.ok.inj hresolved).symm
  have hlist : plan.items = plan'.items := by
    rw [hitems'] at hitems
    exact (Except.ok.inj hitems).symm
  have hjudge : plan.judge env claimId = plan'.judge env' claimId := by
    funext ev
    rw [AttestPlan.judge, AttestPlan.judge, h.judgeEvidence, hworker, hresolution, htaskPayload]
  rw [AttestPlan.aggregate, AttestPlan.aggregate, AttestPlan.verdicts, AttestPlan.verdicts, hjudge,
    hlist, h.evaluateThreshold, hrequirement]

end Congruence

/-- The part of an answer that carries the decision. -/
def AttestResult.verdict (r : AttestResult) :
    VerifierDecision × List String × List (String × Json) :=
  (r.verifierDecision, r.reasons, r.residual)

theorem attest_verdict {w : World} {claimId E : Json} {r : AttestResult}
    (h : (attest env claimId E w).1 = .ok r) :
    ∃ plan aggregate, attestPlan env w.db claimId E = .ok plan ∧
      plan.aggregate env claimId = .ok aggregate ∧
      r.verdict = (aggregate.decision, aggregate.reasons, aggregate.residual) := by
  obtain ⟨-, plan, aggregate, hplan, hagg, -, -, rfl⟩ := attest_eq_ok.1 h
  exact ⟨plan, aggregate, hplan, hagg, rfl⟩

/-- Two accepted submissions of the same evidence, in states where the claim stands for the same
worker and the same descriptor, get the same verdict. -/
theorem verdict_eq_of_binds {env' : Env} (hjudges : env.JudgesAs env') {w w' : World}
    {claimId E descriptor : Json} {worker : String} {r r' : AttestResult}
    (hbinds : ∀ u d, w.db.Binds env claimId u d → worker = u ∧ descriptor = d)
    (hbinds' : ∀ u d, w'.db.Binds env' claimId u d → worker = u ∧ descriptor = d)
    (h : (attest env claimId E w).1 = .ok r) (h' : (attest env' claimId E w').1 = .ok r') :
    r.verdict = r'.verdict := by
  obtain ⟨plan, aggregate, hplan, hagg, hr⟩ := attest_verdict h
  obtain ⟨plan', aggregate', hplan', hagg', hr'⟩ := attest_verdict h'
  obtain ⟨hworker, hjson⟩ := hbinds _ _ ⟨_, _, (attestPlan_eq_ok.1 hplan).1, rfl, rfl⟩
  obtain ⟨hworker', hjson'⟩ := hbinds' _ _ ⟨_, _, (attestPlan_eq_ok.1 hplan').1, rfl, rfl⟩
  have hsame := aggregate_congr hjudges hplan hplan' (hworker.symm.trans hworker')
    (hjson.symm.trans hjson')
  rw [hagg, hagg'] at hsame
  cases hsame
  rw [hr, hr']

/-- What a claim stands for at a point of a run it stands for at every later one. -/
theorem reach_binds {env : Env} {workers : List WcpWorker} {calls : List Call} {claimId : Json}
    {worker : String} {descriptor : Json}
    (h : (reach env workers calls).db.Binds env claimId worker descriptor) (later : List Call) :
    ∀ u d, (reach env workers (calls ++ later)).db.Binds env claimId u d →
      worker = u ∧ descriptor = d := by
  intro u d hlast
  have hwf := reach_wellFormed env workers calls
  have hkeeps : (reach env workers calls).db.Keeps (reach env workers (calls ++ later)).db := by
    unfold reach
    rw [run_append]
    exact run_keeps env hwf later
  exact hkeeps.binds_eq (reach_wellFormed env workers (calls ++ later)) h hlast

/-- No aggregation across attempts: accepted submissions of the same evidence for a claim get the
same decision, reasons and residual, at two points of one run, and in two runs of coordinators
that judge alike after any points at which the claim stands for the same worker and the same
descriptor. -/
theorem attest_decision_congr {env : Env} (workers : List WcpWorker) (calls later : List Call)
    (claimId E : Json) (r : AttestResult)
    (h : (attest env claimId E (reach env workers (calls ++ later))).1 = .ok r) :
    (∀ more r', (attest env claimId E (reach env workers (calls ++ later ++ more))).1 = .ok r' →
      r.verdict = r'.verdict) ∧
    ∀ (env' : Env) workers' calls' later' worker descriptor r', env.JudgesAs env' →
      (reach env workers calls).db.Binds env claimId worker descriptor →
      (reach env' workers' calls').db.Binds env' claimId worker descriptor →
      (attest env' claimId E (reach env' workers' (calls' ++ later'))).1 = .ok r' →
      r.verdict = r'.verdict := by
  constructor
  · intro more r' h'
    obtain ⟨plan, -, hplan, -, -⟩ := attest_verdict h
    have hbinds : (reach env workers (calls ++ later)).db.Binds env claimId plan.claim.workerId
        plan.task.taskJson := ⟨_, _, (attestPlan_eq_ok.1 hplan).1, rfl, rfl⟩
    have hnow := reach_binds hbinds []
    rw [List.append_nil] at hnow
    exact verdict_eq_of_binds ⟨rfl, rfl, rfl⟩ hnow (reach_binds hbinds more) h h'
  · intro env' workers' calls' later' worker descriptor r' hjudges hbinds hbinds' h'
    exact verdict_eq_of_binds hjudges (reach_binds hbinds later) (reach_binds hbinds' later') h h'

/-- The same evidence while executing and after a handover. -/
theorem attest_decision_congr_supervised :
    ∃ r r', (attest localEnv localClaimId (.arr [coverageEvidence])
        (reach localEnv [zeroWorker] (localStart anySensor))).1 = .ok r ∧
      (attest localEnv localClaimId (.arr [coverageEvidence]) (reach localEnv [zeroWorker]
        (localStart anySensor ++ [.supervise localClaimId (.str "lunch") (.str "low")]))).1 =
          .ok r' ∧
      r.verdict = r'.verdict := by
  have h : (attest localEnv localClaimId (.arr [coverageEvidence])
      (reach localEnv [zeroWorker] (localStart anySensor ++ []))).1 =
        .ok ⟨.pass, [], [], 1, 0⟩ := by decide +kernel
  have h' : (attest localEnv localClaimId (.arr [coverageEvidence]) (reach localEnv [zeroWorker]
      (localStart anySensor ++ [.supervise localClaimId (.str "lunch") (.str "low")]))).1 =
        .ok ⟨.pass, [], [], 1, 0⟩ := by decide +kernel
  obtain ⟨plan, -, hplan, -, -⟩ := attest_verdict h
  have hbinds : (reach localEnv [zeroWorker] (localStart anySensor)).db.Binds localEnv localClaimId
      plan.claim.workerId plan.task.taskJson := ⟨_, _, (attestPlan_eq_ok.1 hplan).1, rfl, rfl⟩
  exact ⟨_, _, h, h', (attest_decision_congr [zeroWorker] (localStart anySensor) [] localClaimId
    (.arr [coverageEvidence]) _ h).2 localEnv [zeroWorker] (localStart anySensor) _ _ _ _
    ⟨rfl, rfl, rfl⟩ hbinds hbinds h'⟩

end Wcp.Coordinator
