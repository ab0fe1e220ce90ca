import Mathlib.Logic.Function.Basic
import Wcp.Coordinator.Lifecycle
/-!
# Claims in concurrent transactions

The statements of `claim` fall into four stretches, each of which reads the
committed database once; the last one writes, and its writes appear at commit.
`advance` takes a transaction through one stretch, and a schedule lets any number
of transactions take turns (`raceStep`).  Nothing is locked between the query for
an accepted claim and the commit, so the first claim wins exactly as long as no
other transaction on the task comes between the two.
-/

namespace Wcp.Coordinator

open Wcp.Base
open Wcp.Base.Exec

variable (env : Env)

/-! ## The stretches of a claim -/

/-- The arguments of `claim`. -/
structure ClaimRequest where
  taskId : Json
  workerId : Json
  eta : Json
  acceptanceAttestation : Json
  bid : Json

namespace ClaimRequest

variable (req : ClaimRequest)

/-- Read the task and check its state and its expiry. -/
def load : Action WcpTask := do
  let task ← readDb fun db => claimLoadTask env db req.taskId
  let now ← utcnow env
  Exec.lift (claimCheckExpiry env req.taskId task now)
  return task

/-- Read the worker and verify the acceptance. -/
def vet (task : WcpTask) : Action (WcpWorker × ResolvedDID) := do
  let worker ← readDb fun db => claimLoadWorker env db task req.workerId
  let resolved ← Exec.lift
    (claimVerifyAcceptance env req.taskId req.workerId req.eta req.acceptanceAttestation req.bid)
  return (worker, resolved)

/-- Query for an accepted claim on the task. -/
def check : Action Unit := readDb fun db => claimCheckExisting env db req.taskId

/-- Write the claim, the state and the audit entry. -/
def publish (task : WcpTask) (worker : WcpWorker) (resolved : ResolvedDID) : Action Json := do
  let etaTime ← Exec.lift (parseIso env req.eta)
  let heartbeat ← utcnow env
  let claimId ← uuid4 env
  claimWrite env task worker etaTime req.acceptanceAttestation req.bid heartbeat claimId
  let _ ← append env (.str "task_claimed") resolved.did
    (.obj [("task_id", req.taskId), ("claim_id", .str claimId), ("bid", req.bid)])
    (.str claimId) req.taskId none
  return .obj [
    ("claim_id", .str claimId),
    ("accepted", .bool true),
    ("counter", .null),
    ("reason", .null)]

end ClaimRequest

/-- How far a transaction has come. -/
inductive ClaimPhase where
  | started
  | loaded (task : WcpTask)
  | admitted (task : WcpTask) (worker : WcpWorker) (resolved : ResolvedDID)
  | checked (task : WcpTask) (worker : WcpWorker) (resolved : ResolvedDID)
  | returned (task : WcpTask) (reply : Json)
  | raised (e : Err)

/-- Go on after a stretch that only reads. -/
def ClaimPhase.after {α : Type} (next : α → ClaimPhase) (outcome : Except Err α × World) :
    ClaimPhase × World :=
  match outcome with
  | (.ok a, w') => (next a, w')
  | (.error e, w') => (.raised e, w')

/-- Take a transaction through its next stretch, on the committed database. -/
def advance (req : ClaimRequest) (w : World) : ClaimPhase → ClaimPhase × World
  | .started => ClaimPhase.after .loaded (req.load env w)
  | .loaded task => ClaimPhase.after (fun p => .admitted task p.1 p.2) (req.vet env task w)
  | .admitted task worker resolved =>
      ClaimPhase.after (fun _ => .checked task worker resolved) (req.check env w)
  | .checked task worker resolved =>
      let outcome := req.publish env task worker resolved w
      ((ClaimPhase.after (.returned task) outcome).1, w.settle outcome)
  | phase => (phase, w)

/-! ## Races -/

/-- The committed state and the transactions under way. -/
structure Race where
  committed : World
  phase : Nat → ClaimPhase

variable (requests : Nat → ClaimRequest)

/-- A transaction takes its turn. -/
def raceStep (s : Race) (i : Nat) : Race :=
  let turn := advance env (requests i) s.committed (s.phase i)
  ⟨turn.2, Function.update s.phase i turn.1⟩

/-- The state after a schedule, from a committed state where no transaction has begun. -/
def race (w : World) (schedule : List Nat) : Race :=
  run (raceStep env requests) ⟨w, fun _ => .started⟩ schedule

def Db.acceptedOn (db : Db) (taskId : String) : List WcpClaim :=
  db.claims.filter fun c => c.taskId = taskId && c.accepted

variable {env requests}

/-! ## What a stretch does -/

section Stretches

variable {req : ClaimRequest} {w : World} {task : WcpTask} {worker : WcpWorker}
  {resolved : ResolvedDID}

/-- Nothing but the clock has moved. -/
def SameData (w w' : World) : Prop := w'.db = w.db ∧ w'.doomed = w.doomed

theorem load_ends : Ends (req.load env) w fun r w' => SameData w w' ∧
    ∀ task, r = .ok task → env.lookupKey "task_id" req.taskId = .ok (some task.taskId) := by
  unfold ClaimRequest.load
  refine readDb_bind ?_ fun e _ => ⟨⟨rfl, rfl⟩, nofun⟩
  intro t ht
  refine utcnow_bind (Ends.lift_bind ?_ fun e _ => ⟨⟨rfl, rfl⟩, nofun⟩)
  intro _ _
  refine Ends.pure ⟨⟨rfl, rfl⟩, ?_⟩
  intro t' ht'
  cases ht'
  exact (claimLoadTask_eq_ok ht).1

theorem vet_ends : Ends (req.vet env task) w fun _ w' => SameData w w' := by
  unfold ClaimRequest.vet
  refine readDb_bind ?_ fun e _ => ⟨rfl, rfl⟩
  intro _ _
  refine Ends.lift_bind ?_ fun e _ => ⟨rfl, rfl⟩
  intro _ _
  exact Ends.pure ⟨rfl, rfl⟩

theorem check_ends (hkey : env.lookupKey "task_id" req.taskId = .ok (some task.taskId)) :
    Ends (req.check env) w fun r w' => SameData w w' ∧
      (r = .ok () → w.db.acceptedOn task.taskId = []) := by
  refine ⟨⟨rfl, rfl⟩, ?_⟩
  intro hr
  have hr : claimCheckExisting env w.db req.taskId = .ok () := hr
  simp only [claimCheckExisting, bind_eq_ok, ensure_eq_ok] at hr
  obtain ⟨key, hcompared, hnone⟩ := hr
  rw [comparedText_of_lookupKey hkey hcompared, List.any_eq_false] at hnone
  refine List.filter_eq_nil_iff.2 fun c hc => ?_
  simpa using hnone c hc

/-- A transaction that writes adds one accepted claim on its task; one that raises adds
nothing. -/
theorem publish_ends : Ends (req.publish env task worker resolved) w fun r w' =>
    (∀ reply, r = .ok reply → w'.doomed = false ∧ ∃ c : WcpClaim, c.taskId = task.taskId ∧
      c.accepted = true ∧ w'.db.claims = w.db.claims ++ [c]) ∧
    ∀ e, r = .error e → e = .raised .database ∨ SameData w w' := by
  unfold ClaimRequest.publish
  refine Ends.lift_bind ?_ fun e _ => ⟨nofun, fun _ _ => .inr ⟨rfl, rfl⟩⟩
  intro eta _
  refine utcnow_bind (uuid4_bind (claimWrite_bind ?_ fun _ => ⟨nofun, fun e he => ?_⟩))
  · intro c hid hsame haccepted _ _
    refine append_bind ?_ (fun _ => ⟨nofun, fun e he => ?_⟩) (by simp)
    · intro r entry _ _ _ hdoomed _ _ _ _
      exact Ends.pure ⟨fun _ _ => ⟨hdoomed, c, hsame, haccepted, rfl⟩, nofun⟩
    · exact .inl (Except.error.inj he).symm
  · exact .inl (Except.error.inj he).symm

end Stretches

/-! ## The invariant -/

namespace ClaimPhase

/-- The task that a transaction has loaded. -/
def taskOn : ClaimPhase → Option String
  | .loaded task | .admitted task _ _ | .checked task _ _ | .returned task _ => some task.taskId
  | _ => none

/-- The task of a transaction that has passed the query and has not committed. -/
def checkedOn : ClaimPhase → Option String
  | .checked task _ _ => some task.taskId
  | _ => none

/-- The task of a transaction that has claimed it. -/
def returnedOn : ClaimPhase → Option String
  | .returned task _ => some task.taskId
  | _ => none

/-- What the call of a transaction that has ended returned or raised. -/
def result : ClaimPhase → Option (Except Err Json)
  | .returned _ reply => some (.ok reply)
  | .raised e => some (.error e)
  | _ => none

theorem returnedOn_of_result {phase : ClaimPhase} {reply : Json}
    (h : phase.result = some (.ok reply)) :
    ∃ id, phase.returnedOn = some id ∧ phase.taskOn = some id := by
  cases phase with
  | returned task reply' => exact ⟨task.taskId, rfl, rfl⟩
  | started => cases h
  | loaded task => cases h
  | admitted task worker resolved => cases h
  | checked task worker resolved => cases h
  | raised e => cases h

end ClaimPhase

/-- A transaction that is about to query for an accepted claim is the only one on its task
between the query and the commit. -/
def Exclusive (s : Race) (i : Nat) : Prop :=
  ∀ task worker resolved, s.phase i = .admitted task worker resolved →
    ∀ j, (s.phase j).checkedOn ≠ some task.taskId

/-- At most one accepted claim on every task, and at most one transaction past the query,
which then finds no claim; a transaction that returned has its claim committed. -/
structure Race.Safe (env : Env) (requests : Nat → ClaimRequest) (s : Race) : Prop where
  clean : s.committed.doomed = false
  keyed : ∀ i id, (s.phase i).taskOn = some id →
    env.lookupKey "task_id" (requests i).taskId = .ok (some id)
  single : ∀ id, (s.committed.db.acceptedOn id).length ≤ 1
  alone : ∀ i j id, (s.phase i).checkedOn = some id → (s.phase j).checkedOn = some id → i = j
  free : ∀ i id, (s.phase i).checkedOn = some id → s.committed.db.acceptedOn id = []
  taken : ∀ i id, (s.phase i).returnedOn = some id → s.committed.db.acceptedOn id ≠ []
  once : ∀ i j id, (s.phase i).returnedOn = some id → (s.phase j).returnedOn = some id → i = j

section Safe

variable {s : Race} {w' : World} {i : Nat} {phase : ClaimPhase}

theorem acceptedOn_congr {db db' : Db} (h : db'.claims = db.claims) (id : String) :
    db'.acceptedOn id = db.acceptedOn id := by
  rw [Db.acceptedOn, Db.acceptedOn, h]

/-- A fact about a phase after a turn is one about the new phase or about an old one. -/
theorem update_eq_some {f : ClaimPhase → Option String} {j : Nat} {id : String}
    (h : f (Function.update s.phase i phase j) = some id) :
    (j = i ∧ f phase = some id) ∨ (j ≠ i ∧ f (s.phase j) = some id) := by
  by_cases hj : j = i
  · subst hj
    rw [Function.update_self] at h
    exact .inl ⟨rfl, h⟩
  · rw [Function.update_of_ne hj] at h
    exact .inr ⟨hj, h⟩

/-- What a turn has to establish: the new phase fits, and what is committed fits the others. -/
theorem Race.Safe.turn (h : s.Safe env requests) (hclean : w'.doomed = false)
    (hkeyed : ∀ id, phase.taskOn = some id →
      env.lookupKey "task_id" (requests i).taskId = .ok (some id))
    (hsingle : ∀ id, (w'.db.acceptedOn id).length ≤ 1)
    (hchecked : ∀ id, phase.checkedOn = some id → w'.db.acceptedOn id = [] ∧
      ∀ j, j ≠ i → (s.phase j).checkedOn ≠ some id)
    (hreturned : ∀ id, phase.returnedOn = some id → w'.db.acceptedOn id ≠ [] ∧
      ∀ j, j ≠ i → (s.phase j).returnedOn ≠ some id)
    (hfree : ∀ j id, j ≠ i → (s.phase j).checkedOn = some id → w'.db.acceptedOn id = [])
    (htaken : ∀ j id, j ≠ i → (s.phase j).returnedOn = some id → w'.db.acceptedOn id ≠ []) :
    Race.Safe env requests ⟨w', Function.update s.phase i phase⟩ := by
  refine ⟨hclean, ?_, hsingle, ?_, ?_, ?_, ?_⟩
  · intro j id hj
    rcases update_eq_some hj with ⟨rfl, hnew⟩ | ⟨-, hold⟩
    · exact hkeyed id hnew
    · exact h.keyed j id hold
  · intro j k id hj hk
    rcases update_eq_some hj with ⟨rfl, hj'⟩ | ⟨hne, hj'⟩ <;>
      rcases update_eq_some hk with ⟨rfl, hk'⟩ | ⟨hne', hk'⟩
    · rfl
    · exact absurd hk' ((hchecked id hj').2 k hne')
    · exact absurd hj' ((hchecked id hk').2 j hne)
    · exact h.alone j k id hj' hk'
  · intro j id hj
    rcases update_eq_some hj with ⟨rfl, hnew⟩ | ⟨hne, hold⟩
    · exact (hchecked id hnew).1
    · exact hfree j id hne hold
  · intro j id hj
    rcases update_eq_some hj with ⟨rfl, hnew⟩ | ⟨hne, hold⟩
    · exact (hreturned id hnew).1
    · exact htaken j id hne hold
  · intro j k id hj hk
    rcases update_eq_some hj with ⟨rfl, hj'⟩ | ⟨hne, hj'⟩ <;>
      rcases update_eq_some hk with ⟨rfl, hk'⟩ | ⟨hne', hk'⟩
    · rfl
    · exact absurd hk' ((hreturned id hj').2 k hne')
    · exact absurd hj' ((hreturned id hk').2 j hne)
    · exact h.once j k id hj' hk'

/-- A turn that writes no claim and neither passes the query nor returns. -/
theorem Race.Safe.quiet (h : s.Safe env requests) (hclean : w'.doomed = false)
    (hclaims : w'.db.claims = s.committed.db.claims)
    (hkeyed : ∀ id, phase.taskOn = some id →
      env.lookupKey "task_id" (requests i).taskId = .ok (some id))
    (hchecked : phase.checkedOn = none) (hreturned : phase.returnedOn = none) :
    Race.Safe env requests ⟨w', Function.update s.phase i phase⟩ := by
  refine h.turn hclean hkeyed ?_ ?_ ?_ ?_ ?_
  · exact fun id => by rw [acceptedOn_congr hclaims]; exact h.single id
  · exact fun id hid => by cases hchecked.symm.trans hid
  · exact fun id hid => by cases hreturned.symm.trans hid
  · exact fun j id _ hj => by rw [acceptedOn_congr hclaims]; exact h.free j id hj
  · exact fun j id _ hj => by rw [acceptedOn_congr hclaims]; exact h.taken j id hj

theorem Race.Safe.pass {task : WcpTask} {worker : WcpWorker} {resolved : ResolvedDID}
    (h : s.Safe env requests) (hclean : w'.doomed = false)
    (hclaims : w'.db.claims = s.committed.db.claims)
    (hkeyed : env.lookupKey "task_id" (requests i).taskId = .ok (some task.taskId))
    (hfree : s.committed.db.acceptedOn task.taskId = [])
    (halone : ∀ j, (s.phase j).checkedOn ≠ some task.taskId) :
    Race.Safe env requests ⟨w', Function.update s.phase i (.checked task worker resolved)⟩ := by
  refine h.turn hclean ?_ ?_ ?_ nofun ?_ ?_
  · intro id hid
    cases hid
    exact hkeyed
  · exact fun id => by rw [acceptedOn_congr hclaims]; exact h.single id
  · intro id hid
    cases hid
    exact ⟨by rw [acceptedOn_congr hclaims]; exact hfree, fun j _ => halone j⟩
  · exact fun j id _ hj => by rw [acceptedOn_congr hclaims]; exact h.free j id hj
  · exact fun j id _ hj => by rw [acceptedOn_congr hclaims]; exact h.taken j id hj

theorem acceptedOn_concat {db db' : Db} {c : WcpClaim} (h : db'.claims = db.claims ++ [c])
    (hc : c.accepted = true) (id : String) :
    db'.acceptedOn id = db.acceptedOn id ++ if c.taskId = id then [c] else [] := by
  rw [Db.acceptedOn, h, List.filter_append, Db.acceptedOn]
  by_cases hid : c.taskId = id <;> simp [hid, hc]

/-- A turn that commits the claim of the one transaction past the query. -/
theorem Race.Safe.commit {task : WcpTask} {worker : WcpWorker} {resolved : ResolvedDID}
    {reply : Json} {c : WcpClaim} (h : s.Safe env requests)
    (hphase : s.phase i = .checked task worker resolved) (hclean : w'.doomed = false)
    (hclaims : w'.db.claims = s.committed.db.claims ++ [c]) (hsame : c.taskId = task.taskId)
    (haccepted : c.accepted = true) :
    Race.Safe env requests ⟨w', Function.update s.phase i (.returned task reply)⟩ := by
  have hchecked : (s.phase i).checkedOn = some task.taskId := by rw [hphase]; rfl
  have hnone := h.free i _ hchecked
  have hrows := acceptedOn_concat hclaims haccepted
  refine h.turn hclean ?_ ?_ nofun ?_ ?_ ?_
  · intro id hid
    exact h.keyed i id (by rw [hphase]; exact hid)
  · intro id
    rw [hrows]
    split
    · next hid => rw [← hid, hsame, hnone]; simp
    · rw [List.append_nil]
      exact h.single id
  · intro id hid
    cases hid
    refine ⟨by rw [hrows, if_pos hsame]; simp, fun j _ hj => ?_⟩
    exact h.taken j _ hj hnone
  · intro j id hj hcheck
    rw [hrows, if_neg, List.append_nil]
    · exact h.free j id hcheck
    · rintro rfl
      exact hj (h.alone j i _ hcheck (hsame ▸ hchecked))
  · intro j id _ hj
    rw [hrows]
    exact List.append_ne_nil_of_left_ne_nil (h.taken j id hj) _

end Safe

/-! ## Schedules -/

theorem Race.Safe.reading {s : Race} {i : Nat} {α : Type} {next : α → ClaimPhase}
    {outcome : Except Err α × World} (h : s.Safe env requests)
    (hsame : SameData s.committed outcome.2)
    (hok : ∀ a, outcome.1 = .ok a → outcome.2.doomed = false →
      outcome.2.db.claims = s.committed.db.claims →
      Race.Safe env requests ⟨outcome.2, Function.update s.phase i (next a)⟩) :
    Race.Safe env requests ⟨(ClaimPhase.after next outcome).2,
      Function.update s.phase i (ClaimPhase.after next outcome).1⟩ := by
  have hclean : outcome.2.doomed = false := hsame.2.trans h.clean
  have hclaims : outcome.2.db.claims = s.committed.db.claims := by rw [hsame.1]
  obtain ⟨r, w'⟩ := outcome
  cases r with
  | ok a => exact hok a rfl hclean hclaims
  | error e => exact h.quiet hclean hclaims nofun rfl rfl

theorem Race.Safe.publishing {s : Race} {i : Nat} {task : WcpTask} {worker : WcpWorker}
    {resolved : ResolvedDID} {outcome : Except Err Json × World} (h : s.Safe env requests)
    (hphase : s.phase i = .checked task worker resolved)
    (hok : ∀ reply, outcome.1 = .ok reply → outcome.2.doomed = false ∧ ∃ c : WcpClaim,
      c.taskId = task.taskId ∧ c.accepted = true ∧
      outcome.2.db.claims = s.committed.db.claims ++ [c])
    (herr : ∀ e, outcome.1 = .error e → e = .raised .database ∨ SameData s.committed outcome.2) :
    Race.Safe env requests ⟨s.committed.settle outcome,
      Function.update s.phase i (ClaimPhase.after (.returned task) outcome).1⟩ := by
  obtain ⟨r, w'⟩ := outcome
  cases r with
  | ok reply =>
      obtain ⟨hdoomed, c, hsame, haccepted, hclaims⟩ := hok reply rfl
      refine h.commit hphase (settle_doomed _ _) ?_ hsame haccepted
      rw [settle_ok hdoomed]
      exact hclaims
  | error e =>
      refine h.quiet (settle_doomed _ _) (settle_error ?_) nofun rfl rfl
      exact (herr e rfl).imp_right fun hsame => congrArg Db.claims hsame.1

theorem Race.Safe.ended {s : Race} {i : Nat} {phase : ClaimPhase} (h : s.Safe env requests)
    (hphase : s.phase i = phase) :
    Race.Safe env requests ⟨s.committed, Function.update s.phase i phase⟩ := by
  rw [← hphase, Function.update_eq_self]
  exact h

theorem raceStep_safe {s : Race} {i : Nat} (h : s.Safe env requests) (hexclusive : Exclusive s i) :
    (raceStep env requests s i).Safe env requests := by
  unfold raceStep
  cases hphase : s.phase i with
  | started =>
      have hload := @load_ends env (requests i) s.committed
      refine h.reading hload.1 fun task hr hclean hclaims => ?_
      refine h.quiet hclean hclaims (fun id hid => ?_) rfl rfl
      cases hid
      exact hload.2 task hr
  | loaded task =>
      refine h.reading vet_ends fun p _ hclean hclaims => ?_
      refine h.quiet hclean hclaims (fun id hid => ?_) rfl rfl
      exact h.keyed i id (by rw [hphase]; exact hid)
  | admitted task worker resolved =>
      have hkey := h.keyed i task.taskId (by rw [hphase]; rfl)
      have hcheck := @check_ends env (requests i) s.committed task hkey
      refine h.reading hcheck.1 fun _ hr hclean hclaims => ?_
      exact h.pass hclean hclaims hkey (hcheck.2 hr) (hexclusive task worker resolved hphase)
  | checked task worker resolved =>
      have hpublish := @publish_ends env (requests i) s.committed task worker resolved
      exact h.publishing hphase hpublish.1 hpublish.2
  | returned task reply => exact h.ended hphase
  | raised e => exact h.ended hphase

theorem acceptedOn_length_le {db : Db} (h : db.Lifecycle env) (id : String) :
    (db.acceptedOn id).length ≤ 1 := by
  have hle : (db.acceptedOn id).length ≤ (db.claimsOn id).length := by
    rw [Db.acceptedOn, Db.claimsOn, ← List.countP_eq_length_filter, ← List.countP_eq_length_filter]
    exact List.countP_mono_left fun c _ hc => (Bool.and_eq_true _ _ ▸ hc).1
  have hone : (db.claimsOn id).length ≤ 1 := by
    by_cases hnone : db.claimsOn id = []
    · rw [hnone]
      exact Nat.zero_le 1
    · obtain ⟨c, hc⟩ := List.exists_mem_of_ne_nil _ hnone
      obtain ⟨hc, hid⟩ := mem_claimsOn.1 hc
      obtain ⟨t, ht, htask⟩ := h.tasked c hc
      have hposted : t.state ≠ .posted := by
        intro hposted
        exact hnone (hid ▸ htask ▸ (h.of ht).posted_iff.1 hposted)
      obtain ⟨c', hc', -⟩ := (h.of ht).claimed hposted
      rw [← hid, ← htask, hc']
      exact Nat.le_refl 1
  exact hle.trans hone

/-- Where no transaction has begun, the invariant is that of the lifecycle. -/
theorem start_safe {w : World} (hclean : w.doomed = false) (h : w.db.Lifecycle env) :
    Race.Safe env requests ⟨w, fun _ => .started⟩ :=
  ⟨hclean, nofun, acceptedOn_length_le h, nofun, nofun, nofun, nofun⟩

/-- At most one accepted claim on every task is committed, and where one call returned for a
task, every other call for it that has ended raised. -/
structure FirstClaimWins (env : Env) (requests : Nat → ClaimRequest) (s : Race) : Prop where
  single : ∀ id, (s.committed.db.acceptedOn id).length ≤ 1
  others : ∀ i id, (s.phase i).returnedOn = some id → ∀ j, j ≠ i →
    env.lookupKey "task_id" (requests j).taskId = .ok (some id) →
    ∀ r, (s.phase j).result = some r → ∃ e, r = .error e

theorem Race.Safe.firstClaimWins {s : Race} (h : s.Safe env requests) :
    FirstClaimWins env requests s := by
  refine ⟨h.single, ?_⟩
  intro i id hi j hne hkey r hr
  cases r with
  | error e => exact ⟨e, rfl⟩
  | ok reply =>
      obtain ⟨id', hj, htask⟩ := ClaimPhase.returnedOn_of_result hr
      have hid : id' = id := by simpa using (h.keyed j id' htask).symm.trans hkey
      exact absurd (h.once j i id (hid ▸ hj) hi) hne

/-- In every schedule in which no transaction queries for an accepted claim while another one
on the task stands between its query and its commit, the first claim wins. -/
theorem race_firstClaimWins (env : Env) (workers : List WcpWorker) (calls : List Call)
    (requests : Nat → ClaimRequest) (schedule : List Nat)
    (hexclusive : ∀ before i after, schedule = before ++ i :: after →
      Exclusive (race env requests (reach env workers calls) before) i) :
    FirstClaimWins env requests (race env requests (reach env workers calls) schedule) := by
  have hstart : Race.Safe env requests ⟨reach env workers calls, fun _ => .started⟩ :=
    start_safe (reach_clean env workers calls) (reach_lifecycle env workers calls).2
  have hend := run_invariant_at (fun _ _ h hexcl => raceStep_safe h hexcl) hstart hexclusive
  exact hend.firstClaimWins

/-- What is left of a call. -/
def ClaimRequest.remaining (req : ClaimRequest) (env : Env) : ClaimPhase → Action Json
  | .started => req.load env >>= fun task => req.vet env task >>= fun p => req.check env >>=
      fun _ => req.publish env task p.1 p.2
  | .loaded task => req.vet env task >>= fun p => req.check env >>=
      fun _ => req.publish env task p.1 p.2
  | .admitted task worker resolved =>
      req.check env >>= fun _ => req.publish env task worker resolved
  | .checked task worker resolved => req.publish env task worker resolved
  | .returned _ reply => pure reply
  | .raised e => Exec.raise e

theorem claim_eq_remaining (req : ClaimRequest) :
    claim env req.taskId req.workerId req.eta req.acceptanceAttestation req.bid =
      req.remaining env .started := by
  unfold ClaimRequest.remaining ClaimRequest.load ClaimRequest.vet
  simp only [Exec.bind_assoc]
  rfl

/-- How many turns a transaction has left at most. -/
def ClaimPhase.turnsLeft : ClaimPhase → Nat
  | .started => 4
  | .loaded _ => 3
  | .admitted _ _ _ => 2
  | .checked _ _ _ => 1
  | .returned _ _ | .raised _ => 0

/-- Where nobody else has committed since `w`, what is left of a call that is to end with
`outcome` ends with it; a call that has ended is settled. -/
def Lone (env : Env) (req : ClaimRequest) (w : World) (outcome : Except Err Json × World)
    (phase : ClaimPhase) (w' : World) : Prop :=
  match phase.result with
  | none => w'.db = w.db ∧ w'.doomed = false ∧ req.remaining env phase w' = outcome
  | some r => r = outcome.1 ∧ w' = w.settle outcome

section Lone

variable {req : ClaimRequest} {w w' : World} {outcome : Except Err Json × World}

theorem settle_same {r : Except Err Json} (hdb : w'.db = w.db) (hclean : w'.doomed = false) :
    w.settle (r, w') = w' := by
  obtain ⟨db, tick, doomed⟩ := w
  obtain ⟨db', tick', doomed'⟩ := w'
  cases hdb
  cases hclean
  unfold World.settle
  split
  · next heq => cases heq; rfl
  · next heq => cases heq; rfl

theorem settle_congr (hdb : w'.db = w.db) : w'.settle outcome = w.settle outcome := by
  unfold World.settle
  rw [hdb]

theorem after_lone {α : Type} {m : Action α} {next : α → ClaimPhase} {f : α → Action Json}
    (hdb : w'.db = w.db) (hclean : w'.doomed = false)
    (hsame : SameData w' (m w').2) (hnext : ∀ a, (next a).result = none)
    (hf : ∀ a, req.remaining env (next a) = f a) (hout : (m >>= f) w' = outcome) :
    Lone env req w outcome (ClaimPhase.after next (m w')).1 (ClaimPhase.after next (m w')).2 := by
  have hdb' := hsame.1.trans hdb
  have hclean' := hsame.2.trans hclean
  rcases hm : m w' with ⟨e | a, w''⟩ <;> rw [hm] at hdb' hclean'
  · rw [Exec.bind_error hm] at hout
    rw [← hout]
    exact ⟨rfl, (settle_same hdb' hclean').symm⟩
  · rw [Exec.bind_ok hm, ← hf] at hout
    simp only [Lone, ClaimPhase.after, hnext]
    exact ⟨hdb', hclean', hout⟩

theorem advance_lone {phase : ClaimPhase} (h : Lone env req w outcome phase w') :
    Lone env req w outcome (advance env req w' phase).1 (advance env req w' phase).2 := by
  cases phase with
  | started =>
      exact after_lone h.1 h.2.1 load_ends.1 (fun _ => rfl) (fun _ => rfl) h.2.2
  | loaded task =>
      exact after_lone h.1 h.2.1 vet_ends (fun _ => rfl) (fun _ => rfl) h.2.2
  | admitted task worker resolved =>
      exact after_lone h.1 h.2.1 ⟨rfl, rfl⟩ (fun _ => rfl) (fun _ => rfl) h.2.2
  | checked task worker resolved =>
      obtain ⟨hdb, -, hout⟩ := h
      have hout : req.publish env task worker resolved w' = outcome := hout
      show Lone env req w outcome
        (ClaimPhase.after (.returned task) (req.publish env task worker resolved w')).1
        (w'.settle (req.publish env task worker resolved w'))
      rw [hout, settle_congr hdb]
      obtain ⟨r, w''⟩ := outcome
      cases r with
      | ok reply => exact ⟨rfl, rfl⟩
      | error e => exact ⟨rfl, rfl⟩
  | returned task reply => exact h
  | raised e => exact h

theorem after_turnsLeft {α : Type} {next : α → ClaimPhase} {result : Except Err α × World} {n : Nat}
    (h : ∀ a, (next a).turnsLeft ≤ n) : (ClaimPhase.after next result).1.turnsLeft ≤ n := by
  obtain ⟨r, w'⟩ := result
  cases r with
  | ok a => exact h a
  | error e => exact Nat.zero_le n

theorem advance_turnsLeft (phase : ClaimPhase) :
    (advance env req w phase).1.turnsLeft ≤ phase.turnsLeft - 1 := by
  cases phase with
  | started => exact after_turnsLeft fun _ => Nat.le_refl 3
  | loaded task => exact after_turnsLeft fun _ => Nat.le_refl 2
  | admitted task worker resolved => exact after_turnsLeft fun _ => Nat.le_refl 1
  | checked task worker resolved => exact after_turnsLeft fun _ => Nat.le_refl 0
  | returned task reply => exact Nat.le_refl 0
  | raised e => exact Nat.le_refl 0

theorem Lone.ended {phase : ClaimPhase} (h : Lone env req w outcome phase w')
    (hleft : phase.turnsLeft = 0) : phase.result = some outcome.1 ∧ w' = w.settle outcome := by
  cases phase with
  | returned task reply => exact ⟨congrArg some h.1, h.2⟩
  | raised e => exact ⟨congrArg some h.1, h.2⟩
  | started => cases hleft
  | loaded task => cases hleft
  | admitted task worker resolved => cases hleft
  | checked task worker resolved => cases hleft

theorem raceStep_lone {s : Race} {i : Nat} {n : Nat}
    (h : Lone env (requests i) w outcome (s.phase i) s.committed)
    (hleft : (s.phase i).turnsLeft ≤ n) :
    Lone env (requests i) w outcome ((raceStep env requests s i).phase i)
        (raceStep env requests s i).committed ∧
      ((raceStep env requests s i).phase i).turnsLeft ≤ n - 1 := by
  have hphase : (raceStep env requests s i).phase i =
      (advance env (requests i) s.committed (s.phase i)).1 := Function.update_self _ _ _
  rw [hphase]
  refine ⟨advance_lone h, ?_⟩
  have hless := @advance_turnsLeft env (requests i) s.committed (s.phase i)
  omega

end Lone

theorem race_alone {w : World} (hclean : w.doomed = false) (i : Nat) :
    ((race env requests w [i, i, i, i]).phase i).result =
        some (claim env (requests i).taskId (requests i).workerId (requests i).eta
          (requests i).acceptanceAttestation (requests i).bid w).1 ∧
      (race env requests w [i, i, i, i]).committed =
        w.settle (claim env (requests i).taskId (requests i).workerId (requests i).eta
          (requests i).acceptanceAttestation (requests i).bid w) := by
  rw [claim_eq_remaining]
  have hstart : Lone env (requests i) w ((requests i).remaining env .started w) .started w :=
    ⟨rfl, hclean, rfl⟩
  have hloaded := raceStep_lone (s := ⟨w, fun _ => .started⟩) hstart (Nat.le_refl 4)
  have hadmitted := raceStep_lone hloaded.1 hloaded.2
  have hchecked := raceStep_lone hadmitted.1 hadmitted.2
  have hended := raceStep_lone hchecked.1 hchecked.2
  exact hended.1.ended (Nat.le_zero.1 hended.2)

/-! ## Checking a schedule -/

/-- Whether a transaction is exclusive among those of a list. -/
def Race.exclusiveAmong (s : Race) (participants : List Nat) (i : Nat) : Bool :=
  match s.phase i with
  | .admitted task _ _ => participants.all fun j => (s.phase j).checkedOn ≠ some task.taskId
  | _ => true

/-- Whether every turn of a schedule is that of an exclusive transaction. -/
def exclusiveSchedule (env : Env) (requests : Nat → ClaimRequest) (w : World)
    (schedule : List Nat) : Bool :=
  (List.range schedule.length).all fun k =>
    (race env requests w (schedule.take k)).exclusiveAmong schedule (schedule.getD k 0)

theorem race_phase_of_not_mem {w : World} {schedule : List Nat} {j : Nat} (h : j ∉ schedule) :
    (race env requests w schedule).phase j = .started := by
  refine @run_invariant _ _ (raceStep env requests) (fun s => s.phase j = .started)
    (fun i => j ≠ i) ?_ ⟨w, fun _ => .started⟩ schedule rfl ?_
  · intro s i hs hne
    exact (Function.update_of_ne hne _ _).trans hs
  · rintro i hi rfl
    exact h hi

theorem exclusive_of_exclusiveSchedule {w : World} {schedule : List Nat}
    (h : exclusiveSchedule env requests w schedule = true) (before : List Nat) (i : Nat)
    (after : List Nat) (hsplit : schedule = before ++ i :: after) :
    Exclusive (race env requests w before) i := by
  have hat := List.all_eq_true.1 h before.length (by simp [hsplit])
  have htake : schedule.take before.length = before := by simp [hsplit]
  have hget : schedule.getD before.length 0 = i := by simp [hsplit]
  rw [htake, hget] at hat
  intro task worker resolved hphase j hj
  rw [Race.exclusiveAmong, hphase] at hat
  by_cases hmem : j ∈ schedule
  · exact of_decide_eq_true (List.all_eq_true.1 hat j hmem) hj
  · have hstarted : (race env requests w before).phase j = .started :=
      race_phase_of_not_mem fun hj => hmem (by rw [hsplit]; exact List.mem_append_left _ hj)
    rw [hstarted] at hj
    cases hj

/-! ## Two workers on one task -/

/-- Another worker, whose principal did not post the task. -/
def oneWorker : WcpWorker := { zeroWorker with workerId := oneDid }

/-- Each of the two workers claims the local task. -/
def localRequests (i : Nat) : ClaimRequest where
  taskId := .str "t1"
  workerId := .str (if i = 0 then zeroDid else oneDid)
  eta := localDate
  acceptanceAttestation := localAcceptance (if i = 0 then zeroSig else oneSig)
  bid := .null

/-- The two workers' claims after a schedule, from the state where the task was posted. -/
def localRace (schedule : List Nat) : Race :=
  race localEnv localRequests
    (reach localEnv [zeroWorker, oneWorker] [.post (localTask anySensor) localDate .null]) schedule

theorem race_firstClaimWins_overlapping :
    ((localRace [0, 1, 0, 1, 0, 0, 1]).phase 0).returnedOn = some "t1" ∧
      FirstClaimWins localEnv localRequests (localRace [0, 1, 0, 1, 0, 0, 1]) := by
  refine ⟨by decide +kernel, race_firstClaimWins _ _ _ _ _ ?_⟩
  exact exclusive_of_exclusiveSchedule (by decide +kernel)

/-- Both transactions query before either commits: both return, and both claims are
accepted. -/
theorem both_claims_accepted :
    ((localRace [0, 0, 0, 1, 1, 1, 0, 1]).committed.db.acceptedOn "t1").length = 2 ∧
      ((localRace [0, 0, 0, 1, 1, 1, 0, 1]).phase 0).returnedOn = some "t1" ∧
      ((localRace [0, 0, 0, 1, 1, 1, 0, 1]).phase 1).returnedOn = some "t1" ∧
      ¬ FirstClaimWins localEnv localRequests (localRace [0, 0, 0, 1, 1, 1, 0, 1]) := by
  have htwo : ((localRace [0, 0, 0, 1, 1, 1, 0, 1]).committed.db.acceptedOn "t1").length = 2 := by
    decide +kernel
  refine ⟨htwo, by decide +kernel, by decide +kernel, fun h => ?_⟩
  have hone := h.single "t1"
  omega

end Wcp.Coordinator
