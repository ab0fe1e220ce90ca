import Wcp.Coordinator.LocalEnvironment
import Wcp.Coordinator.Attestation
import Wcp.Coordinator.Persistence
/-!
# Who may change a row

The worker-facing calls are meant to change rows only under a signature.  Only
`execute_event` does: `attest` counts an attempt whatever the checks of its items
said, and registration, `execute_open`, `supervise` and `abort` take no signature
at all.  For these calls `Applies` is the exact condition, on the state before the
call, under which a row changes (`step_mutated_iff`).
-/

namespace Wcp.Coordinator

open Wcp.Base
open Wcp.Base.Exec

variable {env : Env} {α : Type} {w : World}

/-! ## Changes of rows -/

/-- Tasks, claims and workers are as they were. -/
structure Db.SameRows (db db' : Db) : Prop where
  tasks : db'.tasks = db.tasks
  claims : db'.claims = db.claims
  workers : db'.workers = db.workers

/-- The state or the attempt counter of a task has changed. -/
def Db.TaskMutated (db db' : Db) : Prop :=
  ∃ t ∈ db.tasks, ∃ t' ∈ db'.tasks, t'.taskId = t.taskId ∧
    (t'.state ≠ t.state ∨ t'.attestationAttemptsUsed ≠ t.attestationAttemptsUsed)

/-- The last heartbeat of a claim has changed. -/
def Db.HeartbeatMutated (db db' : Db) : Prop :=
  ∃ c ∈ db.claims, ∃ c' ∈ db'.claims, c'.claimId = c.claimId ∧
    c'.lastHeartbeatAt ≠ c.lastHeartbeatAt

/-- A task's state, its attempt counter, a claim's last heartbeat or a worker row has changed. -/
def Db.Mutated (db db' : Db) : Prop :=
  db.TaskMutated db' ∨ db.HeartbeatMutated db' ∨ db'.workers ≠ db.workers

theorem Db.SameRows.refl (db : Db) : db.SameRows db := ⟨rfl, rfl, rfl⟩

theorem Db.SameRows.not_mutated {db db' : Db} (h : db.SameRows db') (hwf : db.WellFormed) :
    ¬ db.Mutated db' := by
  rintro (⟨t, ht, t', ht', hid, hne⟩ | ⟨c, hc, c', hc', hid, hne⟩ | hne)
  · obtain rfl := hwf.task_eq (h.tasks ▸ ht') ht hid
    simp at hne
  · obtain rfl := hwf.claim_eq (h.claims ▸ hc') hc hid
    exact hne rfl
  · exact hne h.workers

theorem Db.taskMutated_of_setState {db db' : Db} {t : WcpTask} {s : TaskState}
    (ht : t ∈ db.tasks)
    (htasks : db'.tasks = (db.updateTask t.taskId fun t => { t with state := s }).tasks)
    (hne : s ≠ t.state) : db.Mutated db' := by
  refine .inl ⟨t, ht, { t with state := s }, ?_, rfl, .inl hne⟩
  rw [htasks]
  exact List.mem_map.2 ⟨t, ht, if_pos rfl⟩

/-- A transaction that changes a row and is committed where a condition holds, and changes none
otherwise. -/
def Settles (applies : Prop) (db : Db) (r : Except Err α) (w' : World) : Prop :=
  applies ∧ r ≠ .error (.raised .database) ∧ w'.doomed = false ∧ db.Mutated w'.db ∨
    ¬ applies ∧ Committed db.SameRows r w'

theorem Settles.skip {applies : Prop} {r : Except Err α} (h : ¬ applies) :
    Settles applies w.db r w :=
  .inr ⟨h, Committed.of (Db.SameRows.refl _)⟩

theorem Settles.refused {applies : Prop} {db : Db} {w' : World} (h : ¬ applies) :
    Settles applies db (.error (.raised .database) : Except Err α) w' :=
  .inr ⟨h, Committed.database⟩

theorem settle_mutated_iff {m : Action α} {applies : Prop} (hwf : w.db.WellFormed)
    (h : Ends m w (Settles applies w.db)) : w.db.Mutated (w.settle (m w)).db ↔ applies := by
  rcases h with ⟨happlies, hr, hdoomed, hmutated⟩ | ⟨hskips, hcommitted⟩
  · refine iff_of_true ?_ happlies
    unfold World.settle
    split
    · next w' heq =>
        rw [heq] at hr
        exact absurd rfl hr
    · next r w' hne heq =>
        rw [heq] at hdoomed hmutated
        rw [if_neg (by simp [show w'.doomed = false from hdoomed])]
        exact hmutated
  · refine iff_of_false (fun hmutated => ?_) hskips
    exact (settle_db (Db.SameRows.refl _) hcommitted).not_mutated hwf hmutated

/-! ## The calls on a claim -/

/-- The claim is on a task that meets a condition. -/
def Db.Admits (env : Env) (db : Db) (claimId : Json) (admits : WcpTask → Prop) : Prop :=
  ∃ c t, claimAndTask env db claimId = .ok (c, t) ∧ admits t

theorem not_admits_of_error {claimId : Json} {admits : WcpTask → Prop} {e : Err}
    (h : claimAndTask env w.db claimId = .error e) : ¬ w.db.Admits env claimId admits := by
  rintro ⟨c, t, hct, -⟩
  cases h.symm.trans hct

theorem admits_iff {claimId : Json} {admits : WcpTask → Prop} {c : WcpClaim} {t : WcpTask}
    (h : claimAndTask env w.db claimId = .ok (c, t)) :
    w.db.Admits env claimId admits ↔ admits t := by
  constructor
  · rintro ⟨c', t', hct, hadmits⟩
    cases h.symm.trans hct
    exact hadmits
  · intro hadmits
    exact ⟨c, t, h, hadmits⟩

/-- A call moves its task when the task is in a state that admits it and the driver stores the
entry about it, or refuses to send for the predecessor of the entry: the move stays then. -/
def movesFrom (env : Env) (claimId : Json) (eventType : String) (admits : TaskState → Prop)
    (t : WcpTask) : Prop :=
  admits t.state ∧ (env.stores (.str eventType) claimId (.str t.taskId) = true ∨
    env.unsent claimId = true)

/-- Execution opens from two states, and the driver stores the session and the entry. -/
def opensFrom (env : Env) (claimId : Json) (t : WcpTask) : Prop :=
  (t.state = .claimed ∨ t.state = .supervising) ∧
    env.stores (.str "execution_started") claimId (.str t.taskId) = true

theorem executeOpen_settles (hdoomed : w.doomed = false) (claimId : Json) :
    Ends (executeOpen env claimId) w
      (Settles (w.db.Admits env claimId (opensFrom env claimId)) w.db) := by
  unfold executeOpen
  refine readDb_bind ?_ fun e he => Settles.skip (not_admits_of_error he)
  rintro ⟨c, t⟩ hct
  have ht := (claimAndTask_key hct).1.task
  rw [admits_iff hct]
  refine Ends.require_bind ?_ fun hstate => Settles.skip fun h => hstate h.1
  intro hstate
  refine uuid4_bind (insertSession_bind (fun stored hstored => ?_) fun hnone => ?_)
  · have hhashable := hashable_of_bindColumn hstored
    refine writeDb_bind (flush_clean_bind hdoomed (append_bind_cases ?_ ?_ ?_))
    · intro r entry _ hstores
      refine Ends.pure (.inl ⟨⟨hstate, hstores⟩, nofun, hdoomed, ?_⟩)
      refine Db.taskMutated_of_setState ht rfl ?_
      rcases hstate with hstate | hstate <;> rw [hstate] <;> decide
    · intro hbad _ w'
      exact Settles.refused fun h => hbad ⟨hdoomed, h.2⟩
    · intro hunsent
      cases (unsent_of_hashable hhashable).symm.trans hunsent
  · -- the session row cannot be stored under this id
    refine writeDb_bind (flush_bind (fun hclean => by cases hclean) (Settles.refused fun h => ?_))
    cases hnone.symm.trans (bindColumn_of_stores hct h.2)

/-- The states from which a task is handed over or released. -/
def supervisesFrom (s : TaskState) : Prop := s = .executing ∨ s = .supervising

theorem supervise_settles (hdoomed : w.doomed = false) (claimId handoffReason urgency : Json) :
    Ends (supervise env claimId handoffReason urgency) w
      (Settles (w.db.Admits env claimId
        (movesFrom env claimId "supervision_handoff" supervisesFrom)) w.db) := by
  unfold supervise
  refine readDb_bind ?_ fun e he => Settles.skip (not_admits_of_error he)
  rintro ⟨c, t⟩ hct
  have ht := (claimAndTask_key hct).1.task
  rw [admits_iff hct]
  refine Ends.require_bind ?_ fun hstate => Settles.skip fun h => hstate h.1
  intro hstate
  have hne : supervisedState t.state ≠ t.state := by
    rcases hstate with hstate | hstate <;> rw [hstate] <;> decide
  refine writeDb_bind (flush_clean_bind hdoomed (uuid4_bind (append_bind_cases ?_ ?_ ?_)))
  · intro r entry _ hstores
    exact Ends.pure (.inl ⟨⟨hstate, .inl hstores⟩, nofun, hdoomed,
      Db.taskMutated_of_setState ht rfl hne⟩)
  · intro hbad hsent w'
    refine Settles.refused fun h => ?_
    exact h.2.elim (fun hstores => hbad ⟨hdoomed, hstores⟩) fun hunsent => hsent ⟨hdoomed, hunsent⟩
  · intro hunsent _
    exact .inl ⟨⟨hstate, .inr hunsent⟩, by simp, hdoomed,
      Db.taskMutated_of_setState ht rfl hne⟩

/-- The states from which a task is aborted. -/
def abortsFrom (s : TaskState) : Prop := s.isTerminal = false

theorem abort_settles (hwf : w.db.WellFormed) (hdoomed : w.doomed = false)
    (claimId reason stateSnapshot : Json) :
    Ends (abort env claimId reason stateSnapshot) w
      (Settles (w.db.Admits env claimId (movesFrom env claimId "task_aborted" abortsFrom))
        w.db) := by
  unfold abort
  refine readDb_bind ?_ fun e he => Settles.skip (not_admits_of_error he)
  rintro ⟨c, t⟩ hct
  have ht := (claimAndTask_key hct).1.task
  rw [admits_iff hct]
  refine Ends.require_bind ?_ fun hstate => Settles.skip fun h => hstate h.1
  intro hstate
  obtain ⟨ms, hobj⟩ := hwf.descriptors t ht
  refine writeDb_bind (Ends.lift_bind ?_ fun e he => by simp [hobj, Json.get, Json.getD] at he)
  intro accountingRef _
  have hne : TaskState.aborted ≠ t.state := by
    rintro heq
    rw [← heq] at hstate
    cases hstate
  refine flush_clean_bind hdoomed (append_bind_cases ?_ ?_ ?_)
  · intro r entry _ hstores
    exact uuid4_bind (Ends.pure (.inl ⟨⟨hstate, .inl hstores⟩, by simp, hdoomed,
      Db.taskMutated_of_setState ht rfl hne⟩))
  · intro hbad hsent w'
    refine Settles.refused fun h => ?_
    exact h.2.elim (fun hstores => hbad ⟨hdoomed, hstores⟩) fun hunsent => hsent ⟨hdoomed, hunsent⟩
  · intro hunsent _
    exact .inl ⟨⟨hstate, .inr hunsent⟩, by simp, hdoomed,
      Db.taskMutated_of_setState ht rfl hne⟩

/-! ## Attestations -/

/-- An attestation counts: its reads and its decision raise nothing, and the driver stores what it
writes, or refuses to send for the predecessor of its entry. -/
def Db.Attests (env : Env) (db : Db) (claimId attestations : Json) : Prop :=
  ∃ plan aggregate, attestPlan env db claimId attestations = .ok plan ∧
    plan.aggregate env claimId = .ok aggregate ∧
    ((rowsOf (judgedBefore (plan.judge env claimId) plan.items)).all fun r => r.binds env) = true ∧
    (plan.storable env claimId aggregate.decision = true ∨ env.unsent claimId = true)

theorem routeDecision_counter {t row : WcpTask} {claimId : Json} {attempt : Nat} {remaining : Int}
    {accountingRef : Json} {aggregate : VerificationOutcome} {n : Nat} (hrow : row ∈ w.db.tasks)
    (hn : row.attestationAttemptsUsed = n) :
    Ends (routeDecision env t claimId attempt remaining accountingRef aggregate) w fun r w' =>
      r = .ok () → ∃ row' ∈ w'.db.tasks, row'.taskId = row.taskId ∧
        row'.attestationAttemptsUsed = n := by
  have hentry : ∀ (name actorDid : String) (payload : Json) (state : TaskState),
      Ends (do
        setState t state
        let _ ← append env (.str name) actorDid payload claimId (.str t.taskId) none) w fun r w' =>
        r = .ok () → ∃ row' ∈ w'.db.tasks, row'.taskId = row.taskId ∧
          row'.attestationAttemptsUsed = n := by
    intro name actorDid payload state
    refine writeDb_bind (append_bind_cases ?_ (fun _ _ w' h => by cases h) fun _ _ h => by cases h)
    intro r entry _ _
    refine Ends.pure fun _ => ⟨_, List.mem_map_of_mem hrow, ?_⟩
    split <;> exact ⟨rfl, hn⟩
  unfold routeDecision
  cases aggregate.decision with
  | pass => exact hentry _ _ _ _
  | fail =>
      dsimp only
      split
      · exact hentry _ _ _ _
      · exact hentry _ _ _ _
  | review => exact Ends.pure fun _ => ⟨row, hrow, rfl, hn⟩

theorem attestWrites_counter {plan : AttestPlan} {claimId : Json} {aggregate : VerificationOutcome}
    (ht : plan.task ∈ w.db.tasks) :
    Ends (attestWrites env plan claimId aggregate) w fun r w' => ∀ a, r = .ok a →
      ∃ t' ∈ w'.db.tasks, t'.taskId = plan.task.taskId ∧
        t'.attestationAttemptsUsed = plan.task.attestationAttemptsUsed + 1 := by
  unfold attestWrites
  refine writeDb_bind (append_bind_cases ?_ (fun _ _ w' a h => by cases h)
    fun _ _ a h => by cases h)
  intro r entry _ _
  refine Ends.lift_bind ?_ fun e _ a h => by cases h
  intro accountingRef _
  have hrow : ({ plan.task with
      attestationAttemptsUsed := plan.task.attestationAttemptsUsed + 1, state := .attesting } :
      WcpTask) ∈ (w.db.updateTask plan.task.taskId fun t =>
        { t with
          attestationAttemptsUsed := t.attestationAttemptsUsed + 1
          state := .attesting }).tasks :=
    List.mem_map.2 ⟨plan.task, ht, if_pos rfl⟩
  refine Ends.bind (Ends.mono (routeDecision_counter hrow rfl) ?_)
  intro r' w' hrouted
  cases r' with
  | error e => exact fun a h => by cases h
  | ok u => exact flush_bind (fun _ => Ends.pure fun a _ => hrouted rfl) fun a h => by cases h

theorem attest_settles (hdoomed : w.doomed = false) (claimId attestations : Json) :
    Ends (attest env claimId attestations) w
      (Settles (w.db.Attests env claimId attestations) w.db) := by
  refine attest_ends ?_ ?_ ?_
  · intro e he
    refine Settles.skip ?_
    rintro ⟨plan, -, hplan, -⟩
    cases he.symm.trans hplan
  · intro plan e w' hplan he hrec
    obtain ⟨⟨added, hdb, -⟩, -⟩ := hrec
    refine .inr ⟨?_, Committed.of (hdb ▸ ⟨rfl, rfl, rfl⟩)⟩
    rintro ⟨plan', aggregate, hplan', hagg, -⟩
    cases hplan.symm.trans hplan'
    cases he.symm.trans hagg
  · intro plan aggregate w' hplan hagg hrec
    obtain ⟨ms, hobj⟩ := attestPlan_descriptor hplan
    obtain ⟨⟨added, hdb, -⟩, hpending⟩ := hrec
    have ht : plan.task ∈ w.db.tasks := (claimAndTask_key (attestPlan_eq_ok.1 hplan).1).1.task
    have hcounter := @attestWrites_counter env w' plan claimId aggregate (hdb ▸ ht)
    have hcases := @attestWrites_cases env w' plan claimId aggregate ms hobj
    unfold Ends at hcounter hcases ⊢
    have happlies : w.db.Attests env claimId attestations ↔ w'.doomed = false ∧
        (plan.storable env claimId aggregate.decision = true ∨ env.unsent claimId = true) := by
      rw [hpending, hdoomed, Bool.false_or, Bool.not_eq_false']
      constructor
      · rintro ⟨plan', aggregate', hplan', hagg', hbinds, hstores⟩
        cases hplan.symm.trans hplan'
        cases hagg.symm.trans hagg'
        exact ⟨hbinds, hstores⟩
      · rintro ⟨hbinds, hstores⟩
        exact ⟨plan, aggregate, hplan, hagg, hbinds, hstores⟩
    dsimp only at hcases hcounter
    split at hcases
    · next happly =>
        obtain ⟨hr, hclean, -⟩ := hcases
        obtain ⟨t', ht', hid, hused⟩ := hcounter _ hr
        have hreturned : (attestWrites env plan claimId aggregate w').1 ≠
            .error (.raised .database) := by
          rw [hr]
          exact nofun
        refine .inl ⟨happlies.2 ⟨happly.1, .inl happly.2⟩, hreturned, hclean,
          .inl ⟨_, ht, t', ht', hid, .inr ?_⟩⟩
        omega
    · next hstored =>
        split at hcases
        · next hunsent =>
            obtain ⟨hr, hbegun, hclean⟩ := hcases
            have hraised : (attestWrites env plan claimId aggregate w').1 ≠
                .error (.raised .database) := by
              rw [hr]
              simp
            have hcounted : { plan.task with
                attestationAttemptsUsed := plan.task.attestationAttemptsUsed + 1,
                state := .attesting } ∈
              (attestWrites env plan claimId aggregate w').2.db.tasks := by
              rw [hbegun, hdb]
              exact List.mem_map.2 ⟨plan.task, ht, if_pos rfl⟩
            exact .inl ⟨happlies.2 ⟨hunsent.1, .inr hunsent.2⟩, hraised, hclean,
              .inl ⟨_, ht, _, hcounted, rfl, .inr (Nat.succ_ne_self _)⟩⟩
        · next hsent =>
            rw [hcases]
            refine Settles.refused fun h => ?_
            obtain ⟨hclean, hstores | hunsent⟩ := happlies.1 h
            · exact hstored ⟨hclean, hstores⟩
            · exact hsent ⟨hclean, hunsent⟩

/-! ## Registration -/

/-- A registration goes through: the DID resolves, the descriptor names a version and a class, and
the driver finds and stores the row. -/
def Db.Registers (env : Env) (db : Db) (workerId capabilities principalId ttlSeconds : Json) :
    Prop :=
  ∃ resolved version label workerClass existing principal,
    resolveOrRefuse env "DID_NOT_RESOLVED: " workerId = .ok resolved ∧
    capabilities.get "schema_version" = (.ok version : Except Err Json) ∧
    (version = .str "wcp/0.1" ∨ version = .str "wcp/0.2") ∧
    capabilities.get "class" = (.ok label : Except Err Json) ∧
    WorkerClass.ofValue label = some workerClass ∧
    db.getWorker env workerId = .ok existing ∧
    env.bindColumn principalId = some principal ∧ env.bindsInt ttlSeconds = true

theorem mem_of_getWorker {db : Db} {workerId : Json} {row : WcpWorker}
    (h : db.getWorker env workerId = .ok (some row)) : row ∈ db.workers := by
  rw [Db.getWorker, bind_eq_ok] at h
  obtain ⟨key, -, h⟩ := h
  obtain ⟨id, -, hfind⟩ := Option.bind_eq_some_iff.1 (Except.ok.inj h)
  exact List.mem_of_find?_eq_some hfind

theorem updateWorker_ne {db : Db} {row : WcpWorker} (hrow : row ∈ db.workers)
    {f : WcpWorker → WcpWorker} (hf : ∀ r, (f r).revision = r.revision + 1) :
    (db.updateWorker row.workerId f).workers ≠ db.workers := by
  intro heq
  have hfixed : ∀ r ∈ db.workers, (if r.workerId = row.workerId then f r else r) = r :=
    List.map_inj_left.1 (heq.trans (List.map_id _).symm)
  have hsame := hfixed row hrow
  rw [if_pos rfl] at hsame
  have hrevision := hf row
  rw [hsame] at hrevision
  omega

theorem storeWorker_settles {existing : Option WcpWorker} {did : String} {workerClass : WorkerClass}
    {capabilities principalId ttlSeconds : Json} {asOf : DateTime} (hdoomed : w.doomed = false)
    (hexisting : ∀ row, existing = some row → row ∈ w.db.workers) :
    Ends (storeWorker env existing did workerClass capabilities principalId ttlSeconds asOf) w
      (Settles ((env.bindColumn principalId).isSome = true ∧ env.bindsInt ttlSeconds = true)
        w.db) := by
  unfold storeWorker
  split
  · next principal hprincipal hint =>
      refine writeDb_bind ?_
      have hnew : ∀ row : WcpWorker, w.db.workers ++ [row] ≠ w.db.workers := by
        intro row heq
        simpa using congrArg List.length heq
      have happlies : (env.bindColumn principalId).isSome = true ∧ env.bindsInt ttlSeconds = true :=
        ⟨by rw [hprincipal]; rfl, hint⟩
      unfold Ends flush
      rw [if_neg (by simp [hdoomed])]
      exact .inl ⟨happlies, nofun, hdoomed, .inr (.inr (hnew _))⟩
  · next principal row hprincipal hint =>
      refine .inl ⟨⟨by rw [hprincipal]; rfl, hint⟩, nofun, hdoomed, .inr (.inr ?_)⟩
      exact updateWorker_ne (hexisting row rfl) fun _ => rfl
  · next hrefused =>
      refine Ends.write_bind (Settles.refused ?_)
      rintro ⟨hprincipal, hint⟩
      obtain ⟨principal, hprincipal⟩ := Option.isSome_iff_exists.1 hprincipal
      exact hrefused principal hprincipal hint
  · next hrefused =>
      refine .inr ⟨?_, fun _ hclean => by cases hclean⟩
      rintro ⟨hprincipal, hint⟩
      obtain ⟨principal, hprincipal⟩ := Option.isSome_iff_exists.1 hprincipal
      exact hrefused principal hprincipal hint

theorem Settles.returned {β : Type} {applies : Prop} {db : Db} {a : α} {b : β} {w' : World}
    (h : Settles applies db (.ok a : Except Err α) w') :
    Settles applies db (.ok b : Except Err β) w' := by
  rcases h with ⟨happlies, -, hclean, hmutated⟩ | ⟨hskips, hsame⟩
  · exact .inl ⟨happlies, nofun, hclean, hmutated⟩
  · exact .inr ⟨hskips, hsame.returned⟩

theorem Settles.raised {β : Type} {applies : Prop} {db : Db} {e : Err} {w' : World}
    (h : Settles applies db (.error e : Except Err α) w') :
    Settles applies db (.error e : Except Err β) w' := by
  rcases h with ⟨happlies, hne, hclean, hmutated⟩ | ⟨hskips, hsame⟩
  · exact .inl ⟨happlies, fun h => hne (by cases h; rfl), hclean, hmutated⟩
  · exact .inr ⟨hskips, hsame.raised⟩

theorem upsertCapabilities_settles (hdoomed : w.doomed = false)
    (workerId capabilities principalId ttlSeconds : Json) :
    Ends (upsertCapabilities env workerId capabilities principalId ttlSeconds) w
      (Settles (w.db.Registers env workerId capabilities principalId ttlSeconds) w.db) := by
  unfold upsertCapabilities
  refine Ends.lift_bind ?_ fun e he => Settles.skip ?_
  · intro resolved hresolved
    refine Ends.lift_bind ?_ fun e he => Settles.skip ?_
    · intro version hversion
      refine Ends.require_bind ?_ fun hunsupported => Settles.skip ?_
      · intro hsupported
        refine Ends.lift_bind ?_ fun e he => Settles.skip ?_
        · intro label hlabel
          refine Ends.lift_bind ?_ fun e he => Settles.skip ?_
          · intro workerClass hclass
            have hclass : WorkerClass.ofValue label = some workerClass := by
              split at hclass
              · next c hc => exact hc.trans (congrArg some (Except.ok.inj hclass))
              · cases hclass
            refine readDb_bind ?_ fun e he => Settles.skip ?_
            · intro existing hexisting
              refine utcnow_bind (Ends.bind (Ends.mono (storeWorker_settles hdoomed ?_) ?_))
              · exact fun row hrow => mem_of_getWorker (hrow ▸ hexisting)
              · have happlies : w.db.Registers env workerId capabilities principalId ttlSeconds ↔
                    (env.bindColumn principalId).isSome = true ∧
                      env.bindsInt ttlSeconds = true := by
                  rw [Option.isSome_iff_exists]
                  constructor
                  · rintro ⟨-, -, -, -, -, principal, -, -, -, -, -, -, hprincipal, hint⟩
                    exact ⟨⟨principal, hprincipal⟩, hint⟩
                  · rintro ⟨⟨principal, hprincipal⟩, hint⟩
                    exact ⟨resolved, version, label, workerClass, existing, principal, hresolved,
                      hversion, hsupported, hlabel, hclass, hexisting, hprincipal, hint⟩
                rw [happlies]
                rintro (e | u) w' hw'
                · exact hw'.raised
                · exact Ends.pure hw'.returned
            · rintro ⟨-, -, -, -, existing, -, -, -, -, -, -, hexisting, -⟩
              cases he.symm.trans hexisting
          · rintro ⟨-, -, label', workerClass, -, -, -, -, -, hlabel', hclass, -⟩
            cases hlabel.symm.trans hlabel'
            rw [hclass] at he
            cases he
        · rintro ⟨-, -, label, -, -, -, -, -, -, hlabel, -⟩
          cases he.symm.trans hlabel
      · rintro ⟨-, version', -, -, -, -, -, hversion', hsupported, -⟩
        cases hversion.symm.trans hversion'
        exact hunsupported hsupported
    · rintro ⟨-, version, -, -, -, -, -, hversion, -⟩
      cases he.symm.trans hversion
  · rintro ⟨resolved, -, -, -, -, -, hresolved, -⟩
    cases he.symm.trans hresolved

/-! ## Authentication -/

/-- The calls that change rows in the name of a worker or an agent. -/
def Call.guarded : Call → Bool
  | .upsertCapabilities .. | .executeOpen .. | .executeEvent .. | .attest .. | .supervise ..
  | .abort .. => true
  | _ => false

/-- The signatures among the parameters of a guarded call: that of an event, and those of evidence
items.  The other guarded calls take none. -/
def Call.signatures : Call → List Json
  | .executeEvent _ _ _ _ sig => [sig]
  | .attest _ attestations =>
      match (attestations.iter : Except Err (List Json)) with
      | .ok items => items.filterMap fun ev => (ev.get "sig" : Except Err Json).toOption
      | .error _ => []
  | _ => []

def Call.namedClaim : Call → Option Json
  | .executeOpen claimId | .executeEvent claimId .. | .attest claimId _ | .supervise claimId ..
  | .abort claimId .. => some claimId
  | _ => none

/-- The DIDs in whose name a guarded call is made: the worker's, and for `supervise` and `abort`
also that of the agent who posted the task. -/
def Call.Concerns (env : Env) (db : Db) (call : Call) (did : Json) : Prop :=
  match call with
  | .upsertCapabilities workerId .. => did = workerId
  | .executeOpen claimId | .executeEvent claimId .. | .attest claimId _ =>
      ∃ c t, claimAndTask env db claimId = .ok (c, t) ∧ did = .str c.workerId
  | .supervise claimId .. | .abort claimId .. =>
      ∃ c t, claimAndTask env db claimId = .ok (c, t) ∧
        (did = .str c.workerId ∨ did = .str t.postedBy)
  | _ => False

/-- A message that names a claim or a worker. -/
def NamesIn (message : Json) (claimId : Option Json) (did : Json) : Prop :=
  (∃ id, claimId = some id ∧ message.get "claim_id" = (.ok id : Except Err Json)) ∨
    message.get "worker_id" = (.ok did : Except Err Json)

/-- A parameter of the call is a signature that verifies, under the key of a DID in whose name the
call is made, over a message that names the claim or the worker. -/
def Call.Authenticated (env : Env) (db : Db) (call : Call) : Prop :=
  ∃ did resolved message, ∃ sig ∈ call.signatures, call.Concerns env db did ∧
    resolve env did = .ok resolved ∧ NamesIn message call.namedClaim did ∧
    verify env resolved (canonical message) sig = .ok ()

theorem executeEvent_authenticated (claimId eventType timestamp payload sig : Json) :
    Ends (executeEvent env claimId eventType timestamp payload sig) w (Committed fun db =>
      w.db.SameRows db ∨
        (Call.executeEvent claimId eventType timestamp payload sig).Authenticated env w.db) := by
  unfold executeEvent
  refine readDb_bind ?_ fun e _ => Committed.of (.inl (Db.SameRows.refl _))
  rintro ⟨c, t⟩ hct
  refine Ends.require_bind ?_ fun _ => Committed.of (.inl (Db.SameRows.refl _))
  intro _
  refine Ends.lift_bind ?_ fun e _ => Committed.of (.inl (Db.SameRows.refl _))
  intro _ hverify
  obtain ⟨resolved, hresolve, hverify⟩ := eventVerify_eq_ok hverify
  refine Committed.of (.inr ⟨.str c.workerId, resolved, _, sig, List.mem_singleton_self _,
    ⟨c, t, hct, rfl⟩, hresolve, .inl ⟨claimId, rfl, rfl⟩, hverify⟩)

/-- When a guarded call changes nothing without a signature: an event always; an attestation when
it does not go through, or when an item carries a signature of the worker over a message that names
the claim or the worker; the others when they do not go through. -/
def Call.Covered (env : Env) (db : Db) : Call → Prop
  | .upsertCapabilities workerId capabilities principalId ttlSeconds =>
      ¬ db.Registers env workerId capabilities principalId ttlSeconds
  | .executeOpen claimId => ¬ db.Admits env claimId (opensFrom env claimId)
  | .supervise claimId _ _ =>
      ¬ db.Admits env claimId (movesFrom env claimId "supervision_handoff" supervisesFrom)
  | .abort claimId _ _ =>
      ¬ db.Admits env claimId (movesFrom env claimId "task_aborted" abortsFrom)
  | .attest claimId attestations =>
      db.Attests env claimId attestations →
        ∃ plan, attestPlan env db claimId attestations = .ok plan ∧
          ∃ ev ∈ plan.items, ∃ sig message, ev.get "sig" = (.ok sig : Except Err Json) ∧
            NamesIn message (some claimId) (.str plan.claim.workerId) ∧
            verify env plan.resolved (canonical message) sig = .ok ()
  | _ => True

theorem attest_authenticated_iff {db : Db} {claimId attestations : Json} {plan : AttestPlan}
    (hplan : attestPlan env db claimId attestations = .ok plan) :
    (Call.attest claimId attestations).Authenticated env db ↔
      ∃ ev ∈ plan.items, ∃ sig message, ev.get "sig" = (.ok sig : Except Err Json) ∧
        NamesIn message (some claimId) (.str plan.claim.workerId) ∧
        verify env plan.resolved (canonical message) sig = .ok () := by
  obtain ⟨hct, -, -, -, -, hresolved, hitems⟩ := attestPlan_eq_ok.1 hplan
  have hsig : ∀ sig, sig ∈ (Call.attest claimId attestations).signatures ↔
      ∃ ev ∈ plan.items, ev.get "sig" = (.ok sig : Except Err Json) := by
    intro sig
    simp only [Call.signatures, hitems, List.mem_filterMap]
    refine exists_congr fun ev => and_congr_right fun _ => ?_
    cases (ev.get "sig" : Except Err Json) <;> simp [Except.toOption]
  constructor
  · rintro ⟨did, resolved, message, sig, hmem, ⟨c, t, hct', rfl⟩, hresolve, hnames, hverify⟩
    cases hct.symm.trans hct'
    cases hresolved.symm.trans hresolve
    obtain ⟨ev, hev, hget⟩ := (hsig sig).1 hmem
    exact ⟨ev, hev, sig, message, hget, hnames, hverify⟩
  · rintro ⟨ev, hev, sig, message, hget, hnames, hverify⟩
    exact ⟨_, _, message, sig, (hsig sig).2 ⟨ev, hev, hget⟩, ⟨_, _, hct, rfl⟩, hresolved, hnames,
      hverify⟩

theorem unsigned_iff (call : Call) {applies mutated : Prop} {db : Db}
    (hguarded : call.guarded = true) (hnone : call.signatures = []) (h : mutated ↔ applies) :
    (call.guarded = true → mutated → call.Authenticated env db) ↔ ¬ applies := by
  rw [h]
  constructor
  · intro himp happlies
    obtain ⟨-, -, -, sig, hsig, -⟩ := himp hguarded happlies
    rw [hnone] at hsig
    cases hsig
  · intro hskips _ happlies
    exact absurd happlies hskips

/-- Authentication before mutation, at every state of every run: a guarded call changes rows only
under a signature of the one it is made for exactly when it is covered. -/
theorem mutation_authenticated_iff (env : Env) (workers : List WcpWorker) (calls : List Call)
    (call : Call) :
    (call.guarded = true →
      (reach env workers calls).db.Mutated (step env (reach env workers calls) call).db →
      call.Authenticated env (reach env workers calls).db) ↔
    call.Covered env (reach env workers calls).db := by
  have hwf := reach_wellFormed env workers calls
  have hclean := reach_clean env workers calls
  generalize reach env workers calls = w at hwf hclean ⊢
  cases call with
  | upsertCapabilities workerId capabilities principalId ttlSeconds =>
      exact unsigned_iff (.upsertCapabilities workerId capabilities principalId ttlSeconds) rfl rfl
        (settle_mutated_iff hwf (upsertCapabilities_settles hclean _ _ _ _))
  | executeOpen claimId =>
      exact unsigned_iff (.executeOpen claimId) rfl rfl
        (settle_mutated_iff hwf (executeOpen_settles hclean claimId))
  | supervise claimId handoffReason urgency =>
      exact unsigned_iff (.supervise claimId handoffReason urgency) rfl rfl
        (settle_mutated_iff hwf (supervise_settles hclean _ _ _))
  | abort claimId reason stateSnapshot =>
      exact unsigned_iff (.abort claimId reason stateSnapshot) rfl rfl
        (settle_mutated_iff hwf (abort_settles hwf hclean _ _ _))
  | attest claimId attestations =>
      have hmutated := settle_mutated_iff hwf (@attest_settles env w hclean claimId attestations)
      rw [Call.Covered]
      constructor
      · intro h happlies
        obtain ⟨plan, -, hplan, -⟩ := id happlies
        exact ⟨plan, hplan, (attest_authenticated_iff hplan).1 (h rfl (hmutated.2 happlies))⟩
      · intro h _ hm
        obtain ⟨plan, hplan, hsigned⟩ := h (hmutated.1 hm)
        exact (attest_authenticated_iff hplan).2 hsigned
  | executeEvent claimId eventType timestamp payload sig =>
      refine iff_of_true (fun _ hm => ?_) trivial
      have hleft : w.db.SameRows (w.settle (executeEvent env claimId eventType timestamp payload sig
          w)).db ∨ (Call.executeEvent claimId eventType timestamp payload sig).Authenticated env
            w.db :=
        settle_db (R := fun db => w.db.SameRows db ∨
          (Call.executeEvent claimId eventType timestamp payload sig).Authenticated env w.db)
          (.inl (Db.SameRows.refl _))
          (executeEvent_authenticated claimId eventType timestamp payload sig)
      exact hleft.resolve_left fun hsame => hsame.not_mutated hwf hm
  | post task expiry informational => exact iff_of_true nofun trivial
  | claim taskId workerId eta acceptance bid => exact iff_of_true nofun trivial
  | checkHeartbeats now => exact iff_of_true nofun trivial
  | createSubscription agentDid filterDict sinceRevision => exact iff_of_true nofun trivial

/-- A call of `abort` on the local claim, by whoever knows its id. -/
def localAbort : Call := .abort localClaimId (.str "changed my mind") .null

/-- The task is aborted, and nothing in the call is a signature. -/
theorem localAbort_unauthenticated :
    localAbort.guarded = true ∧
      (reach localEnv [zeroWorker] (localStart anySensor)).db.Mutated
        (step localEnv (reach localEnv [zeroWorker] (localStart anySensor)) localAbort).db ∧
      ¬ localAbort.Authenticated localEnv
        (reach localEnv [zeroWorker] (localStart anySensor)).db := by
  have hchanged : ((reach localEnv [zeroWorker] (localStart anySensor)).db.tasks.any fun t =>
      (step localEnv (reach localEnv [zeroWorker] (localStart anySensor)) localAbort).db.tasks.any
        fun t' => decide (t'.taskId = t.taskId ∧ t'.state ≠ t.state)) = true := by decide +kernel
  obtain ⟨t, ht, hany⟩ := List.any_eq_true.1 hchanged
  obtain ⟨t', ht', hcheck⟩ := List.any_eq_true.1 hany
  obtain ⟨hid, hne⟩ := of_decide_eq_true hcheck
  refine ⟨rfl, .inl ⟨t, ht, t', ht', hid, .inl hne⟩, ?_⟩
  rintro ⟨-, -, -, sig, hsig, -⟩
  cases hsig

end Wcp.Coordinator
