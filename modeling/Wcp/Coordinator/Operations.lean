import Wcp.Coordinator.Attestation
import Wcp.Coordinator.Changes
import Wcp.Coordinator.Identifiers
/-!
# Every call is a sequence of changes

One lemma per service method, each following the method's statements: a raise
before the first write changes nothing, a raise of the database rolls back, and
what is left is the change the method is for.
-/

namespace Wcp.Coordinator

open Wcp.Base
open Wcp.Base.Exec

variable {env : Env} {call : Call} {db db' : Db} {w : World} {α : Type}

/-- A transaction that has only written to other tables commits no change. -/
theorem Committed.quiet {w' : World} {r : Except Err α} (htasks : w'.db.tasks = w.db.tasks)
    (hclaims : w'.db.claims = w.db.claims) (haudit : w'.db.audit = w.db.audit) :
    Committed (Changes env call w.db) r w' :=
  Committed.of (Changes.one (.quiet htasks hclaims haudit))

theorem Committed.unchanged {w' : World} {r : Except Err α} (h : w'.db = w.db) :
    Committed (Changes env call w.db) r w' := by
  refine Committed.of ?_
  rw [h]
  exact Changes.refl

/-! ## Reading the claim -/

/-- The rows found for a claim id: the claim stored under it, and its task. -/
theorem claimAndTask_key {claimId : Json} {c : WcpClaim} {t : WcpTask}
    (h : claimAndTask env db claimId = .ok (c, t)) :
    db.Holds c t ∧ env.lookupKey "claim_id" claimId = .ok (some c.claimId) := by
  simp only [claimAndTask, Db.getClaim, bind_eq_ok] at h
  obtain ⟨found, ⟨key, hkey, hfound⟩, h⟩ := h
  cases hfound
  cases hc : key.bind db.findClaim with
  | none =>
      rw [hc] at h
      cases h
  | some c' =>
      rw [hc] at h
      dsimp only at h
      cases ht : db.findTask c'.taskId with
      | none =>
          rw [ht] at h
          cases h
      | some t' =>
          rw [ht] at h
          cases h
          obtain ⟨id, rfl, hfind⟩ := Option.bind_eq_some_iff.1 hc
          obtain ⟨hmem, rfl⟩ := findClaim_eq_some hfind
          obtain ⟨htask, hid⟩ := findTask_eq_some ht
          exact ⟨⟨hmem, htask, hid.symm⟩, hkey⟩

theorem claimAndTask_holds {claimId : Json} {c : WcpClaim} {t : WcpTask}
    (h : claimAndTask env db claimId = .ok (c, t)) :
    db.Holds c t ∧ ∀ id, env.bindNullable claimId = some id → id = some c.claimId := by
  obtain ⟨hholds, hkey⟩ := claimAndTask_key h
  exact ⟨hholds, fun id hid => bindNullable_of_lookupKey hkey hid⟩

theorem bindColumn_of_stores {eventType claimId taskId : Json} {c : WcpClaim} {t : WcpTask}
    (hct : claimAndTask env db claimId = .ok (c, t))
    (h : env.stores eventType claimId taskId = true) :
    env.bindColumn claimId = some c.claimId := by
  obtain ⟨_, claim, _, -, hclaim, -⟩ := stores_eq_true h
  exact bindColumn_of_lookupKey (claimAndTask_key hct).2 (hashable_of_bindNullable hclaim)

/-! ## Moves -/

section Moves

variable {β : Type} {P : Except Err β → World → Prop} {c : WcpClaim} {t : WcpTask}
  {claimId : Json} {name actorDid : String} {ms : List (String × Json)} {p : Progress}

/-- A method that has set the progress of a task and appends the entry that records it has
made a move, recorded or, where the entry is refused before it is sent, unrecorded. -/
theorem append_moved (call : Call) {f : AuditAppendResult → Action β} (hholds : db.Holds c t)
    (hbind : ∀ id, env.bindNullable claimId = some id → id = some c.claimId)
    (hmove : Move (t.attemptLimit env) name t.progress p)
    (hreplay : ∀ e : WcpAudit, e.eventType = name → e.payloadJson = .obj ms →
      replayEntry t.progress e = p)
    (hcall : p.state = .completed → ∃ claimId attestations, call = .attest claimId attestations)
    (hactor : moveActor c.workerId name = actorDid)
    (htasks : w.db.tasks = db.progressed t.taskId p) (hclaims : w.db.claims = db.claims)
    (haudit : w.db.audit = db.audit)
    (hsent : env.unsent claimId = true → call.claimId = claimId ∧ name ∉ coordinatorAuthored)
    (hok : ∀ r entry, env.unsent claimId = false → Change env call db (w.withEntry entry 2).db →
      Ends (f r) (w.withEntry entry 2) P)
    (herr : ∀ w', P (.error (.raised .database)) w')
    (hunsent : Change env call db w.db →
      P (.error (.raised .statement)) { w with tick := w.tick + 1 }) :
    Ends (append env (.str name) actorDid (.obj ms) claimId (.str t.taskId) none >>= f) w P := by
  refine append_bind ?_ herr ?_
  rotate_left
  · intro hu _
    obtain ⟨hnamed, hname⟩ := hsent hu
    exact hunsent (.unrecorded c t p name hholds hmove hname (hnamed ▸ hu) htasks hclaims haudit)
  intro r entry storedType claim task _ hs hc ht hentry
  have hscalar := hashable_of_bindNullable hc
  obtain rfl := bindColumn_str hs
  obtain rfl := hbind claim hc
  obtain rfl := bindNullable_str ht
  obtain ⟨prev, -, hentry⟩ := hentry
  have htype : entry.eventType = storedType := by rw [hentry, buildEntry]
  have hpayload : entry.payloadJson = .obj ms := by rw [hentry, buildEntry]
  have hclaim : entry.claimId = some c.claimId := by rw [hentry, buildEntry]
  refine hok r entry (unsent_of_hashable hscalar)
    (.moved c t p entry hholds (htype ▸ hmove) (hreplay entry htype hpayload)
    ⟨ms, hpayload⟩ hclaim hcall htasks hclaims (congrArg (· ++ [entry]) haudit) ?_)
  rw [htype, hactor, hentry]
  exact ⟨rfl, rfl⟩

end Moves

/-! ## tasks/execute -/

theorem insertSession_bind {β : Type} {P : Except Err β → World → Prop} {sessionId : String}
    {claimId : Json} {f : Unit → Action β}
    (hok : ∀ stored, env.bindColumn claimId = some stored → Ends (f ()) { w with
      db := { w.db with sessions := w.db.sessions ++ [⟨sessionId, stored⟩] } } P)
    (hdoomed : env.bindColumn claimId = none → Ends (f ()) { w with doomed := true } P) :
    Ends (insertSession env sessionId claimId >>= f) w P := by
  unfold insertSession
  split
  · next stored hstored => exact writeDb_bind (hok stored hstored)
  · next hnone => exact Ends.write_bind (hdoomed hnone)

theorem executeOpen_changes (hwf : w.db.WellFormed) (claimId : Json) :
    Ends (executeOpen env claimId) w
      (Committed (Changes env (.executeOpen claimId) w.db)) := by
  unfold executeOpen
  refine readDb_bind ?_ fun e _ => Committed.unchanged rfl
  rintro ⟨c, t⟩ hct
  obtain ⟨hholds, hbind⟩ := claimAndTask_holds hct
  refine Ends.require_bind ?_ fun _ => Committed.unchanged rfl
  intro hstate
  refine uuid4_bind (insertSession_bind ?_ fun _ => ?_)
  · intro stored hstored
    refine writeDb_bind (flush_bind (fun _ => ?_) Committed.database)
    refine append_moved (.executeOpen claimId) hholds hbind (.opened hstate) ?_ ?_
      (by simp [moveActor, coordinatorAuthored]) (updateTask_progressed hwf hholds.task rfl)
      rfl rfl ?_ ?_ (fun _ => Committed.database) fun h => Committed.of (Changes.one h)
    · intro e he _
      simp [replayEntry, he, WcpTask.progress]
    · intro hdone
      cases hdone
    · intro hunsent
      rw [unsent_of_hashable (hashable_of_bindColumn hstored)] at hunsent
      cases hunsent
    · intro r entry _ hchange
      exact Ends.pure (Committed.of (Changes.one hchange))
  · -- the id cannot be bound, so the transaction is doomed
    refine writeDb_bind (flush_bind (fun hdoomed => ?_) Committed.database)
    cases hdoomed

theorem recordHeartbeat_bind {β : Type} {P : Except Err β → World → Prop} {c : WcpClaim}
    {eventType timestamp : Json} {f : Unit → Action β}
    (hok : ∀ beat : Option DateTime → Option DateTime, Ends (f ()) { w with
      db := w.db.updateClaim c.claimId fun r =>
        { r with lastHeartbeatAt := beat r.lastHeartbeatAt } } P)
    (herr : ∀ e, P (.error e) w) (hdb : ∀ w', P (.error (.raised .database)) w') :
    Ends (recordHeartbeat env c eventType timestamp >>= f) w P := by
  apply Ends.bind
  unfold recordHeartbeat
  split
  · refine Ends.lift_bind ?_ fun e _ => herr e
    intro sentAt _
    refine writeDb_bind ?_
    unfold Ends flush
    split
    · exact hdb _
    · exact hok fun _ => some (env.storeTime sentAt)
  · -- any other event leaves the claim as it is
    have hsame : (w.db.updateClaim c.claimId fun r =>
        { r with lastHeartbeatAt := id r.lastHeartbeatAt }) = w.db := by
      simp [Db.updateClaim]
    have hends := hok id
    rw [hsame] at hends
    exact hends

/-- What an accepted event is: signed, under the key of the worker of the claim. -/
theorem eventVerify_eq_ok {c : WcpClaim} {claimId eventType timestamp payload sig : Json}
    (h : eventVerify env c claimId eventType timestamp payload sig = .ok ()) :
    ∃ resolved, resolve env (.str c.workerId) = .ok resolved ∧
      verify env resolved (eventBody claimId eventType timestamp payload) sig = .ok () := by
  rw [eventVerify, bind_eq_ok] at h
  obtain ⟨resolved, hresolve, h⟩ := h
  refine ⟨resolved, hresolve, ?_⟩
  split at h
  · cases h
  · exact h

theorem executeEvent_changes (claimId eventType timestamp payload sig : Json) :
    Ends (executeEvent env claimId eventType timestamp payload sig) w
      (Committed (Changes env (.executeEvent claimId eventType timestamp payload sig) w.db)) := by
  unfold executeEvent
  refine readDb_bind ?_ fun e _ => Committed.unchanged rfl
  rintro ⟨c, t⟩ hct
  obtain ⟨hholds, hbind⟩ := claimAndTask_holds hct
  refine Ends.require_bind ?_ fun _ => Committed.unchanged rfl
  intro hstate
  refine Ends.lift_bind ?_ fun e _ => Committed.unchanged rfl
  intro _ _
  refine recordHeartbeat_bind ?_ (fun e => Committed.unchanged rfl) fun _ => Committed.database
  intro beat
  refine append_bind ?_ (fun _ => Committed.database) ?_
  · rintro r entry storedType claim task - hs hc ht ⟨prev, -, rfl⟩
    obtain rfl := hbind claim hc
    refine Ends.pure (Committed.of (Changes.one ?_))
    exact .event c t beat _ eventType ⟨_, _, _, _, rfl⟩ hs hholds hstate rfl rfl rfl rfl
      ⟨rfl, bindNullable_str ht⟩
  · intro hunsent _
    exact Committed.of (Changes.one (.unheard c t beat hunsent hholds hstate rfl rfl rfl))

/-! ## check_heartbeats -/

/-- A row that the loop of `check_heartbeats` still has to look at: its claim is in the table
and its task is executing, or was promoted earlier in the same loop. -/
def Db.Pending (db : Db) (row : WcpClaim × WcpTask) : Prop :=
  ∃ t, db.Holds row.1 t ∧ t.taskId = row.2.taskId ∧
    (t.state = .executing ∨ t.state = .supervising)

theorem Db.Pending.progressed {row : WcpClaim × WcpTask} {id : String} {used : Nat}
    (h : db.Pending row) (hclaims : db'.claims = db.claims)
    (htasks : db'.tasks = db.progressed id ⟨.supervising, used⟩) : db'.Pending row := by
  obtain ⟨t, ⟨hc, ht, hsame⟩, hid, hstate⟩ := h
  by_cases hrow : t.taskId = id
  · refine ⟨t.withProgress ⟨.supervising, used⟩, ⟨hclaims ▸ hc, ?_, hsame⟩, hid, .inr rfl⟩
    rw [htasks, mem_progressed]
    exact .inl ⟨t, ht, hrow, rfl⟩
  · refine ⟨t, ⟨hclaims ▸ hc, ?_, hsame⟩, hid, hstate⟩
    rw [htasks, mem_progressed]
    exact .inr ⟨ht, hrow⟩

theorem Committed.trans {w₁ w' : World} {r : Except Err α} (h : Changes env call db w₁.db)
    (h' : Committed (Changes env call w₁.db) r w') : Committed (Changes env call db) r w' :=
  fun hr hw => Relation.ReflTransGen.trans h (h' hr hw)

theorem promoteStale_changes (call : Call) {cutoff : DateTime} {rows : List (WcpClaim × WcpTask)}
    (hwf : w.db.WellFormed) (hrows : ∀ row ∈ rows, w.db.Pending row) :
    Ends (promoteStale env cutoff rows) w (Committed (Changes env call w.db)) := by
  induction rows generalizing w with
  | nil => exact Committed.unchanged rfl
  | cons row rows ih =>
      obtain ⟨c, task⟩ := row
      have hrest := fun row hrow => hrows row (List.mem_cons_of_mem _ hrow)
      unfold promoteStale
      cases hhb : c.lastHeartbeatAt with
      | none => exact ih hwf hrest
      | some hb =>
          refine Ends.lift_bind ?_ fun e _ => Committed.unchanged rfl
          intro stale _
          cases stale with
          | false => exact ih hwf hrest
          | true =>
              obtain ⟨t, hholds, hid, hstate⟩ := hrows _ List.mem_cons_self
              dsimp only at hholds hid
              rw [if_pos rfl, ← hid]
              refine writeDb_bind ?_
              rw [← hid]
              refine append_moved call hholds ?_ (.timedOut hstate) ?_ ?_
                (by simp [moveActor, coordinatorAuthored])
                (updateTask_progressed hwf hholds.task rfl) rfl rfl (by simp) ?_
                (fun _ => Committed.database) fun h => Committed.of (Changes.one h)
              · exact fun id hid => bindNullable_str hid
              · intro e he _
                simp [replayEntry, he, WcpTask.progress]
              · intro hdone
                cases hdone
              · intro r entry _ hchange
                apply Ends.bind
                refine Ends.mono (ih (hchange.wellFormed hwf) fun row hrow =>
                  (hrest row hrow).progressed rfl (updateTask_progressed hwf hholds.task rfl)) ?_
                rintro (e | ids) w' hw'
                · exact Committed.trans (Changes.one hchange) hw'
                · exact Ends.pure (Committed.trans (Changes.one hchange) hw'.returned)

theorem executingRows_pending {row : WcpClaim × WcpTask} (h : row ∈ db.executingRows) :
    db.Pending row := by
  unfold Db.executingRows at h
  obtain ⟨c, hc, hrow⟩ := List.mem_filterMap.1 h
  cases ht : db.findTask c.taskId with
  | none => simp [ht] at hrow
  | some t =>
      rw [ht] at hrow
      dsimp only at hrow
      obtain ⟨htask, hid⟩ := findTask_eq_some ht
      by_cases hstate : t.state = .executing
      · rw [if_pos hstate] at hrow
        cases hrow
        exact ⟨t, ⟨hc, htask, hid.symm⟩, rfl, .inl hstate⟩
      · rw [if_neg hstate] at hrow
        cases hrow

theorem checkHeartbeats_changes (hwf : w.db.WellFormed) (now : Option DateTime) :
    Ends (checkHeartbeats env now) w
      (Committed (Changes env (.checkHeartbeats now) w.db)) := by
  have hbody : ∀ (at' : DateTime) (w' : World), w'.db = w.db → Ends (do
      let cutoff ← Exec.lift (at'.minus (heartbeatSeconds * missedHeartbeats * 1000000))
      let staleRows ← readDb fun db => Except.ok db.executingRows
      promoteStale env cutoff staleRows) w'
        (Committed (Changes env (.checkHeartbeats now) w.db)) := by
    intro at' w' hdb
    refine Ends.lift_bind ?_ fun e _ => Committed.unchanged hdb
    intro cutoff _
    refine readDb_bind ?_ fun e he => by cases he
    intro rows hrows
    cases hrows
    rw [← hdb]
    exact promoteStale_changes _ (hdb ▸ hwf) fun row hrow => executingRows_pending hrow
  unfold checkHeartbeats
  cases now with
  | none => exact utcnow_bind (hbody _ _ rfl)
  | some at' => exact hbody at' w rfl

/-! ## tasks/attest -/

theorem routeDecision_changes (attestations : Json) {claimId : Json} {c : WcpClaim} {t : WcpTask}
    {attempt : Nat} {remaining limit : Int} {accountingRef : Json} {aggregate : VerificationOutcome}
    (hwf : w.db.WellFormed) (hholds : w.db.Holds c t)
    (hbind : ∀ id, env.bindNullable claimId = some id → id = some c.claimId)
    (hsent : env.unsent claimId = false)
    (hstate : t.progress = ⟨.attesting, attempt⟩) (hlimit : maxAttempts env t.taskJson = .ok limit)
    (hremaining : remaining = max 0 (limit - attempt)) :
    Ends (routeDecision env t claimId attempt remaining accountingRef aggregate) w
      (Committed (Changes env (.attest claimId attestations) w.db)) := by
  have hlim : t.attemptLimit env = limit := by rw [WcpTask.attemptLimit, hlimit]
  have hused : t.attestationAttemptsUsed = attempt := congrArg Progress.used hstate
  have hrow (s : TaskState) : (w.db.updateTask t.taskId fun r => { r with state := s }).tasks =
      w.db.progressed t.taskId ⟨s, attempt⟩ :=
    updateTask_progressed hwf hholds.task (by rw [← hused]; rfl)
  unfold routeDecision
  split
  · refine writeDb_bind ?_
    refine append_moved (.attest claimId attestations) hholds hbind (hstate ▸ .completed) ?_ ?_
      (by simp [moveActor, coordinatorAuthored]) (hrow _) rfl rfl (by simp [hsent]) ?_
      (fun _ => Committed.database) fun h => Committed.of (Changes.one h)
    · intro e he _
      simp [replayEntry, he, hstate]
    · exact fun _ => ⟨_, _, rfl⟩
    · intro r entry _ hchange
      exact Ends.pure (Committed.of (Changes.one hchange))
  · split
    · next hleft =>
        refine writeDb_bind ?_
        refine append_moved (.attest claimId attestations) hholds hbind
          (hstate ▸ .rechecked (by omega)) ?_ ?_ (by simp [moveActor, coordinatorAuthored])
          (hrow _) rfl rfl (by simp [hsent]) ?_ (fun _ => Committed.database)
          fun h => Committed.of (Changes.one h)
        · intro e he _
          simp [replayEntry, he, hstate]
        · intro hdone
          cases hdone
        · intro r entry _ hchange
          exact Ends.pure (Committed.of (Changes.one hchange))
    · next hleft =>
        refine writeDb_bind ?_
        refine append_moved (.attest claimId attestations) hholds hbind
          (hstate ▸ .voided (by omega)) ?_ ?_ (by simp [moveActor, coordinatorAuthored])
          (hrow _) rfl rfl (by simp [hsent]) ?_ (fun _ => Committed.database)
          fun h => Committed.of (Changes.one h)
        · intro e he _
          simp [replayEntry, he, hstate]
        · intro hdone
          cases hdone
        · intro r entry _ hchange
          exact Ends.pure (Committed.of (Changes.one hchange))
  · exact Ends.pure (Committed.unchanged rfl)

theorem attestCheckState_eq_ok {t : WcpTask} (h : attestCheckState t = .ok ()) :
    t.state = .executing ∨ t.state = .supervising ∨ t.state = .rechecking := by
  simp only [attestCheckState, bind_eq_ok, ensure_eq_ok] at h
  obtain ⟨_, -, h⟩ := h
  exact h

theorem routeDecision_congr {t t' : WcpTask} (h : t.taskId = t'.taskId) :
    routeDecision env t = routeDecision env t' := by
  funext claimId attempt remaining accountingRef aggregate
  simp only [routeDecision, setState, h]

theorem attestWrites_changes {claimId attestations : Json} {plan : AttestPlan}
    {aggregate : VerificationOutcome} {w' : World} (hwf : w.db.WellFormed)
    (hplan : attestPlan env w.db claimId attestations = .ok plan)
    (htasks : w'.db.tasks = w.db.tasks) (hclaims : w'.db.claims = w.db.claims)
    (haudit : w'.db.audit = w.db.audit) :
    Ends (attestWrites env plan claimId aggregate) w'
      (Committed (Changes env (.attest claimId attestations) w.db)) := by
  obtain ⟨hct, hstate, hreq, -, hlimit, -, -⟩ := attestPlan_eq_ok.1 hplan
  obtain ⟨hholds, hbind⟩ := claimAndTask_holds hct
  obtain ⟨ms, hms, -⟩ := getD_eq_ok hreq
  have hrow : (w'.db.updateTask plan.task.taskId fun r => { r with
      attestationAttemptsUsed := r.attestationAttemptsUsed + 1, state := .attesting }).tasks =
      w.db.progressed plan.task.taskId ⟨.attesting, plan.task.attestationAttemptsUsed + 1⟩ := by
    unfold Db.updateTask
    rw [htasks]
    exact updateTask_progressed hwf hholds.task rfl
  unfold attestWrites
  refine writeDb_bind ?_
  refine append_moved (.attest claimId attestations) hholds hbind
    (.attempted (attestCheckState_eq_ok hstate)) ?_ ?_ (by simp [moveActor, coordinatorAuthored])
    hrow hclaims haudit (fun _ => ⟨rfl, by simp [coordinatorAuthored]⟩) ?_
    (fun _ => Committed.database) fun h => Committed.of (Changes.one h)
  · intro e he hpayload
    simp [replayEntry, he, WcpAudit.payloadMember, hpayload, List.lookup_cons, Json.asInt,
      WcpTask.progress]
  · intro hdone
    cases hdone
  · intro r entry hsent hchange
    refine Ends.lift_bind ?_ ?_
    · intro accountingRef _
      -- the row as the attempt left it
      let t := plan.task.withProgress ⟨.attesting, plan.task.attestationAttemptsUsed + 1⟩
      rw [routeDecision_congr (show plan.task.taskId = t.taskId from rfl)]
      apply Ends.bind
      refine Ends.mono (routeDecision_changes attestations (hchange.wellFormed hwf)
        (c := plan.claim) ⟨?_, ?_, hholds.same⟩ hbind hsent rfl hlimit rfl) ?_
      · exact hclaims ▸ hholds.claim
      · show t ∈ (w'.db.updateTask _ _).tasks
        rw [hrow, mem_progressed]
        exact .inl ⟨plan.task, hholds.task, rfl, rfl⟩
      · rintro (e | u) w₂ hw₂
        · exact Committed.trans (Changes.one hchange) hw₂.raised
        · refine flush_bind (fun _ => Ends.pure ?_) Committed.database
          exact Committed.trans (Changes.one hchange) hw₂.returned
    · intro e he
      simp [hms, Json.get, Json.getD] at he

theorem attest_changes (hwf : w.db.WellFormed) (claimId attestations : Json) :
    Ends (attest env claimId attestations) w
      (Committed (Changes env (.attest claimId attestations) w.db)) := by
  refine attest_ends (fun e _ => Committed.unchanged rfl) ?_ ?_
  · rintro plan e w' - - ⟨⟨added, hdb, -⟩, -⟩
    exact Committed.quiet (by rw [hdb]) (by rw [hdb]) (by rw [hdb])
  · rintro plan aggregate w' hplan - ⟨⟨added, hdb, -⟩, -⟩
    exact attestWrites_changes hwf hplan (by rw [hdb]) (by rw [hdb]) (by rw [hdb])

/-! ## tasks/supervise and tasks/abort -/

theorem supervisedState_ne_completed (s : TaskState) : supervisedState s ≠ .completed := by
  unfold supervisedState
  split <;> simp

theorem supervise_changes (hwf : w.db.WellFormed) (claimId handoffReason urgency : Json) :
    Ends (supervise env claimId handoffReason urgency) w
      (Committed (Changes env (.supervise claimId handoffReason urgency) w.db)) := by
  unfold supervise
  refine readDb_bind ?_ fun e _ => Committed.unchanged rfl
  rintro ⟨c, t⟩ hct
  obtain ⟨hholds, hbind⟩ := claimAndTask_holds hct
  refine Ends.require_bind ?_ fun _ => Committed.unchanged rfl
  intro hstate
  refine writeDb_bind (flush_bind (fun _ => uuid4_bind ?_) Committed.database)
  refine append_moved (.supervise claimId handoffReason urgency) hholds hbind (.handedOver hstate)
    ?_ ?_ (by simp [moveActor, coordinatorAuthored]) (updateTask_progressed hwf hholds.task rfl)
    rfl rfl (fun _ => ⟨rfl, by simp [coordinatorAuthored]⟩) ?_ (fun _ => Committed.database)
    fun h => Committed.of (Changes.one h)
  · intro e he hpayload
    simp [replayEntry, he, WcpAudit.payloadMember, hpayload, List.lookup_cons, WcpTask.progress]
  · intro hdone
    exact absurd hdone (supervisedState_ne_completed _)
  · intro r entry _ hchange
    exact Ends.pure (Committed.of (Changes.one hchange))

theorem abort_changes (hwf : w.db.WellFormed) (claimId reason stateSnapshot : Json) :
    Ends (abort env claimId reason stateSnapshot) w
      (Committed (Changes env (.abort claimId reason stateSnapshot) w.db)) := by
  unfold abort
  refine readDb_bind ?_ fun e _ => Committed.unchanged rfl
  rintro ⟨c, t⟩ hct
  obtain ⟨hholds, hbind⟩ := claimAndTask_holds hct
  obtain ⟨ms, hms⟩ := hwf.descriptors t hholds.task
  refine Ends.require_bind ?_ fun _ => Committed.unchanged rfl
  intro hstate
  refine writeDb_bind (Ends.lift_bind ?_ ?_)
  · intro accountingRef _
    refine flush_bind (fun _ => ?_) Committed.database
    refine append_moved (.abort claimId reason stateSnapshot) hholds hbind (.aborted hstate) ?_ ?_
      (by simp [moveActor, coordinatorAuthored]) (updateTask_progressed hwf hholds.task rfl)
      rfl rfl (fun _ => ⟨rfl, by simp [coordinatorAuthored]⟩) ?_ (fun _ => Committed.database)
      fun h => Committed.of (Changes.one h)
    · intro e he _
      simp [replayEntry, he, WcpTask.progress]
    · intro hdone
      cases hdone
    · intro r entry _ hchange
      exact uuid4_bind (Ends.pure (Committed.of (Changes.one hchange)))
  · -- the descriptor is an object, so reading a member of it does not raise
    intro e he
    simp [hms, Json.get, Json.getD] at he

/-! ## tasks/post -/

/-- Whether the row of a posted task can be inserted. -/
def PostPlan.insertable (env : Env) (db : Db) (plan : PostPlan) : Bool :=
  match env.bindColumn plan.taskId, env.bindColumn (.str plan.postedBy),
      env.bindColumn (plan.descriptorType.or (.str "unknown")) with
  | some taskId, some _, some _ => (db.findTask taskId).isNone
  | _, _, _ => false

/-- The insertion succeeds with a fresh row, or the database refuses it. -/
theorem insertTask_cases (env : Env) (plan : PostPlan) (postedAt : DateTime) (w : World) :
    (plan.insertable env w.db = false ∧
        insertTask env plan postedAt w = (.error (.raised .database), w)) ∨
      plan.insertable env w.db = true ∧
        ∃ row : WcpTask, env.bindColumn plan.taskId = some row.taskId ∧
          row.taskJson = plan.task ∧ row.progress = ⟨.posted, 0⟩ ∧
          w.db.findTask row.taskId = none ∧
          insertTask env plan postedAt w =
            (.ok (), { w with db := { w.db with tasks := w.db.tasks ++ [row] } }) := by
  unfold insertTask PostPlan.insertable
  rcases env.bindColumn plan.taskId with _ | taskId
  · exact .inl ⟨rfl, rfl⟩
  rcases env.bindColumn (.str plan.postedBy) with _ | _
  · exact .inl ⟨rfl, rfl⟩
  rcases env.bindColumn (plan.descriptorType.or (.str "unknown")) with _ | descriptorType
  · exact .inl ⟨rfl, rfl⟩
  dsimp only
  cases hrow : w.db.findTask taskId with
  | some row => exact .inl ⟨rfl, rfl⟩
  | none => exact .inr ⟨rfl, _, rfl, rfl, rfl, hrow, rfl⟩

theorem insertTask_bind {β : Type} {P : Except Err β → World → Prop} {plan : PostPlan}
    {postedAt : DateTime} {f : Unit → Action β}
    (hok : ∀ row : WcpTask, plan.insertable env w.db = true →
      env.bindColumn plan.taskId = some row.taskId → row.taskJson = plan.task →
      row.progress = ⟨.posted, 0⟩ → w.db.findTask row.taskId = none → Ends (f ()) { w with
        db := { w.db with tasks := w.db.tasks ++ [row] } } P)
    (herr : plan.insertable env w.db = false → P (.error (.raised .database)) w) :
    Ends (insertTask env plan postedAt >>= f) w P := by
  apply Ends.bind
  unfold Ends
  rcases insertTask_cases env plan postedAt w with
    ⟨hno, h⟩ | ⟨hyes, row, hid, hjson, hprogress, hfresh, h⟩
  · rw [h]
    exact herr hno
  · rw [h]
    exact hok row hyes hid hjson hprogress hfresh

theorem resolveOrRefuse_eq_ok {label : String} {did : Json} {r : ResolvedDID}
    (h : resolveOrRefuse env label did = .ok r) : resolve env did = .ok r := by
  unfold resolveOrRefuse at h
  split at h
  · cases h
  · exact h

theorem postChecks_resolves {fresh : String} {task expiry : Json} {plan : PostPlan}
    (h : postChecks env fresh task expiry = .ok plan) : Resolves env plan.postedBy := by
  simp only [postChecks, bind_eq_ok] at h
  obtain ⟨_, -, _, -, _, -, _, -, _, -, _, -, _, -, _, -, _, -, _, -, _, -, _, -, resolved,
    hresolved, _, -, h⟩ := h
  cases h
  have hresolve := resolveOrRefuse_eq_ok hresolved
  exact ⟨resolved, resolve_text hresolve ▸ hresolve⟩

theorem post_changes (task expiry informational : Json) :
    Ends (post env task expiry informational) w
      (Committed (Changes env (.post task expiry informational) w.db)) := by
  unfold post
  refine uuid4_bind (Ends.lift_bind ?_ fun e _ => Committed.unchanged rfl)
  intro plan hplan
  obtain ⟨ms, hms, -⟩ := postChecks_valid hplan
  refine utcnow_bind (insertTask_bind ?_ fun _ => Committed.database)
  intro row _ hid hjson hprogress hfresh
  refine Ends.lift_bind ?_ ?_
  · intro accountingRef _
    refine append_bind ?_ (fun _ => Committed.database) (by simp)
    intro r entry storedType stored task' _ _ hnull htask hentry
    obtain ⟨prev, -, hentry⟩ := hentry
    have hauthor : entry.AuthoredBy plan.postedBy row.taskId := by
      rw [bindNullable_of_bindColumn hid] at htask
      rw [hentry, ← Option.some.inj htask]
      exact ⟨rfl, rfl⟩
    have hclaim : entry.claimId = none := by
      rw [hentry, buildEntry]
      simpa [Driver.bindNullable] using hnull.symm
    have hposted : Changes env (.post task expiry informational) w.db
        { w.db with tasks := w.db.tasks ++ [row], audit := w.db.audit ++ [entry] } :=
      Changes.one (.posted row entry ⟨_, _, _, plan, hplan, hjson⟩ hprogress hfresh hclaim
        rfl rfl rfl ⟨hauthor.actorDid ▸ postChecks_resolves hplan, rfl, hauthor.taskId⟩)
    refine readDb_bind ?_ fun e _ => Committed.of hposted
    intro eligible _
    exact Ends.pure (Committed.of hposted)
  · intro e he
    simp [hms, Json.get, Json.getD] at he

/-! ## tasks/claim -/

theorem claimLoadTask_eq_ok {taskId : Json} {t : WcpTask}
    (h : claimLoadTask env db taskId = .ok t) :
    env.lookupKey "task_id" taskId = .ok (some t.taskId) ∧ t ∈ db.tasks ∧ t.state = .posted := by
  simp only [claimLoadTask, Db.getTask, bind_eq_ok] at h
  obtain ⟨found, ⟨key, hkey, hfound⟩, h⟩ := h
  cases hfound
  cases ht : key.bind db.findTask with
  | none =>
      rw [ht] at h
      cases h
  | some t' =>
      rw [ht] at h
      simp only [bind_eq_ok, ensure_eq_ok] at h
      obtain ⟨_, hstate, h⟩ := h
      cases h
      obtain ⟨id, rfl, hfind⟩ := Option.bind_eq_some_iff.1 ht
      obtain ⟨hmem, rfl⟩ := findTask_eq_some hfind
      exact ⟨hkey, hmem, hstate⟩

/-- The worker of a claim request is the row stored under the requested id. -/
theorem claimLoadWorker_eq_ok {t : WcpTask} {workerId : Json} {worker : WcpWorker}
    (h : claimLoadWorker env db t workerId = .ok worker) :
    env.lookupKey "worker_id" workerId = .ok (some worker.workerId) ∧ worker ∈ db.workers := by
  simp only [claimLoadWorker, Db.getWorker, bind_eq_ok] at h
  obtain ⟨found, ⟨key, hkey, hfound⟩, h⟩ := h
  cases hfound
  cases hw : key.bind db.findWorker with
  | none =>
      rw [hw] at h
      cases h
  | some row =>
      rw [hw] at h
      dsimp only at h
      obtain rfl : worker = row := by
        split at h
        · simp only [bind_eq_ok] at h
          obtain ⟨_, -, _, -, _, -, _, -, h⟩ := h
          exact (Except.ok.inj h).symm
        · exact (Except.ok.inj h).symm
      obtain ⟨id, rfl, hfind⟩ := Option.bind_eq_some_iff.1 hw
      have hid : worker.workerId = id := by simpa using List.find?_some hfind
      exact ⟨by rw [hid, hkey], List.mem_of_find?_eq_some hfind⟩

/-- What an accepted acceptance is: signed, under the key of the worker it names. -/
theorem claimVerifyAcceptance_eq_ok {taskId workerId eta acceptance bid : Json}
    {resolved : ResolvedDID}
    (h : claimVerifyAcceptance env taskId workerId eta acceptance bid = .ok resolved) :
    ∃ sig payloadHash signedAt, acceptance.get "sig" = (.ok sig : Except Err Json) ∧
      acceptance.get "payload_hash" = (.ok payloadHash : Except Err Json) ∧
      acceptance.get "signed_at" = (.ok signedAt : Except Err Json) ∧
      resolve env workerId = .ok resolved ∧
      verify env resolved (claimBody taskId workerId eta bid payloadHash signedAt) sig =
        .ok () := by
  simp only [claimVerifyAcceptance, bind_eq_ok] at h
  obtain ⟨sig, hsig, payloadHash, hhash, signedAt, hsigned, _, -, h⟩ := h
  refine ⟨sig, payloadHash, signedAt, hsig, hhash, hsigned, ?_⟩
  split at h
  · cases h
  · cases h
  · simp only [bind_eq_ok] at h
    obtain ⟨r, hr, _, hverify, h⟩ := h
    cases h
    exact ⟨hr, hverify⟩

/-- The claim is inserted under a fresh id and the task moves on, or the database refuses. -/
theorem claimWrite_cases (env : Env) (t : WcpTask) (worker : WcpWorker) (eta : DateTime)
    (acceptanceAttestation bid : Json) (now : DateTime) (claimId : String) (w : World) :
    claimWrite env t worker eta acceptanceAttestation bid now claimId w =
        (.error (.raised .database), w) ∨
      ∃ c : WcpClaim, c.claimId = claimId ∧ c.taskId = t.taskId ∧ c.accepted = true ∧
        c.workerId = worker.workerId ∧ w.db.findClaim claimId = none ∧
        claimWrite env t worker eta acceptanceAttestation bid now claimId w =
          (.ok (), { w with db := { w.db.updateTask t.taskId fun r => { r with state := .claimed }
            with claims := w.db.claims ++ [c] } }) := by
  unfold claimWrite
  split
  · exact .inl rfl
  · by_cases hfresh : (w.db.findClaim claimId).isSome = true
    · exact .inl (if_pos hfresh)
    · exact .inr ⟨_, rfl, rfl, rfl, rfl, by simpa using hfresh, if_neg hfresh⟩

theorem claimWrite_bind {β : Type} {P : Except Err β → World → Prop} {t : WcpTask}
    {worker : WcpWorker} {eta now : DateTime} {acceptanceAttestation bid : Json} {claimId : String}
    {f : Unit → Action β}
    (hok : ∀ c : WcpClaim, c.claimId = claimId → c.taskId = t.taskId → c.accepted = true →
      c.workerId = worker.workerId → w.db.findClaim claimId = none → Ends (f ()) { w with
        db := { w.db.updateTask t.taskId fun r => { r with state := .claimed }
          with claims := w.db.claims ++ [c] } } P)
    (herr : ∀ w', P (.error (.raised .database)) w') :
    Ends (claimWrite env t worker eta acceptanceAttestation bid now claimId >>= f) w P := by
  apply Ends.bind
  unfold Ends
  rcases claimWrite_cases env t worker eta acceptanceAttestation bid now claimId w with
    h | ⟨c, hid, hsame, haccepted, hworker, hfresh, h⟩
  · rw [h]
    exact herr w
  · rw [h]
    exact hok c hid hsame haccepted hworker hfresh

theorem claim_changes (hwf : w.db.WellFormed) (taskId workerId eta acceptance bid : Json) :
    Ends (claim env taskId workerId eta acceptance bid) w
      (Committed (Changes env (.claim taskId workerId eta acceptance bid) w.db)) := by
  unfold claim
  refine readDb_bind ?_ fun e _ => Committed.unchanged rfl
  intro t ht
  obtain ⟨htaskKey, ht, hposted⟩ := claimLoadTask_eq_ok ht
  refine utcnow_bind (Ends.lift_bind ?_ fun e _ => Committed.unchanged rfl)
  intro _ _
  refine readDb_bind ?_ fun e _ => Committed.unchanged rfl
  intro worker hload
  refine Ends.lift_bind ?_ fun e _ => Committed.unchanged rfl
  intro resolved haccept
  obtain ⟨-, -, -, -, -, -, hresolve, -⟩ := claimVerifyAcceptance_eq_ok haccept
  have hdid : worker.workerId = resolved.did :=
    lookupKey_text (resolve_text hresolve ▸ (claimLoadWorker_eq_ok hload).1)
  refine readDb_bind ?_ fun e _ => Committed.unchanged rfl
  intro _ _
  refine Ends.lift_bind ?_ fun e _ => Committed.unchanged rfl
  intro etaTime _
  refine utcnow_bind (uuid4_bind (claimWrite_bind ?_ fun _ => Committed.database))
  intro c hid hsame haccepted hworker hfresh
  rw [← hid] at hfresh ⊢
  refine append_bind ?_ (fun _ => Committed.database) (by simp)
  intro r entry storedType stored task' _ htype hclaim htask hentry
  obtain ⟨prev, -, hentry⟩ := hentry
  have hstored := bindNullable_str hclaim
  have hname : entry.eventType = "task_claimed" := by
    rw [hentry, buildEntry]
    exact bindColumn_str htype
  have hentryClaim : entry.claimId = some c.claimId := by
    rw [hentry, buildEntry]
    exact hstored
  have hne : c.claimId ≠ "" := hid ▸ env.uuid_ne_empty _
  have hbinds : env.bindText (.str c.claimId) = some c.claimId := by
    rw [hstored] at hclaim
    simpa [Driver.bindNullable] using hclaim
  refine Ends.pure (Committed.of (Changes.one ?_))
  refine .claimed t c entry ht hposted hfresh hsame haccepted hne hbinds hname hentryClaim
    (updateTask_progressed hwf ht rfl) rfl rfl ?_
  have htask := bindNullable_of_lookupKey htaskKey htask
  rw [hworker, hdid, hentry, htask]
  exact ⟨⟨resolved, resolve_text hresolve ▸ hresolve⟩, rfl, rfl⟩

/-! ## Capabilities -/

/-- The lifecycle tables are those of an earlier state. -/
def Db.SameLifecycle (db db' : Db) : Prop :=
  db'.tasks = db.tasks ∧ db'.claims = db.claims ∧ db'.audit = db.audit

theorem Committed.sameLifecycle {w' : World} {r : Except Err α}
    (h : w.db.SameLifecycle w'.db) : Committed (Changes env call w.db) r w' :=
  Committed.quiet h.1 h.2.1 h.2.2

theorem storeWorker_sameLifecycle {existing : Option WcpWorker} {did : String}
    {workerClass : WorkerClass} {capabilities principalId ttlSeconds : Json} {asOf : DateTime} :
    Ends (storeWorker env existing did workerClass capabilities principalId ttlSeconds asOf) w
      fun _ w' => w.db.SameLifecycle w'.db := by
  unfold storeWorker
  split
  · refine writeDb_bind ?_
    unfold Ends flush
    split <;> exact ⟨rfl, rfl, rfl⟩
  · exact ⟨rfl, rfl, rfl⟩
  · exact ⟨rfl, rfl, rfl⟩
  · exact ⟨rfl, rfl, rfl⟩

theorem upsertCapabilities_changes (workerId capabilities principalId ttlSeconds : Json) :
    Ends (upsertCapabilities env workerId capabilities principalId ttlSeconds) w
      (Committed (Changes env
        (.upsertCapabilities workerId capabilities principalId ttlSeconds) w.db)) := by
  unfold upsertCapabilities
  refine Ends.lift_bind ?_ fun e _ => Committed.unchanged rfl
  intro resolved _
  refine Ends.lift_bind ?_ fun e _ => Committed.unchanged rfl
  intro schemaVersion _
  refine Ends.require_bind ?_ fun _ => Committed.unchanged rfl
  intro _
  refine Ends.lift_bind ?_ fun e _ => Committed.unchanged rfl
  intro workerClassStr _
  refine Ends.lift_bind ?_ fun e _ => Committed.unchanged rfl
  intro workerClass _
  refine readDb_bind ?_ fun e _ => Committed.unchanged rfl
  intro existing _
  refine utcnow_bind (Ends.bind (Ends.mono storeWorker_sameLifecycle ?_))
  rintro (e | u) w' hw'
  · exact Committed.sameLifecycle hw'
  · exact Ends.pure (Committed.sameLifecycle hw')

theorem createSubscription_changes (agentDid filterDict sinceRevision : Json) :
    Ends (createSubscription env agentDid filterDict sinceRevision) w
      (Committed (Changes env (.createSubscription agentDid filterDict sinceRevision) w.db)) := by
  unfold createSubscription
  refine Ends.lift_bind ?_ fun e _ => Committed.unchanged rfl
  intro resolved _
  refine uuid4_bind ?_
  split
  · refine writeDb_bind (flush_bind (fun _ => ?_) Committed.database)
    exact Ends.pure (Committed.sameLifecycle ⟨rfl, rfl, rfl⟩)
  · refine Ends.write_bind (flush_bind (fun _ => ?_) Committed.database)
    exact Ends.pure (Committed.sameLifecycle ⟨rfl, rfl, rfl⟩)

/-! ## Steps and runs -/

theorem step_changes (env : Env) (hwf : w.db.WellFormed) (call : Call) :
    Changes env call w.db (step env w call).db := by
  cases call with
  | post task expiry informational =>
      exact settle_db Changes.refl (post_changes task expiry informational)
  | claim taskId workerId eta acceptance bid =>
      exact settle_db Changes.refl (claim_changes hwf taskId workerId eta acceptance bid)
  | executeOpen claimId => exact settle_db Changes.refl (executeOpen_changes hwf claimId)
  | executeEvent claimId eventType timestamp payload sig =>
      exact settle_db Changes.refl (executeEvent_changes claimId eventType timestamp payload sig)
  | checkHeartbeats now => exact settle_db Changes.refl (checkHeartbeats_changes hwf now)
  | attest claimId attestations =>
      exact settle_db Changes.refl (attest_changes hwf claimId attestations)
  | supervise claimId handoffReason urgency =>
      exact settle_db Changes.refl (supervise_changes hwf claimId handoffReason urgency)
  | abort claimId reason stateSnapshot =>
      exact settle_db Changes.refl (abort_changes hwf claimId reason stateSnapshot)
  | upsertCapabilities workerId capabilities principalId ttlSeconds =>
      exact settle_db Changes.refl
        (upsertCapabilities_changes workerId capabilities principalId ttlSeconds)
  | createSubscription agentDid filterDict sinceRevision =>
      exact settle_db Changes.refl (createSubscription_changes agentDid filterDict sinceRevision)

theorem step_doomed (env : Env) (w : World) (call : Call) : (step env w call).doomed = false := by
  cases call <;> exact settle_doomed _ _

theorem reach_clean (env : Env) (workers : List WcpWorker) (calls : List Call) :
    (reach env workers calls).doomed = false := by
  refine @run_invariant _ _ (step env) (fun w => w.doomed = false) (fun _ => True) ?_
    (initial workers) calls rfl fun _ _ => trivial
  exact fun w call _ _ => step_doomed env w call

theorem initial_wellFormed (workers : List WcpWorker) : (initial workers).db.WellFormed :=
  ⟨List.nodup_nil, List.nodup_nil, fun _ ht => absurd ht List.not_mem_nil⟩

/-- An invariant that every change of an admissible call keeps holds in every state that
admissible calls reach from a well-formed one. -/
theorem run_changes_invariant {Inv : Db → Prop} {Ok : Call → Prop}
    (hchange : ∀ call db db', Ok call → db.WellFormed → Change env call db db' → Inv db → Inv db')
    {w : World} {calls : List Call} (hwf : w.db.WellFormed) (hinit : Inv w.db)
    (hok : ∀ call ∈ calls, Ok call) :
    (run (step env) w calls).db.WellFormed ∧ Inv (run (step env) w calls).db := by
  refine @run_invariant _ _ _ (fun w : World => w.db.WellFormed ∧ Inv w.db) Ok ?_ _ _
    ⟨hwf, hinit⟩ hok
  rintro w call ⟨hwf, hinv⟩ hcall
  have hsteps := step_changes env hwf call
  refine ⟨hsteps.wellFormed hwf, hsteps.invariant hwf hinv ?_⟩
  exact fun db db' hdb hstep => hchange call db db' hcall hdb hstep

end Wcp.Coordinator
