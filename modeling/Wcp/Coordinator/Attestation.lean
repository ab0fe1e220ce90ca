import Wcp.Coordinator.Transactions
/-!
# An attestation, read before written

`attest` computes everything it decides from the database it finds and then
writes.  `attestPlan` is what it reads, `verdicts` what the evidence loop
computes, `aggregate` the decision; `attest_ends` says that the method is these
three followed by `attestWrites`, with the rows of the loop as the only writes
before the decision.
-/

namespace Wcp.Coordinator

open Wcp.Base
open Wcp.Base.Exec

variable (env : Env)

/-- What `attest` has read when it enters the evidence loop. -/
structure AttestPlan where
  claim : WcpClaim
  task : WcpTask
  requirement : Json
  taskPayload : Json
  limit : Int
  resolved : ResolvedDID
  items : List Json

/-- The reads of `attest`. -/
def attestPlan (db : Db) (claimId attestations : Json) : Except Err AttestPlan := do
  let (claim, task) ← claimAndTask env db claimId
  attestCheckState task
  let requirement ← task.taskJson.getD "attestation_requirement" (.obj [])
  let taskPayload ← task.taskJson.getD "descriptor_payload" (.obj [])
  let limit ← maxAttempts env task.taskJson
  let resolved ← resolve env (.str claim.workerId)
  let items ← attestations.iter
  return ⟨claim, task, requirement, taskPayload, limit, resolved, items⟩

namespace AttestPlan

variable (plan : AttestPlan) (claimId : Json)

/-- The verdict on one evidence item. -/
def judge (ev : Json) : Except Err EvidenceVerdict :=
  judgeEvidence env plan.claim.workerId plan.resolved claimId plan.taskPayload ev

/-- The verdicts on all items. -/
def verdicts : Except Err (List EvidenceVerdict) := plan.items.mapM (plan.judge env claimId)

end AttestPlan

/-- The pairs that the aggregation sees. -/
def EvidenceVerdict.pair (v : EvidenceVerdict) : Json × VerificationOutcome := (v.mode, v.outcome)

/-- The decision on a submission. -/
def AttestPlan.aggregate (plan : AttestPlan) (claimId : Json) : Except Err VerificationOutcome := do
  let verdicts ← plan.verdicts env claimId
  evaluateThreshold env plan.requirement (verdicts.map EvidenceVerdict.pair)

/-- The writes of `attest` once the decision is made. -/
def attestWrites (plan : AttestPlan) (claimId : Json) (aggregate : VerificationOutcome) :
    Action AttestResult := do
  let attempt := plan.task.attestationAttemptsUsed + 1
  let remaining := max 0 (plan.limit - attempt)
  beginAttempt plan.task
  let _ ← append env (.str "attestation_attempt") plan.claim.workerId
    (.obj [
      ("claim_id", claimId),
      ("attempt_number", .int attempt),
      ("decision", .str aggregate.decision.value)])
    claimId (.str plan.task.taskId) none
  let accountingRef ← Exec.lift (plan.task.taskJson.get "accounting_ref")
  routeDecision env plan.task claimId attempt remaining accountingRef aggregate
  flush
  return ⟨aggregate.decision, aggregate.residual, aggregate.reasons, attempt, remaining⟩

theorem attestPlan_eq_ok {env : Env} {db : Db} {claimId attestations : Json} {plan : AttestPlan} :
    attestPlan env db claimId attestations = .ok plan ↔
      claimAndTask env db claimId = .ok (plan.claim, plan.task) ∧
      attestCheckState plan.task = .ok () ∧
      plan.task.taskJson.getD "attestation_requirement" (.obj []) =
        (.ok plan.requirement : Except Err Json) ∧
      plan.task.taskJson.getD "descriptor_payload" (.obj []) =
        (.ok plan.taskPayload : Except Err Json) ∧
      maxAttempts env plan.task.taskJson = .ok plan.limit ∧
      resolve env (.str plan.claim.workerId) = .ok plan.resolved ∧
      attestations.iter = (.ok plan.items : Except Err (List Json)) := by
  unfold attestPlan
  simp only [bind_eq_ok]
  constructor
  · rintro ⟨⟨claim, task⟩, hct, _, hstate, req, hreq, payload, hpayload, limit, hlimit, resolved,
      hresolved, items, hitems, h⟩
    cases h
    exact ⟨hct, hstate, hreq, hpayload, hlimit, hresolved, hitems⟩
  · rintro ⟨hct, hstate, hreq, hpayload, hlimit, hresolved, hitems⟩
    exact ⟨_, hct, (), hstate, _, hreq, _, hpayload, _, hlimit, _, hresolved, _, hitems, rfl⟩

theorem attestPlan_items {env : Env} {db : Db} {claimId attestations : Json} {plan : AttestPlan}
    (h : attestPlan env db claimId attestations = .ok plan) (items : List Json) :
    attestPlan env db claimId (.arr items) = .ok { plan with items := items } := by
  obtain ⟨hct, hstate, hreq, hpayload, hlimit, hresolved, -⟩ := attestPlan_eq_ok.1 h
  exact attestPlan_eq_ok.2 ⟨hct, hstate, hreq, hpayload, hlimit, hresolved, rfl⟩

/-! ## The evidence loop -/

/-- The verdicts of the items that come before the first one that raises. -/
def judgedBefore (judge : Json → Except Err EvidenceVerdict) : List Json → List EvidenceVerdict
  | [] => []
  | ev :: evs =>
      match judge ev with
      | .ok v => v :: judgedBefore judge evs
      | .error _ => []

/-- The rows that the loop adds for some verdicts. -/
def rowsOf (verdicts : List EvidenceVerdict) : List EvidenceRow := verdicts.filterMap (·.row)

/-- Whether the driver accepts a row. -/
def EvidenceRow.binds (row : EvidenceRow) : Bool :=
  (env.bindColumn row.claimId).isSome && (env.bindColumn row.kind).isSome &&
    (env.bindColumn row.payloadHash).isSome && (env.bindColumn row.sig).isSome

variable {env} {β : Type} {w : World} {P : Except Err β → World → Prop}

/-- What the loop has written when it ends: rows of attestations, one for every verified item
before the first raise; a row that the driver refuses dooms the transaction. -/
structure Recorded (env : Env) (w w' : World) (rows : List EvidenceRow) : Prop where
  db : ∃ added, w'.db = { w.db with attestations := w.db.attestations ++ added } ∧
    ((rows.all fun r => r.binds env) = true → added.length = rows.length)
  doomed : w'.doomed = (w.doomed || !(rows.all fun r => r.binds env))

theorem Recorded.nil : Recorded env w w [] :=
  ⟨⟨[], by simp⟩, by simp⟩

theorem Recorded.cons {w₁ w₂ : World} {row : EvidenceRow} {rows : List EvidenceRow}
    (hfirst : Recorded env w w₁ [row]) (hrest : Recorded env w₁ w₂ rows) :
    Recorded env w w₂ (row :: rows) := by
  obtain ⟨⟨added, hdb, hlen⟩, hdoomed⟩ := hfirst
  obtain ⟨⟨added', hdb', hlen'⟩, hdoomed'⟩ := hrest
  refine ⟨⟨added ++ added', ?_, ?_⟩, ?_⟩
  · rw [hdb', hdb]
    simp
  · intro hall
    rw [List.all_cons, Bool.and_eq_true] at hall
    rw [List.length_append, hlen (by simpa using hall.1), hlen' hall.2]
    simp [Nat.add_comm]
  · rw [hdoomed', hdoomed]
    simp [Bool.or_assoc]

theorem recordEvidence_bind {claim : WcpClaim} {outcome : VerificationOutcome} {row : EvidenceRow}
    {f : Unit → Action β} (h : ∀ w', Recorded env w w' [row] → Ends (f ()) w' P) :
    Ends (recordEvidence env claim outcome row >>= f) w P := by
  apply Ends.bind
  unfold recordEvidence
  refine uuid4_bind ?_
  split
  · next claimId kind payloadHash sig hclaim hkind hhash hsig =>
      have hbinds : row.binds env = true := by
        simp [EvidenceRow.binds, hclaim, hkind, hhash, hsig]
      refine Ends.write (h _ ⟨⟨[_], rfl, fun _ => rfl⟩, ?_⟩)
      simp [hbinds]
  · next hnone =>
      have hbinds : row.binds env = false := by
        by_contra hb
        simp only [EvidenceRow.binds, Bool.not_eq_false, Bool.and_eq_true,
          Option.isSome_iff_exists] at hb
        obtain ⟨⟨⟨⟨claimId, hclaim⟩, kind, hkind⟩, payloadHash, hhash⟩, sig, hsig⟩ := hb
        exact hnone claimId kind payloadHash sig hclaim hkind hhash hsig
      refine Ends.write (h _ ⟨⟨[], by simp, ?_⟩, ?_⟩)
      · intro hall
        simp [hbinds] at hall
      · simp [hbinds]

/-- The loop returns the verdicts, or raises what the first failing item raises, and records
the items before that one. -/
theorem collectEvidence_ends (plan : AttestPlan) (claimId : Json) (items : List Json) :
    Ends (collectEvidence env plan.claim plan.resolved claimId plan.taskPayload items) w
      fun r w' =>
        r = (items.mapM (plan.judge env claimId)).map (List.map EvidenceVerdict.pair) ∧
          Recorded env w w' (rowsOf (judgedBefore (plan.judge env claimId) items)) := by
  induction items generalizing w with
  | nil => exact ⟨rfl, Recorded.nil⟩
  | cons ev evs ih =>
      unfold collectEvidence
      refine Ends.lift_bind ?_ ?_
      · intro v hv
        have hv : plan.judge env claimId ev = .ok v := hv
        rw [judgedBefore, hv, List.mapM_cons, hv]
        -- what the rest of the loop adds to this item's verdict
        have hrest : ∀ w₁, Ends (collectEvidence env plan.claim plan.resolved claimId
            plan.taskPayload evs >>= fun rest => pure ((v.mode, v.outcome) :: rest)) w₁ fun r w' =>
              r = (do
                let vs ← evs.mapM (plan.judge env claimId)
                return v :: vs).map (List.map EvidenceVerdict.pair) ∧
              Recorded env w₁ w' (rowsOf (judgedBefore (plan.judge env claimId) evs)) := by
          intro w₁
          apply Ends.bind
          refine Ends.mono ih ?_
          rintro r w' ⟨rfl, hrec⟩
          cases evs.mapM (plan.judge env claimId) with
          | ok vs => exact ⟨rfl, hrec⟩
          | error e => exact ⟨rfl, hrec⟩
        cases hrow : v.row with
        | none =>
            have hrows : rowsOf (v :: judgedBefore (plan.judge env claimId) evs) =
                rowsOf (judgedBefore (plan.judge env claimId) evs) := by simp [rowsOf, hrow]
            rw [hrows]
            exact hrest w
        | some row =>
            have hrows : rowsOf (v :: judgedBefore (plan.judge env claimId) evs) =
                row :: rowsOf (judgedBefore (plan.judge env claimId) evs) := by
              simp [rowsOf, hrow]
            rw [hrows]
            refine recordEvidence_bind fun w₁ hfirst => ?_
            refine Ends.mono (hrest w₁) ?_
            rintro r w' ⟨hr, hrec⟩
            exact ⟨hr, hfirst.cons hrec⟩
      · intro e he
        have he : plan.judge env claimId ev = .error e := he
        rw [judgedBefore, he, List.mapM_cons, he]
        exact ⟨rfl, Recorded.nil⟩

theorem attest_ends {P : Except Err AttestResult → World → Prop} {claimId attestations : Json}
    (hread : ∀ e, attestPlan env w.db claimId attestations = .error e → P (.error e) w)
    (hjudge : ∀ plan e w', attestPlan env w.db claimId attestations = .ok plan →
      plan.aggregate env claimId = .error e →
      Recorded env w w' (rowsOf (judgedBefore (plan.judge env claimId) plan.items)) →
      P (.error e) w')
    (hwrite : ∀ plan aggregate w', attestPlan env w.db claimId attestations = .ok plan →
      plan.aggregate env claimId = .ok aggregate →
      Recorded env w w' (rowsOf (judgedBefore (plan.judge env claimId) plan.items)) →
      Ends (attestWrites env plan claimId aggregate) w' P) :
    Ends (attest env claimId attestations) w P := by
  unfold attest
  refine readDb_bind ?_ ?_
  · rintro ⟨claim, task⟩ hct
    refine Ends.lift_bind ?_ fun e he => hread e (by simp [attestPlan, hct, he, bind, Except.bind])
    intro _ hstate
    refine Ends.lift_bind ?_ fun e he => hread e
      (by simp [attestPlan, hct, hstate, he, bind, Except.bind])
    intro requirement hreq
    refine Ends.lift_bind ?_ fun e he => hread e
      (by simp [attestPlan, hct, hstate, hreq, he, bind, Except.bind])
    intro taskPayload hpayload
    refine Ends.lift_bind ?_ fun e he => hread e
      (by simp [attestPlan, hct, hstate, hreq, hpayload, he, bind, Except.bind])
    intro limit hlimit
    refine Ends.lift_bind ?_ fun e he => hread e
      (by simp [attestPlan, hct, hstate, hreq, hpayload, hlimit, he, bind, Except.bind])
    intro resolved hresolved
    refine Ends.lift_bind ?_ fun e he => hread e
      (by simp [attestPlan, hct, hstate, hreq, hpayload, hlimit, hresolved, he, bind, Except.bind])
    intro items hitems
    let plan : AttestPlan := ⟨claim, task, requirement, taskPayload, limit, resolved, items⟩
    have hplan : attestPlan env w.db claimId attestations = .ok plan := by
      simp [attestPlan, hct, hstate, hreq, hpayload, hlimit, hresolved, hitems, plan, bind,
        Except.bind, pure, Except.pure]
    apply Ends.bind
    refine Ends.mono (collectEvidence_ends plan claimId items) ?_
    rintro r w' ⟨rfl, hrec⟩
    cases hvs : items.mapM (plan.judge env claimId) with
    | error e =>
        refine hjudge plan e w' hplan ?_ hrec
        simp [AttestPlan.aggregate, AttestPlan.verdicts, plan, hvs, bind, Except.bind]
    | ok vs =>
        have haggregate : plan.aggregate env claimId =
            evaluateThreshold env requirement (vs.map EvidenceVerdict.pair) := by
          simp [AttestPlan.aggregate, AttestPlan.verdicts, plan, hvs, bind, Except.bind]
        refine Ends.lift_bind ?_ fun e he => hjudge plan e w' hplan (haggregate.trans he) hrec
        intro aggregate hagg
        exact hwrite plan aggregate w' hplan (haggregate.trans hagg) hrec
  · intro e he
    refine hread e ?_
    rw [attestPlan, he]
    rfl

/-! ## When an attestation is accepted -/

/-- The entry that the routing appends. -/
def routeEvent (decision : VerifierDecision) (remaining : Int) : Option String :=
  match decision with
  | .pass => some "task_completed"
  | .fail => if remaining > 0 then some "recheck_requested" else some "task_voided"
  | .review => none

namespace AttestPlan

variable (plan : AttestPlan)

/-- The attempts left after this one. -/
def remaining : Int := max 0 (plan.limit - (plan.task.attestationAttemptsUsed + 1 : Nat))

/-- The answer to a submission. -/
def result (aggregate : VerificationOutcome) : AttestResult :=
  ⟨aggregate.decision, aggregate.residual, aggregate.reasons,
    plan.task.attestationAttemptsUsed + 1, plan.remaining⟩

/-- Whether the driver stores the entries that a decision leads to. -/
def storable (env : Env) (claimId : Json) (decision : VerifierDecision) : Bool :=
  env.stores (.str "attestation_attempt") claimId (.str plan.task.taskId) &&
    (routeEvent decision plan.remaining).all fun name =>
      env.stores (.str name) claimId (.str plan.task.taskId)

end AttestPlan

/-- The routing is over when the driver stores its entry; it fails otherwise. -/
theorem routeDecision_cases {t : WcpTask} {claimId : Json} {attempt : Nat} {remaining : Int}
    {accountingRef : Json} {aggregate : VerificationOutcome} (hdoomed : w.doomed = false)
    (hsent : env.unsent claimId = false) :
    Ends (routeDecision env t claimId attempt remaining accountingRef aggregate) w fun r w' =>
      if ((routeEvent aggregate.decision remaining).all fun name =>
          env.stores (.str name) claimId (.str t.taskId)) = true then
        r = .ok () ∧ w'.doomed = false ∧ w.db.audit.length ≤ w'.db.audit.length
      else r = .error (.raised .database) := by
  have hentry : ∀ (name actorDid : String) (payload : Json) (state : TaskState),
      Ends (do
        setState t state
        let _ ← append env (.str name) actorDid payload claimId (.str t.taskId) none) w fun r w' =>
        if env.stores (.str name) claimId (.str t.taskId) = true then
          r = .ok () ∧ w'.doomed = false ∧ w.db.audit.length ≤ w'.db.audit.length
        else r = .error (.raised .database) := by
    intro name actorDid payload state
    refine writeDb_bind (append_bind_cases ?_ ?_ ?_)
    · intro r entry _ hstores
      refine Ends.pure ?_
      rw [if_pos hstores]
      exact ⟨rfl, hdoomed, by simp [World.withEntry, Db.updateTask]⟩
    · intro hbad _ w'
      rw [if_neg fun hstores => hbad ⟨hdoomed, hstores⟩]
    · intro hunsent
      simp [hsent] at hunsent
  unfold routeDecision routeEvent
  cases aggregate.decision with
  | pass => exact hentry _ _ _ _
  | fail =>
      dsimp only
      split
      · exact hentry _ _ _ _
      · exact hentry _ _ _ _
  | review => exact Ends.pure ⟨rfl, hdoomed, Nat.le_refl _⟩

/-- The attempt has begun: it is counted and the task is `attesting`, and nothing else has
happened. -/
def AttestPlan.Begun (plan : AttestPlan) (w w' : World) : Prop :=
  w'.db = w.db.updateTask plan.task.taskId (fun t =>
    { t with attestationAttemptsUsed := t.attestationAttemptsUsed + 1, state := .attesting }) ∧
  w'.doomed = false

/-- The writes are over when nothing is pending that the database refuses and the driver stores
the entries; they stop after the attempt has begun where the claim is named by a list or an object
that is refused unsent; and otherwise the database refuses them. -/
theorem attestWrites_cases {plan : AttestPlan} {claimId : Json} {aggregate : VerificationOutcome}
    {ms : List (String × Json)} (hobj : plan.task.taskJson = .obj ms) :
    Ends (attestWrites env plan claimId aggregate) w fun r w' =>
      if w.doomed = false ∧ plan.storable env claimId aggregate.decision = true then
        r = .ok (plan.result aggregate) ∧ w'.doomed = false ∧
          w.db.audit.length < w'.db.audit.length
      else if w.doomed = false ∧ env.unsent claimId = true then
        r = .error (.raised .statement) ∧ plan.Begun w w'
      else r = .error (.raised .database) := by
  unfold attestWrites
  refine writeDb_bind (append_bind_cases ?_ ?_ ?_)
  · intro r entry hdoomed hstores
    have hsent := unsent_of_stores hstores
    refine Ends.lift_bind ?_ fun e he => by simp [hobj, Json.get, Json.getD] at he
    intro accountingRef _
    refine Ends.bind (Ends.mono (routeDecision_cases hdoomed hsent) ?_)
    intro r' w' hrouted
    have hstorable : plan.storable env claimId aggregate.decision =
        (routeEvent aggregate.decision plan.remaining).all fun name =>
          env.stores (.str name) claimId (.str plan.task.taskId) := by
      rw [AttestPlan.storable, hstores, Bool.true_and]
    split at hrouted
    · next hall =>
        obtain ⟨rfl, hdoomed', hlonger⟩ := hrouted
        refine flush_clean_bind hdoomed' (Ends.pure ?_)
        rw [if_pos ⟨hdoomed, hstorable.trans hall⟩]
        refine ⟨rfl, hdoomed', ?_⟩
        simp only [World.withEntry, Db.updateTask, List.length_append, List.length_singleton]
          at hlonger
        omega
    · next hall =>
        subst hrouted
        dsimp only
        rw [if_neg fun h => hall (hstorable.symm.trans h.2), if_neg (by simp [hsent])]
  · intro hbad hsent w'
    rw [if_neg, if_neg hsent]
    rintro ⟨hdoomed, hstores⟩
    rw [AttestPlan.storable, Bool.and_eq_true] at hstores
    exact hbad ⟨hdoomed, hstores.1⟩
  · intro hunsent hdoomed
    rw [if_neg, if_pos ⟨hdoomed, hunsent⟩]
    · exact ⟨rfl, rfl, hdoomed⟩
    · rintro ⟨-, hstores⟩
      rw [AttestPlan.storable, Bool.and_eq_true] at hstores
      rw [unsent_of_stores hstores.1] at hunsent
      cases hunsent

theorem attestPlan_descriptor {db : Db} {claimId attestations : Json} {plan : AttestPlan}
    (h : attestPlan env db claimId attestations = .ok plan) :
    ∃ ms, plan.task.taskJson = .obj ms := by
  obtain ⟨-, -, hreq, -⟩ := attestPlan_eq_ok.1 h
  cases hobj : plan.task.taskJson with
  | obj ms => exact ⟨ms, rfl⟩
  | _ =>
      rw [hobj] at hreq
      cases hreq

/-- An attestation is accepted exactly when its reads and its decision raise nothing and the
driver stores what it writes; the answer carries the decision. -/
theorem attest_eq_ok {claimId attestations : Json} {result : AttestResult} :
    (attest env claimId attestations w).1 = .ok result ↔
      w.doomed = false ∧ ∃ plan aggregate,
        attestPlan env w.db claimId attestations = .ok plan ∧
        plan.aggregate env claimId = .ok aggregate ∧
        ((rowsOf (judgedBefore (plan.judge env claimId) plan.items)).all fun r => r.binds env) =
          true ∧
        plan.storable env claimId aggregate.decision = true ∧
        result = plan.result aggregate := by
  constructor
  · have hends : Ends (attest env claimId attestations) w fun r _ => ∀ result, r = .ok result →
        w.doomed = false ∧ ∃ plan aggregate,
          attestPlan env w.db claimId attestations = .ok plan ∧
          plan.aggregate env claimId = .ok aggregate ∧
          ((rowsOf (judgedBefore (plan.judge env claimId) plan.items)).all fun r => r.binds env) =
            true ∧
          plan.storable env claimId aggregate.decision = true ∧
          result = plan.result aggregate := by
      refine attest_ends (fun e _ => nofun) (fun plan e w' _ _ _ => nofun) ?_
      intro plan aggregate w' hplan hagg hrec
      obtain ⟨ms, hobj⟩ := attestPlan_descriptor hplan
      refine Ends.mono (attestWrites_cases hobj) ?_
      intro r w₂ hwritten result hresult
      subst hresult
      split at hwritten
      · next hstores =>
          obtain ⟨hdoomed, hstores⟩ := hstores
          rw [hrec.doomed, Bool.or_eq_false_iff, Bool.not_eq_false'] at hdoomed
          exact ⟨hdoomed.1, plan, aggregate, hplan, hagg, hdoomed.2, hstores,
            Except.ok.inj hwritten.1⟩
      · split at hwritten
        · cases hwritten.1
        · cases hwritten
    exact hends result
  · rintro ⟨hdoomed, plan, aggregate, hplan, hagg, hbinds, hstores, rfl⟩
    show Ends (attest env claimId attestations) w fun r _ => r = .ok (plan.result aggregate)
    refine attest_ends ?_ ?_ ?_
    · intro e he
      cases hplan.symm.trans he
    · intro plan' e w' hplan' he _
      cases hplan.symm.trans hplan'
      cases hagg.symm.trans he
    · intro plan' aggregate' w' hplan' hagg' hrec
      cases hplan.symm.trans hplan'
      cases hagg.symm.trans hagg'
      obtain ⟨ms, hobj⟩ := attestPlan_descriptor hplan
      have hclean : w'.doomed = false := by
        rw [hrec.doomed, hdoomed, hbinds]
        rfl
      refine Ends.mono (attestWrites_cases hobj) ?_
      intro r w₂ hwritten
      rw [if_pos ⟨hclean, hstores⟩] at hwritten
      exact hwritten.1

end Wcp.Coordinator
