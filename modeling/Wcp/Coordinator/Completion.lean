import Wcp.Base.JsonSets
import Wcp.Coordinator.EvidenceBinding
import Wcp.Coordinator.Lifecycle
/-!
# What a completed task has been given

A requirement asks for evidence of some modes, and its schema for some kinds of
a mode.  The aggregation looks at neither: it counts every passing outcome.  A
task that is completed meets its own requirement in every run where nothing but
requested evidence passes and every quorum is at least one.
-/

namespace Wcp.Coordinator

open Wcp.Base
open Wcp.Base.Exec

variable {env : Env}

/-! ## Requested evidence -/

/-- The elements of a member that holds a list, none if it does not. -/
def listed (v : Json) (key : String) : List Json :=
  match (v.get key >>= fun x => (x.or (.arr [])).iter : Except Err (List Json)) with
  | .ok xs => xs
  | .error _ => []

/-- Whether an entry of an evidence schema is for a mode. -/
def entryFor (mode entry : Json) : Bool :=
  match (entry.get "mode" : Except Err Json) with
  | .ok m => decide (m = mode)
  | .error _ => false

/-- The requirement asks for evidence of a mode and, when its schema has an entry for the mode,
of a kind listed there. -/
def requests (requirement mode kind : Json) : Bool :=
  let entries := (listed requirement "evidence_schema").filter (entryFor mode)
  decide (mode ∈ listed requirement "modes") &&
    (entries.isEmpty || entries.any fun entry => decide (kind ∈ listed entry "kinds"))

/-- The requirement asks for an evidence item. -/
def requested (requirement ev : Json) : Bool :=
  match (ev.get "mode" : Except Err Json), (ev.get "kind" : Except Err Json) with
  | .ok mode, .ok kind => requests requirement mode kind
  | _, _ => false

/-- Whether an item passes. -/
def AttestPlan.passes (env : Env) (plan : AttestPlan) (claimId ev : Json) : Bool :=
  match plan.judge env claimId ev with
  | .ok v => decide (v.outcome.decision = .pass)
  | .error _ => false

/-- The submitted items that pass and are requested. -/
def AttestPlan.counted (env : Env) (plan : AttestPlan) (claimId : Json) : List Json :=
  plan.items.filter fun ev => plan.passes env claimId ev && requested plan.requirement ev

structure RequirementMet (requirement : Json) (items : List Json) : Prop where
  known : ∃ s ∈ ["any", "all", "M-of-N"],
    requirement.get "threshold" = (.ok (.str s) : Except Err Json)
  any : requirement.get "threshold" = (.ok (.str "any") : Except Err Json) → items ≠ []
  all : requirement.get "threshold" = (.ok (.str "all") : Except Err Json) →
    ∀ mode ∈ listed requirement "modes", ∃ ev ∈ items,
      ev.get "mode" = (.ok mode : Except Err Json)
  quorum : requirement.get "threshold" = (.ok (.str "M-of-N") : Except Err Json) →
    ∃ bound m, requirement.get "M" = (.ok bound : Except Err Json) ∧ bound.asInt = some m ∧
      max 1 m ≤ items.length

/-! ## What the checks of `post` leave -/

theorem validateBounds_eq_ok {requirement : Json} (h : validateBounds env requirement = .ok ()) :
    ∃ bound m, requirement.get "M" = (.ok bound : Except Err Json) ∧ bound.asInt = some m := by
  simp only [validateBounds, bind_eq_ok] at h
  obtain ⟨bound, hbound, n, -, h⟩ := h
  split at h
  · next i j hi hj => exact ⟨bound, i, hbound, hi⟩
  · cases h

/-- The threshold of an accepted requirement is one of three, and a quorum has an integer
bound. -/
theorem validateAttestationRequirement_eq_ok {requirement : Json}
    (h : validateAttestationRequirement env requirement = .ok ()) :
    ∃ s ∈ ["any", "all", "M-of-N"],
      requirement.get "threshold" = (.ok (.str s) : Except Err Json) ∧
      (s = "M-of-N" → ∃ bound m, requirement.get "M" = (.ok bound : Except Err Json) ∧
        bound.asInt = some m) := by
  simp only [validateAttestationRequirement, bind_eq_ok, ensure_eq_ok] at h
  obtain ⟨_, -, _, -, _, -, threshold, hth, _, hknown, h⟩ := h
  rcases hknown with rfl | rfl | rfl
  · exact ⟨"any", by simp, hth, by simp⟩
  · exact ⟨"all", by simp, hth, by simp⟩
  · rw [if_pos rfl, bind_eq_ok] at h
    obtain ⟨_, hbounds, -⟩ := h
    exact ⟨"M-of-N", by simp, hth, fun _ => validateBounds_eq_ok hbounds⟩

/-! ## What a passing decision says -/

theorem evaluateAny_pass {o : Outcomes} (h : (evaluateAny o).decision = .pass) :
    1 ≤ countDecision .pass o := by
  unfold evaluateAny at h
  split_ifs at h with hcount
  · exact hcount
  · cases h
  · cases h

theorem evaluateMofN_pass {m n : Int} {o : Outcomes}
    (h : (evaluateMofN m n o).decision = .pass) : m ≤ countDecision .pass o := by
  unfold evaluateMofN at h
  dsimp only at h
  split_ifs at h with hmn hcount
  · cases h
  · exact hcount
  · cases h
  · cases h

theorem str_pyEq {s : String} {v : Json} (h : (Json.str s).pyEq v = true) : v = .str s := by
  rw [Json.pyEq] at h
  exact beq_iff_eq.1 h

/-- Under threshold `all`, passing evidence of every required mode is there. -/
theorem evaluateAll_pass {requirement : Json} {o : Outcomes} {a : VerificationOutcome}
    (h : evaluateAll env requirement o = .ok a) (ha : a.decision = .pass)
    (hstr : ∀ p ∈ o, p.2.decision = .pass → ∃ s, p.1 = .str s) :
    ∀ mode ∈ listed requirement "modes", ∃ p ∈ o, p.2.decision = .pass ∧ p.1 = mode := by
  simp only [evaluateAll, bind_eq_ok] at h
  obtain ⟨modes, hmodes, required, hrequired, passing, hpassing, h⟩ := h
  have hsubset : Json.subset required passing = true := by
    split_ifs at h with hall hmissing
    · exact hall.2.1
    · obtain ⟨missing, -, h⟩ := bind_eq_ok.1 h
      cases h
      cases ha
    · cases h
      cases ha
  obtain ⟨xs, hxs, rfl⟩ := Json.toSet_eq_ok hrequired
  obtain ⟨ys, hys, rfl⟩ := Json.toSet_eq_ok hpassing
  cases hys
  have hlisted : listed requirement "modes" = xs := by
    rw [listed, bind_eq_ok.2 ⟨modes, hmodes, hxs⟩]
  -- an element of the set of passing modes that equals a required one is that mode
  have hfound : ∀ x ∈ xs.foldl Json.insertNew [],
      ∃ p ∈ o, p.2.decision = .pass ∧ p.1 = x := by
    intro x hx
    obtain ⟨y, hy, heq⟩ := List.any_eq_true.1 (List.all_eq_true.1 hsubset x hx)
    rcases Json.mem_of_mem_foldl_insertNew hy with hy | hy
    · cases hy
    · obtain ⟨p, hp, rfl⟩ := List.mem_map.1 hy
      obtain ⟨hp, hpass⟩ := List.mem_filter.1 hp
      obtain ⟨s, hs⟩ := hstr p hp (of_decide_eq_true hpass)
      rw [hs] at heq
      exact ⟨p, hp, of_decide_eq_true hpass, by rw [hs, str_pyEq heq]⟩
  intro mode hmode
  rw [hlisted] at hmode
  rcases Json.mem_or_any_foldl_insertNew hmode [] with hmem | hany
  · exact hfound mode hmem
  · obtain ⟨y, hy, heq⟩ := List.any_eq_true.1 hany
    obtain ⟨p, hp, hpass, rfl⟩ := hfound y hy
    obtain ⟨s, hs⟩ := hstr p hp hpass
    rw [hs] at heq
    exact ⟨p, hp, hpass, by rw [hs, str_pyEq heq]⟩

theorem toInt_of_asInt {v : Json} {i : Int} (h : v.asInt = some i) :
    v.toInt env.unicode = (.ok i : Except Err Int) := by
  cases v with
  | bool b =>
      cases h
      rfl
  | int j =>
      cases h
      rfl
  | _ => cases h

theorem lookup_of_get {v x : Json} {key : String} (h : v.get key = (.ok x : Except Err Json))
    (hx : x ≠ .null) : ∃ ms, v = .obj ms ∧ ms.lookup key = some x := by
  obtain ⟨ms, rfl, hvalue⟩ := getD_eq_ok h
  cases hlookup : ms.lookup key with
  | none =>
      rw [hlookup] at hvalue
      exact absurd hvalue hx
  | some y =>
      rw [hlookup, Option.getD_some] at hvalue
      exact ⟨ms, rfl, by rw [hlookup, hvalue]⟩

theorem item_of_get {v x : Json} {key : String} (h : v.get key = (.ok x : Except Err Json))
    (hx : x ≠ .null) : v.item key = (.ok x : Except Err Json) := by
  obtain ⟨ms, rfl, hlookup⟩ := lookup_of_get h hx
  rw [Json.item, hlookup]

theorem getD_of_get {v x : Json} {key : String} (h : v.get key = (.ok x : Except Err Json))
    (hx : x ≠ .null) (d : Json) : v.getD key d = (.ok x : Except Err Json) := by
  obtain ⟨ms, rfl, hlookup⟩ := lookup_of_get h hx
  rw [Json.getD, hlookup, Option.getD_some]

theorem thresholdBounds_eq {requirement bound : Json} {m m' n' : Int}
    (hbound : requirement.get "M" = (.ok bound : Except Err Json)) (hm : bound.asInt = some m)
    (h : thresholdBounds env requirement = .ok (some (m', n'))) : m' = m := by
  have hitem : requirement.item "M" = (.ok bound : Except Err Json) :=
    item_of_get hbound fun hnull => by
      rw [hnull] at hm
      cases hm
  unfold thresholdBounds at h
  dsimp only at h
  split at h
  · next b hb =>
      cases h
      simp only [bind_eq_ok] at hb
      obtain ⟨x, hx, i, hi, _, -, _, -, hb⟩ := hb
      cases hb
      cases hitem.symm.trans hx
      exact Except.ok.inj (hi.symm.trans (toInt_of_asInt hm))
  · cases h
  · cases h
  · cases h
  · cases h

/-- Every passing outcome is of an item that passed, under the item's own mode. -/
theorem AttestPlan.judge_pass {plan : AttestPlan} {claimId ev : Json} {v : EvidenceVerdict}
    (hv : plan.judge env claimId ev = .ok v) (hpass : v.outcome.decision = .pass) :
    ev.get "mode" = (.ok v.mode : Except Err Json) ∧
      ∃ m : AttestationMode, v.mode = .str m.value := by
  obtain ⟨h, payload, hev, hmode, -, -, hpassing⟩ :=
    EvidenceHeader.exists_of_judge_pass hv hpass
  obtain ⟨m, hm⟩ := hpassing.ofValue
  rw [hmode]
  unfold AttestationMode.ofValue at hm
  exact ⟨hev.mode, m, by simpa using List.find?_some hm⟩

theorem evaluateThreshold_pass {requirement : Json} {s : String} {o : Outcomes}
    {a : VerificationOutcome}
    (hth : requirement.get "threshold" = (.ok (.str s) : Except Err Json))
    (h : evaluateThreshold env requirement o = .ok a) (ha : a.decision = .pass) :
    (s = "any" → 1 ≤ countDecision .pass o) ∧
      (s = "all" → evaluateAll env requirement o = .ok a) ∧
      (s = "M-of-N" → ∃ m n, thresholdBounds env requirement = .ok (some (m, n)) ∧
        m ≤ countDecision .pass o) := by
  have hgetD := getD_of_get hth nofun (.str "all")
  unfold evaluateThreshold at h
  rw [hgetD] at h
  refine ⟨?_, ?_, ?_⟩
  · rintro rfl
    cases h
    exact evaluateAny_pass ha
  · rintro rfl
    exact h
  · rintro rfl
    simp only [bind_eq_ok, Except.ok.injEq, exists_eq_left'] at h
    rw [if_neg (by decide), if_neg (by decide), if_pos trivial, bind_eq_ok] at h
    obtain ⟨bounds, hbounds, h⟩ := h
    cases bounds with
    | none =>
        cases h
        cases ha
    | some b =>
        cases h
        exact ⟨b.1, b.2, hbounds, evaluateMofN_pass ha⟩

theorem AttestPlan.mode_of_passes {plan : AttestPlan} {claimId ev : Json}
    (h : plan.passes env claimId ev = true) :
    ∃ m : AttestationMode, ev.get "mode" = (.ok (.str m.value) : Except Err Json) := by
  unfold AttestPlan.passes at h
  split at h
  · next v hv =>
      obtain ⟨hmode, m, hm⟩ := AttestPlan.judge_pass hv (of_decide_eq_true h)
      exact ⟨m, hm ▸ hmode⟩
  · cases h

/-- Under threshold `all`, a passing decision needs a passing item of every required mode. -/
theorem AttestPlan.all_covered {plan : AttestPlan} {claimId : Json}
    {aggregate : VerificationOutcome} (hagg : plan.aggregate env claimId = .ok aggregate)
    (hpass : aggregate.decision = .pass)
    (hall : plan.requirement.get "threshold" = (.ok (.str "all") : Except Err Json)) :
    ∀ mode ∈ listed plan.requirement "modes", ∃ ev ∈ plan.items,
      plan.passes env claimId ev = true ∧ ev.get "mode" = (.ok mode : Except Err Json) := by
  obtain ⟨verdicts, hverdicts, hthreshold⟩ := bind_eq_ok.1 hagg
  have : Nonempty EvidenceVerdict := ⟨⟨.null, .pass, none⟩⟩
  obtain ⟨g, hg, rfl⟩ := exists_map_of_mapM hverdicts
  rw [List.map_map] at hthreshold
  have hstr : ∀ p ∈ plan.items.map (EvidenceVerdict.pair ∘ g), p.2.decision = .pass →
      ∃ s, p.1 = .str s := by
    intro p hp hdec
    obtain ⟨ev, hev, rfl⟩ := List.mem_map.1 hp
    obtain ⟨-, m, hm⟩ := AttestPlan.judge_pass (hg ev hev) hdec
    exact ⟨m.value, hm⟩
  intro mode hmode
  have hevaluate := (evaluateThreshold_pass hall hthreshold hpass).2.1 rfl
  obtain ⟨p, hp, hdec, rfl⟩ := evaluateAll_pass hevaluate hpass hstr mode hmode
  obtain ⟨ev, hev, rfl⟩ := List.mem_map.1 hp
  refine ⟨ev, hev, ?_, (AttestPlan.judge_pass (hg ev hev) hdec).1⟩
  rw [AttestPlan.passes, hg ev hev]
  exact decide_eq_true hdec

/-- When only requested evidence passes, the items that count are those that pass. -/
theorem AttestPlan.counted_eq {plan : AttestPlan} {claimId : Json} {g : Json → EvidenceVerdict}
    (hg : ∀ ev ∈ plan.items, plan.judge env claimId ev = .ok (g ev))
    (hrequested : ∀ ev ∈ plan.items, plan.passes env claimId ev = true →
      requested plan.requirement ev = true) :
    plan.counted env claimId =
      plan.items.filter fun ev => decide ((g ev).outcome.decision = .pass) := by
  refine List.filter_congr fun ev hev => ?_
  have hpasses : plan.passes env claimId ev = decide ((g ev).outcome.decision = .pass) := by
    rw [AttestPlan.passes, hg ev hev]
  rw [← hpasses]
  cases hp : plan.passes env claimId ev with
  | false => rfl
  | true => rw [hrequested ev hev hp, Bool.and_self]

/-- A passing decision meets a valid requirement, when only requested evidence passes and the
quorum is positive. -/
theorem AttestPlan.requirementMet {plan : AttestPlan} {claimId : Json}
    {aggregate : VerificationOutcome} (hagg : plan.aggregate env claimId = .ok aggregate)
    (hpass : aggregate.decision = .pass)
    (hvalid : validateAttestationRequirement env plan.requirement = .ok ())
    (hrequested : ∀ ev ∈ plan.items, plan.passes env claimId ev = true →
      requested plan.requirement ev = true)
    (hpositive : plan.requirement.get "threshold" = (.ok (.str "M-of-N") : Except Err Json) →
      ∀ bound m, plan.requirement.get "M" = (.ok bound : Except Err Json) →
        bound.asInt = some m → 1 ≤ m) :
    RequirementMet plan.requirement (plan.counted env claimId) := by
  obtain ⟨verdicts, hverdicts, hthreshold⟩ := bind_eq_ok.1 hagg
  have : Nonempty EvidenceVerdict := ⟨⟨.null, .pass, none⟩⟩
  obtain ⟨g, hg, rfl⟩ := exists_map_of_mapM hverdicts
  rw [List.map_map] at hthreshold
  have hcounted := AttestPlan.counted_eq hg hrequested
  have hlength : countDecision .pass (plan.items.map (EvidenceVerdict.pair ∘ g)) =
      (plan.counted env claimId).length := by
    rw [hcounted, countDecision, List.countP_map, List.countP_eq_length_filter]
    rfl
  obtain ⟨s, hs, hth, hbound⟩ := validateAttestationRequirement_eq_ok hvalid
  obtain ⟨hany, -, hmn⟩ := evaluateThreshold_pass hth hthreshold hpass
  rw [hlength] at hany hmn
  refine ⟨⟨s, hs, hth⟩, ?_, ?_, ?_⟩
  · intro h
    cases hth.symm.trans h
    exact List.ne_nil_of_length_pos (hany rfl)
  · intro h mode hmode
    obtain ⟨ev, hev, hpasses, hmodeOf⟩ := AttestPlan.all_covered hagg hpass h mode hmode
    refine ⟨ev, List.mem_filter.2 ⟨hev, ?_⟩, hmodeOf⟩
    rw [hpasses, hrequested ev hev hpasses]
    rfl
  · intro h
    cases hth.symm.trans h
    obtain ⟨bound, m, hM, hm⟩ := hbound rfl
    obtain ⟨m', n', hbounds, hmany⟩ := hmn rfl
    have hone := hpositive h bound m hM hm
    cases thresholdBounds_eq hM hm hbounds
    exact ⟨bound, m, hM, hm, by omega⟩

/-! ## Which call completes a task -/

variable {call : Call} {db db' : Db} {w : World}

/-- The attestation requirement of every task is valid. -/
def Db.Valid (env : Env) (db : Db) : Prop :=
  ∀ t ∈ db.tasks, ∃ ms, t.taskJson = .obj ms ∧ validateAttestationRequirement env
    ((ms.lookup "attestation_requirement").getD (.obj [])) = .ok ()

theorem Change.valid (h : Change env call db db') (hvalid : db.Valid env) : db'.Valid env := by
  unfold Db.Valid
  cases h with
  | quiet htasks hclaims haudit => exact htasks ▸ hvalid
  | posted row entry hchecked hprogress hfresh hentry htasks hclaims haudit hauthor =>
      intro t ht
      rw [htasks] at ht
      rcases List.mem_append.1 ht with ht | ht
      · exact hvalid t ht
      · obtain ⟨fresh, task, expiry, plan, hplan, hjson⟩ := hchecked
        rw [List.mem_singleton.1 ht, hjson]
        exact postChecks_valid hplan
  | claimed t c entry ht hposted hfresh hsame haccepted hid hbinds htype hentry htasks hclaims
      haudit hauthor =>
      rw [htasks]
      exact forall_progressed (fun t ht _ => hvalid t ht) fun t ht _ => hvalid t ht
  | moved c t p entry hholds hmove hreplay hpayload hentry hcall htasks hclaims haudit hauthor =>
      rw [htasks]
      exact forall_progressed (fun t ht _ => hvalid t ht) fun t ht _ => hvalid t ht
  | event c t beat entry eventType hcall htype hholds hstate hentry htasks hclaims haudit hauthor =>
      exact htasks ▸ hvalid
  | unrecorded c t p name hholds hmove hname hcall htasks hclaims haudit =>
      rw [htasks]
      exact forall_progressed (fun t ht _ => hvalid t ht) fun t ht _ => hvalid t ht
  | unheard c t beat hcall hholds hstate htasks hclaims haudit => exact htasks ▸ hvalid

theorem Move.of_completed {limit : Int} {name : String} {p q : Progress}
    (h : Move limit name p q) (hdone : q.state = .completed) : name = "task_completed" := by
  cases h with
  | completed => rfl
  | handedOver hs => rcases hs with rfl | rfl <;> cases hdone
  | opened hs => cases hdone
  | timedOut hs => cases hdone
  | attempted hs => cases hdone
  | rechecked hused => cases hdone
  | voided hused => cases hdone
  | aborted hs => cases hdone

theorem Change.completed_of_attest (h : Change env call db db')
    (hcall : ∀ claimId attestations, call ≠ .attest claimId attestations) {id : String}
    (hopen : ∀ t ∈ db.tasks, t.taskId = id → t.state ≠ .completed) :
    ∀ t ∈ db'.tasks, t.taskId = id → t.state ≠ .completed := by
  cases h with
  | quiet htasks hclaims haudit => exact htasks ▸ hopen
  | posted row entry hchecked hprogress hfresh hentry htasks hclaims haudit hauthor =>
      intro t ht hid
      rw [htasks] at ht
      rcases List.mem_append.1 ht with ht | ht
      · exact hopen t ht hid
      · have hstate := congrArg Progress.state hprogress
        rw [List.mem_singleton.1 ht]
        intro hdone
        cases hdone.symm.trans hstate
  | claimed t c entry ht hposted hfresh hsame haccepted hid hbinds htype hentry htasks hclaims
      haudit hauthor =>
      rw [htasks]
      exact forall_progressed (fun t _ _ _ => nofun) fun t ht _ => hopen t ht
  | moved c t p entry hholds hmove hreplay hpayload hentry hattest htasks hclaims haudit hauthor =>
      rw [htasks]
      refine forall_progressed (fun t _ _ _ hdone => ?_) fun t ht _ => hopen t ht
      obtain ⟨claimId, attestations, hcall'⟩ := hattest hdone
      exact hcall claimId attestations hcall'
  | event c t beat entry eventType _ htype hholds hstate hentry htasks hclaims haudit hauthor =>
      exact htasks ▸ hopen
  | unrecorded c t p name hholds hmove hname _ htasks hclaims haudit =>
      rw [htasks]
      refine forall_progressed (fun t _ _ _ hdone => hname ?_) fun t ht _ => hopen t ht
      rw [hmove.of_completed hdone]
      decide
  | unheard c t beat _ hholds hstate htasks hclaims haudit => exact htasks ▸ hopen

/-- Every row is an old one with its descriptor, and is completed only if the old one is or if
it is the task `id` and `allowed` holds. -/
def Inherits (id : String) (allowed : Prop) (db db' : Db) : Prop :=
  ∀ t' ∈ db'.tasks, ∃ t ∈ db.tasks, t.taskId = t'.taskId ∧ t.taskJson = t'.taskJson ∧
    (t'.state = .completed → t.state = .completed ∨ t.taskId = id ∧ allowed)

section Inherits

variable {id : String} {allowed : Prop}

theorem Inherits.of_tasks (h : db'.tasks = db.tasks) : Inherits id allowed db db' := by
  intro t' ht'
  exact ⟨t', h ▸ ht', rfl, rfl, .inl⟩

theorem Inherits.update {f : WcpTask → WcpTask} (h : Inherits id allowed db db')
    (hid : ∀ t, (f t).taskId = t.taskId) (hjson : ∀ t, (f t).taskJson = t.taskJson)
    (hstate : ∀ t, (f t).state = .completed → allowed) :
    Inherits id allowed db (db'.updateTask id f) := by
  intro t' ht'
  obtain ⟨t₁, ht₁, rfl⟩ := List.mem_map.1 ht'
  obtain ⟨t, ht, hids, hjsons, hdone⟩ := h t₁ ht₁
  by_cases hat : t₁.taskId = id
  · rw [if_pos hat]
    refine ⟨t, ht, by rw [hid, hids], by rw [hjson, hjsons], ?_⟩
    exact fun hnow => .inr ⟨hids.trans hat, hstate t₁ hnow⟩
  · rw [if_neg hat]
    exact ⟨t, ht, hids, hjsons, hdone⟩

theorem routeDecision_inherits {t : WcpTask} {claimId : Json} {attempt : Nat} {remaining : Int}
    {accountingRef : Json} {aggregate : VerificationOutcome}
    (h : Inherits t.taskId (aggregate.decision = .pass) db w.db) :
    Ends (routeDecision env t claimId attempt remaining accountingRef aggregate) w
      (Committed (Inherits t.taskId (aggregate.decision = .pass) db)) := by
  unfold routeDecision
  split
  · next hpass =>
      have hnext := h.update (f := fun t => { t with state := .completed })
        (fun _ => rfl) (fun _ => rfl) fun _ _ => hpass
      refine writeDb_bind (append_bind ?_ (fun _ => Committed.database) fun _ _ => ?_)
      · intro r entry _ _ _ _ _ _ _ _
        exact Ends.pure (Committed.of hnext)
      · exact Committed.of hnext
  · split
    · have hnext := h.update (f := fun t => { t with state := .rechecking })
        (fun _ => rfl) (fun _ => rfl) fun _ => nofun
      refine writeDb_bind (append_bind ?_ (fun _ => Committed.database) fun _ _ => ?_)
      · intro r entry _ _ _ _ _ _ _ _
        exact Ends.pure (Committed.of hnext)
      · exact Committed.of hnext
    · have hnext := h.update (f := fun t => { t with state := .voided })
        (fun _ => rfl) (fun _ => rfl) fun _ => nofun
      refine writeDb_bind (append_bind ?_ (fun _ => Committed.database) fun _ _ => ?_)
      · intro r entry _ _ _ _ _ _ _ _
        exact Ends.pure (Committed.of hnext)
      · exact Committed.of hnext
  · exact Ends.pure (Committed.of h)

theorem attestWrites_inherits {plan : AttestPlan} {claimId : Json}
    {aggregate : VerificationOutcome} (htasks : w.db.tasks = db.tasks) :
    Ends (attestWrites env plan claimId aggregate) w
      (Committed (Inherits plan.task.taskId (aggregate.decision = .pass) db)) := by
  have hbegun : Inherits plan.task.taskId (aggregate.decision = .pass) db
      (w.db.updateTask plan.task.taskId fun t => { t with
        attestationAttemptsUsed := t.attestationAttemptsUsed + 1, state := .attesting }) :=
    (Inherits.of_tasks htasks).update (fun _ => rfl) (fun _ => rfl) fun _ => nofun
  unfold attestWrites
  refine writeDb_bind (append_bind ?_ (fun _ => Committed.database) fun _ _ => Committed.of hbegun)
  intro r entry _ _ _ _ _ _ _ _
  refine Ends.lift_bind ?_ fun e _ => Committed.of hbegun
  intro accountingRef _
  refine Ends.bind (Ends.mono (routeDecision_inherits hbegun) ?_)
  rintro (e | u) w' hw'
  · exact hw'.raised
  · exact flush_bind (fun _ => Ends.pure hw'.returned) Committed.database

end Inherits

/-- An attestation completes the task of its claim, and only on a passing decision. -/
theorem attest_completes (claimId attestations : Json) :
    Ends (attest env claimId attestations) w (Committed fun db' =>
      db'.tasks = w.db.tasks ∨ ∃ plan aggregate,
        attestPlan env w.db claimId attestations = .ok plan ∧
        plan.aggregate env claimId = .ok aggregate ∧
        Inherits plan.task.taskId (aggregate.decision = .pass) w.db db') := by
  refine attest_ends (fun e _ => Committed.of (.inl rfl)) ?_ ?_
  · rintro plan e w' - - ⟨⟨added, hdb, -⟩, -⟩
    exact Committed.of (.inl (by rw [hdb]))
  · rintro plan aggregate w' hplan hagg ⟨⟨added, hdb, -⟩, -⟩
    refine Ends.mono (attestWrites_inherits (by rw [hdb])) ?_
    intro r w₂ hcommitted hr hdoomed
    exact .inr ⟨plan, aggregate, hplan, hagg, hcommitted hr hdoomed⟩

/-! ## Runs -/

/-- An attestation is to the point: every item that passes is requested, and a quorum of the
task's requirement is at least one. -/
def ToThePoint (env : Env) (w : World) (call : Call) : Prop :=
  ∀ claimId attestations plan, call = .attest claimId attestations →
    attestPlan env w.db claimId attestations = .ok plan →
    (∀ ev ∈ plan.items, plan.passes env claimId ev = true →
      requested plan.requirement ev = true) ∧
    (plan.requirement.get "threshold" = (.ok (.str "M-of-N") : Except Err Json) →
      ∀ bound m, plan.requirement.get "M" = (.ok bound : Except Err Json) →
        bound.asInt = some m → 1 ≤ m)

/-- A step that completes a task is an attestation on it with a passing decision. -/
theorem step_completes (hwf : w.db.WellFormed) {t : WcpTask}
    (hopen : ∀ old ∈ w.db.tasks, old.taskId = t.taskId → old.state ≠ .completed)
    (ht : t ∈ (step env w call).db.tasks) (hdone : t.state = .completed) :
    ∃ claimId attestations plan aggregate, call = .attest claimId attestations ∧
      attestPlan env w.db claimId attestations = .ok plan ∧
      plan.aggregate env claimId = .ok aggregate ∧ aggregate.decision = .pass ∧
      plan.task.taskId = t.taskId ∧ plan.task.taskJson = t.taskJson := by
  have hattest : ∃ claimId attestations, call = .attest claimId attestations := by
    by_contra hother
    push Not at hother
    have hkept := @Changes.invariant env call w.db _
      (fun db => ∀ old ∈ db.tasks, old.taskId = t.taskId → old.state ≠ .completed)
      (step_changes env hwf call) hwf hopen
      fun _ _ _ hchange => hchange.completed_of_attest hother
    exact hkept t ht rfl hdone
  obtain ⟨claimId, attestations, rfl⟩ := hattest
  rcases settle_db (.inl rfl) (attest_completes claimId attestations) with htasks | hplan
  · exact absurd hdone (hopen t (htasks ▸ ht) rfl)
  · obtain ⟨plan, aggregate, hplan, hagg, hinherits⟩ := hplan
    obtain ⟨old, hold, hid, hjson, hcompleted⟩ := hinherits t ht
    obtain ⟨hat, hpass⟩ := (hcompleted hdone).resolve_left (hopen old hold hid)
    have hholds := (claimAndTask_holds (attestPlan_eq_ok.1 hplan).1).1
    have hsame : plan.task = old := hwf.task_eq hholds.task hold hat.symm
    exact ⟨claimId, attestations, plan, aggregate, rfl, hplan, hagg, hpass, hsame ▸ hid,
      hsame ▸ hjson⟩

/-- A completed task of a run was completed by an attestation on it with a passing decision,
against the requirement that the task was posted with. -/
theorem reach_completed_by (workers : List WcpWorker) (calls : List Call) {t : WcpTask}
    (ht : t ∈ (reach env workers calls).db.tasks) (hdone : t.state = .completed) :
    ∃ before claimId attestations after plan aggregate,
      calls = before ++ .attest claimId attestations :: after ∧
      attestPlan env (reach env workers before).db claimId attestations = .ok plan ∧
      plan.aggregate env claimId = .ok aggregate ∧ aggregate.decision = .pass ∧
      plan.task.taskId = t.taskId ∧
      t ∈ (reach env workers (before ++ [.attest claimId attestations])).db.tasks ∧
      t.taskJson.getD "attestation_requirement" (.obj []) =
        (.ok plan.requirement : Except Err Json) ∧
      validateAttestationRequirement env plan.requirement = .ok () := by
  obtain ⟨before, call, after, hsplit, hbefore, hafter⟩ := @run_first _ _ (step env)
    (fun w : World => ∃ t' ∈ w.db.tasks, t'.taskId = t.taskId ∧ t'.state = .completed)
    (initial workers) calls (by rintro ⟨t', ht', -⟩; cases ht') ⟨t, ht, rfl, hdone⟩
  obtain ⟨hwf, hvalid⟩ := @run_changes_invariant env (Db.Valid env) (fun _ => True)
    (fun call db db' _ _ hchange => hchange.valid) (initial workers) before
    (initial_wellFormed workers) (fun _ ht => by cases ht) (fun _ _ => trivial)
  obtain ⟨t', ht', hid, hdone'⟩ := hafter
  have hend : reach env workers calls =
      run (step env) (step env (reach env workers before) call) after := by
    rw [hsplit, reach, run_append, run_cons]
    rfl
  -- a completed task stays as it is, so the row of the end is the row of this step
  have hsame : t' = t := by
    have hwf' := (step_changes env hwf call).wellFormed hwf
    obtain ⟨hfinal, -⟩ := @run_terminal env _ _ hwf' ht' (by rw [hdone']; rfl) after
    have hfound := (reach_lifecycle env workers calls).1.findTask ht
    rw [hend, ← hid] at hfound
    exact Option.some.inj (hfinal.symm.trans hfound)
  subst hsame
  have hopen : ∀ old ∈ (reach env workers before).db.tasks, old.taskId = t'.taskId →
      old.state ≠ .completed := by
    intro old hold hid' hdone
    exact hbefore ⟨old, hold, hid', hdone⟩
  obtain ⟨claimId, attestations, plan, aggregate, rfl, hplan, hagg, hpass, hplanId, hjson⟩ :=
    step_completes hwf hopen ht' hdone
  obtain ⟨hct, -, hreq, -⟩ := attestPlan_eq_ok.1 hplan
  obtain ⟨ms, hobj, hchecked⟩ := hvalid plan.task (claimAndTask_holds hct).1.task
  have hrequirement : plan.requirement = (ms.lookup "attestation_requirement").getD (.obj []) := by
    rw [hobj] at hreq
    exact (Except.ok.inj hreq).symm
  refine ⟨before, claimId, attestations, after, plan, aggregate, hsplit, hplan, hagg, hpass,
    hplanId, ?_, hjson ▸ hreq, hrequirement ▸ hchecked⟩
  rw [reach, run_append]
  exact ht'

/-- In a run whose attestations are to the point, every completed task meets its requirement:
the attestation that completed it carried requested passing evidence up to the threshold. -/
theorem reach_completed_meets (env : Env) (workers : List WcpWorker) (calls : List Call)
    (hpoint : ∀ before call after, calls = before ++ call :: after →
      ToThePoint env (reach env workers before) call)
    (t : WcpTask) (ht : t ∈ (reach env workers calls).db.tasks) (hdone : t.state = .completed) :
    ∃ before claimId attestations after plan,
      calls = before ++ .attest claimId attestations :: after ∧
      attestPlan env (reach env workers before).db claimId attestations = .ok plan ∧
      plan.task.taskId = t.taskId ∧
      t ∈ (reach env workers (before ++ [.attest claimId attestations])).db.tasks ∧
      t.taskJson.getD "attestation_requirement" (.obj []) =
        (.ok plan.requirement : Except Err Json) ∧
      RequirementMet plan.requirement (plan.counted env claimId) := by
  obtain ⟨before, claimId, attestations, after, plan, aggregate, hsplit, hplan, hagg, hpass, hid,
    hmem, hreq, hvalid⟩ := reach_completed_by workers calls ht hdone
  obtain ⟨hrequested, hpositive⟩ := hpoint before _ after hsplit claimId attestations plan rfl hplan
  exact ⟨before, claimId, attestations, after, plan, hsplit, hplan, hid, hmem, hreq,
    AttestPlan.requirementMet hagg hpass hvalid hrequested hpositive⟩

theorem localCompleted_toThePoint (before : List Call) (call : Call) (after : List Call)
    (h : localCompleted = before ++ call :: after) :
    ToThePoint localEnv (reach localEnv [zeroWorker] before) call := by
  rintro claimId attestations plan rfl hplan
  have hlast : before = localStart anySensor ∧
      Call.attest claimId attestations = .attest localClaimId (.arr [coverageEvidence]) := by
    rcases before with _ | ⟨a, _ | ⟨b, _ | ⟨c, _ | ⟨d, rest⟩⟩⟩⟩
    · cases h
    · cases h
    · cases h
    · cases h
      exact ⟨rfl, rfl⟩
    · simp [localCompleted, localStart] at h
  obtain ⟨rfl, hcall⟩ := hlast
  cases hcall
  have hcheck : ((attestPlan localEnv
      (reach localEnv [zeroWorker] (localStart anySensor)).db localClaimId
      (.arr [coverageEvidence])).toOption.any fun plan =>
        decide (plan.requirement = .obj anySensor) &&
          plan.items.all fun ev => requested plan.requirement ev) = true := by decide +kernel
  simp only [hplan, Except.toOption, Option.any_some, Bool.and_eq_true, decide_eq_true_eq,
    List.all_eq_true] at hcheck
  refine ⟨fun ev hev _ => hcheck.2 ev hev, ?_⟩
  rw [hcheck.1]
  intro hmn
  have hany : Json.str "any" = .str "M-of-N" := Except.ok.inj hmn
  simp at hany

theorem reach_completed_meets_coverage :
    ∃ t ∈ (reach localEnv [zeroWorker] localCompleted).db.tasks, t.state = .completed ∧
      ∃ before claimId attestations after plan,
        localCompleted = before ++ .attest claimId attestations :: after ∧
        attestPlan localEnv (reach localEnv [zeroWorker] before).db claimId attestations =
          .ok plan ∧
        plan.task.taskId = t.taskId ∧
        RequirementMet plan.requirement (plan.counted localEnv claimId) := by
  have hsome : ((reach localEnv [zeroWorker] localCompleted).db.tasks.find? fun t =>
      t.state = .completed).isSome = true := by decide +kernel
  obtain ⟨t, ht⟩ := Option.isSome_iff_exists.1 hsome
  have hmem := List.mem_of_find?_eq_some ht
  have hdone : t.state = .completed := by simpa using List.find?_some ht
  obtain ⟨before, claimId, attestations, after, plan, hsplit, hplan, hid, -, -, hmet⟩ :=
    reach_completed_meets localEnv [zeroWorker] localCompleted localCompleted_toThePoint t hmem
      hdone
  exact ⟨t, hmem, hdone, before, claimId, attestations, after, plan, hsplit, hplan, hid, hmet⟩

/-- Evidence of a mode that the task does not ask for, which passes. -/
def beaconEvidence : Json := localEvidence "third-party-witness" "iot_beacon_proximity"
  [("beacon_id", .str "b"), ("rssi", .int 1), ("observed_at", .str "now")]

/-- A task that asks for sensor evidence is completed by a beacon sighting: nothing that it
requested was submitted. -/
theorem beacon_completes_sensor_task :
    ∃ t ∈ (reach localEnv [zeroWorker] (localStart anySensor ++
        [.attest localClaimId (.arr [beaconEvidence])])).db.tasks, t.state = .completed ∧
      ∃ plan, attestPlan localEnv (reach localEnv [zeroWorker] (localStart anySensor)).db
          localClaimId (.arr [beaconEvidence]) = .ok plan ∧
        plan.task.taskId = t.taskId ∧
        ¬ RequirementMet plan.requirement (plan.counted localEnv localClaimId) := by
  have hcheck : ((attestPlan localEnv
      (reach localEnv [zeroWorker] (localStart anySensor)).db localClaimId
      (.arr [beaconEvidence])).toOption.any fun plan =>
        decide (plan.requirement = .obj anySensor) &&
          (plan.counted localEnv localClaimId).isEmpty &&
          (reach localEnv [zeroWorker] (localStart anySensor ++
            [.attest localClaimId (.arr [beaconEvidence])])).db.tasks.any fun t =>
              decide (t.state = .completed ∧ plan.task.taskId = t.taskId)) = true := by
    decide +kernel
  obtain ⟨plan, hplan, hchecked⟩ := toOption_any.1 hcheck
  simp only [Bool.and_eq_true, List.any_eq_true, decide_eq_true_eq, List.isEmpty_iff] at hchecked
  obtain ⟨⟨hreq, hnone⟩, t, ht, hdone, hid⟩ := hchecked
  refine ⟨t, ht, hdone, plan, hplan, hid, fun hmet => ?_⟩
  exact hmet.any (by rw [hreq]; rfl) hnone

end Wcp.Coordinator
