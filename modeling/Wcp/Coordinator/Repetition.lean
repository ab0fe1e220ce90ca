import Wcp.Base.JsonSets
import Wcp.Coordinator.Attestation
import Wcp.Coordinator.LocalEnvironment
/-!
# Repeated evidence

Thresholds `any` and `all` ask which outcomes occur, so copies of an item change
nothing.  A quorum counts outcomes: copies raise the counts, and the decision is
stable exactly when no count that is short of the quorum can be raised to it.
-/

namespace Wcp.Coordinator

open Wcp.Base

variable {env : Env}

/-! ## Thresholds that look at sets -/

/-- The quorum of a requirement whose threshold counts outcomes. -/
def quorum (env : Env) (requirement : Json) : Option Int :=
  match (requirement.getD "threshold" (.str "all") : Except Err Json),
      thresholdBounds env requirement with
  | .ok threshold, .ok (some (m, n)) =>
      if threshold = .str "M-of-N" ∧ m ≤ n then some m else none
  | _, _ => none

section SameOutcomes

variable {o o' : Outcomes} (hsame : ∀ x, x ∈ o ↔ x ∈ o')
include hsame

theorem countDecision_pos_congr (d : VerifierDecision) :
    0 < countDecision d o ↔ 0 < countDecision d o' := by
  unfold countDecision
  rw [List.countP_pos_iff, List.countP_pos_iff]
  exact exists_congr fun x => and_congr_left fun _ => hsame x

theorem evaluateAny_congr : (evaluateAny o).decision = (evaluateAny o').decision := by
  have hpass := countDecision_pos_congr hsame .pass
  have hreview := countDecision_pos_congr hsame .review
  have hfail := countDecision_pos_congr hsame .fail
  have hzero : countDecision .fail o = 0 ↔ countDecision .fail o' = 0 := by omega
  unfold evaluateAny
  simp only [ge_iff_le, Nat.one_le_iff_ne_zero, ← Nat.pos_iff_ne_zero, hpass, hreview, hzero]
  split_ifs <;> rfl

theorem mem_passing_congr (x : Json) :
    x ∈ (o.filter fun p => p.2.decision = .pass).map (·.1) ↔
      x ∈ (o'.filter fun p => p.2.decision = .pass).map (·.1) := by
  simp only [List.mem_map, List.mem_filter]
  exact exists_congr fun p => and_congr_left fun _ => and_congr_left fun _ => hsame p

theorem passingModes_congr :
    (∃ e : Err, (Json.arr ((o.filter fun p => p.2.decision = .pass).map (·.1))).toSet = .error e ∧
      (Json.arr ((o'.filter fun p => p.2.decision = .pass).map (·.1))).toSet = .error e) ∨
    ∃ s s', (Json.arr ((o.filter fun p => p.2.decision = .pass).map (·.1))).toSet =
        (.ok s : Except Err _) ∧
      (Json.arr ((o'.filter fun p => p.2.decision = .pass).map (·.1))).toSet =
        (.ok s' : Except Err _) ∧
      ∀ r, s.any (·.pyEq r) = s'.any (·.pyEq r) := by
  have hmem := mem_passing_congr hsame
  generalize (o.filter fun p => p.2.decision = .pass).map (·.1) = xs at *
  generalize (o'.filter fun p => p.2.decision = .pass).map (·.1) = ys at *
  have hhash : xs.all Json.hashable = ys.all Json.hashable := by
    rw [Bool.eq_iff_iff, List.all_eq_true, List.all_eq_true]
    exact forall_congr' fun x => imp_congr_left (hmem x)
  rw [Json.toSet_arr, Json.toSet_arr, ← hhash]
  by_cases hall : xs.all Json.hashable = true
  · rw [if_pos hall, if_pos hall]
    refine .inr ⟨_, _, rfl, rfl, fun r => ?_⟩
    rw [Json.any_foldl_insertNew (List.all_eq_true.1 hall),
      Json.any_foldl_insertNew (List.all_eq_true.1 (hhash ▸ hall))]
    exact Json.any_pyEq_congr hmem r
  · rw [if_neg hall, if_neg hall]
    exact .inl ⟨_, rfl, rfl⟩

theorem evaluateAll_congr (requirement : Json) :
    (evaluateAll env requirement o).map (·.decision) =
      (evaluateAll env requirement o').map (·.decision) := by
  have hpos := countDecision_pos_congr hsame .fail
  have hzero : countDecision .fail o = 0 ↔ countDecision .fail o' = 0 := by omega
  unfold evaluateAll
  simp only [bind, Except.bind]
  cases (requirement.get "modes" : Except Err Json) with
  | error e => rfl
  | ok modes =>
      dsimp only
      cases ((modes.or (.arr [])).toSet : Except Err (List Json)) with
      | error e => rfl
      | ok required =>
          dsimp only
          obtain ⟨e, he, he'⟩ | ⟨s, s', hs, hs', hany⟩ := passingModes_congr hsame
          · rw [he, he']
          · rw [hs, hs']
            have hsubset : Json.subset required s = Json.subset required s' := by
              simp only [Json.subset, hany]
            have hdiff : Json.difference required s = Json.difference required s' := by
              simp only [Json.difference, hany]
            simp only [hsubset, hdiff, gt_iff_lt, hpos, hzero]
            split_ifs
            · rfl
            · cases (Json.sorted (Json.difference required s') : Except Err (List Json)) <;> rfl
            · rfl

/-- Without a quorum the decision depends on which outcomes occur only. -/
theorem evaluateThreshold_congr {requirement : Json} (hquorum : quorum env requirement = none) :
    (evaluateThreshold env requirement o).map (·.decision) =
      (evaluateThreshold env requirement o').map (·.decision) := by
  unfold quorum at hquorum
  unfold evaluateThreshold
  simp only [bind, Except.bind]
  cases hth : (requirement.getD "threshold" (.str "all") : Except Err Json) with
  | error e => rfl
  | ok threshold =>
      rw [hth] at hquorum
      dsimp only at hquorum ⊢
      split_ifs with hany hall hmn
      · exact congrArg Except.ok (evaluateAny_congr hsame)
      · exact evaluateAll_congr hsame requirement
      · cases hb : thresholdBounds env requirement with
        | error e => rfl
        | ok b =>
            cases b with
            | none => rfl
            | some mn =>
                obtain ⟨m, n⟩ := mn
                rw [hb] at hquorum
                have hlt : m > n := by
                  by_contra hle
                  simp [hmn, not_lt.1 hle] at hquorum
                simp only [evaluateMofN, if_pos hlt]
      · rfl

end SameOutcomes

/-! ## Thresholds that count -/

def quorumDecision (m : Int) (o : Outcomes) : VerifierDecision :=
  if (countDecision .pass o : Int) ≥ m then .pass
  else if (countDecision .pass o : Int) + countDecision .review o ≥ m ∧
      countDecision .fail o = 0 then .review
  else .fail

theorem evaluateThreshold_quorum {requirement : Json} {m : Int}
    (hquorum : quorum env requirement = some m) (o : Outcomes) :
    (evaluateThreshold env requirement o).map (·.decision) = .ok (quorumDecision m o) := by
  unfold quorum at hquorum
  split at hquorum
  · next threshold m' n hth hb =>
      split at hquorum
      · next h =>
          obtain ⟨rfl, hle⟩ := h
          cases hquorum
          unfold evaluateThreshold
          rw [hth, hb]
          simp only [bind, Except.bind, evaluateMofN, if_neg (not_lt.2 hle), quorumDecision]
          split_ifs <;> first | rfl | simp_all
      · cases hquorum
  · cases hquorum

/-- Whether copies of some outcomes leave the decision of a quorum as it is: the quorum is
reached, or nothing that counts towards it is there to be copied, or a failure that blocks a
review is, or the review stands already. -/
def Settled (m : Int) (o : Outcomes) : Prop :=
  m ≤ countDecision .pass o ∨
    countDecision .pass o = 0 ∧
      (0 < countDecision .fail o ∨ countDecision .review o = 0 ∨ m ≤ countDecision .review o)

theorem Settled.quorumDecision_eq {m : Int} {o o' : Outcomes} (hsettled : Settled m o)
    (hsame : ∀ x, x ∈ o ↔ x ∈ o') (hmore : ∀ d, countDecision d o ≤ countDecision d o') :
    quorumDecision m o' = quorumDecision m o := by
  have hpass := countDecision_pos_congr hsame .pass
  have hreview := countDecision_pos_congr hsame .review
  have hfail := countDecision_pos_congr hsame .fail
  have hpassLe := hmore .pass
  have hreviewLe := hmore .review
  unfold quorumDecision
  by_cases hreached : m ≤ countDecision .pass o
  · rw [if_pos hreached, if_pos (by omega)]
  · obtain ⟨hnone, hrest⟩ := hsettled.resolve_left hreached
    rw [if_neg (show ¬ (countDecision .pass o' : Int) ≥ m by omega), if_neg hreached]
    rcases hrest with hblocked | hnone' | hstands
    · rw [if_neg (by omega), if_neg (by omega)]
    · rw [if_neg (by omega), if_neg (by omega)]
    · by_cases hf : countDecision .fail o = 0
      · rw [if_pos (by omega), if_pos (by omega)]
      · rw [if_neg (by omega), if_neg (by omega)]

theorem countDecision_replicate_append (d : VerifierDecision) (k : Nat)
    (x : Json × VerificationOutcome) (o : Outcomes) :
    countDecision d (List.replicate k x ++ o) =
      (if x.2.decision = d then k else 0) + countDecision d o := by
  unfold countDecision
  rw [List.countP_append, List.countP_replicate]
  simp only [decide_eq_true_eq]

/-- An unsettled decision changes when one of the outcomes is repeated often enough. -/
theorem exists_copies_of_not_settled {m : Int} {o : Outcomes} (h : ¬ Settled m o) :
    ∃ x ∈ o, ∃ k, quorumDecision m (List.replicate k x ++ o) ≠ quorumDecision m o := by
  have hcopies : ∀ d, 0 < countDecision d o → ∃ x ∈ o, x.2.decision = d := by
    intro d hd
    obtain ⟨x, hx, hdec⟩ := List.countP_pos_iff.1 hd
    exact ⟨x, hx, of_decide_eq_true hdec⟩
  unfold Settled at h
  by_cases hpass : 0 < countDecision .pass o
  · obtain ⟨x, hx, hdec⟩ := hcopies .pass hpass
    refine ⟨x, hx, m.toNat, ?_⟩
    unfold quorumDecision
    rw [countDecision_replicate_append, if_pos hdec, if_pos (by omega), if_neg (by omega)]
    split_ifs <;> simp
  · obtain ⟨x, hx, hdec⟩ := hcopies .review (by omega)
    refine ⟨x, hx, m.toNat, ?_⟩
    unfold quorumDecision
    simp only [countDecision_replicate_append, hdec, reduceCtorEq, if_false, if_true]
    rw [if_neg (by omega), if_pos (by omega), if_neg (by omega), if_neg (by omega)]
    simp

/-! ## Submissions -/

/-- The second list is the first with further copies of its items put in. -/
structure AddsCopies (E E' : List Json) : Prop where
  sublist : E.Sublist E'
  subset : E' ⊆ E

theorem AddsCopies.mem_iff {E E' : List Json} (h : AddsCopies E E') (x : Json) : x ∈ E' ↔ x ∈ E :=
  ⟨fun hx => h.subset hx, fun hx => h.sublist.subset hx⟩

theorem judgedBefore_of_forall {judge : Json → Except Err EvidenceVerdict}
    {g : Json → EvidenceVerdict} {E : List Json} (h : ∀ x ∈ E, judge x = .ok (g x)) :
    judgedBefore judge E = E.map g := by
  induction E with
  | nil => rfl
  | cons x xs ih =>
      rw [judgedBefore, h x List.mem_cons_self, List.map_cons,
        ← ih fun y hy => h y (List.mem_cons_of_mem x hy)]

/-- What the aggregation sees of a list of judged items. -/
def outcomesOf (g : Json → EvidenceVerdict) (E : List Json) : Outcomes := E.map fun x => (g x).pair

theorem outcomesOf_copies {g : Json → EvidenceVerdict} {E E' : List Json} (h : AddsCopies E E')
    (x : Json × VerificationOutcome) : x ∈ outcomesOf g E ↔ x ∈ outcomesOf g E' := by
  simp only [outcomesOf, List.mem_map, h.mem_iff]

theorem countDecision_copies {g : Json → EvidenceVerdict} {E E' : List Json}
    (h : AddsCopies E E') (d : VerifierDecision) :
    countDecision d (outcomesOf g E) ≤ countDecision d (outcomesOf g E') :=
  (h.sublist.map _).countP_le

/-- An accepted submission: what was read, how every item was judged, and the decision. -/
structure Accepted (env : Env) (w : World) (claimId : Json) (E : List Json) (plan : AttestPlan)
    (g : Json → EvidenceVerdict) (decision : VerifierDecision) : Prop where
  plan_eq : attestPlan env w.db claimId (.arr E) = .ok plan
  judged : ∀ x ∈ E, plan.judge env claimId x = .ok (g x)
  decided : (evaluateThreshold env plan.requirement (outcomesOf g E)).map (·.decision) =
    .ok decision
  clean : w.doomed = false
  binds : ∀ x ∈ E, ∀ row, (g x).row = some row → row.binds env = true
  storable : plan.storable env claimId decision = true

theorem accepted_of_attest {w : World} {claimId : Json} {E : List Json} {r : AttestResult}
    (h : (attest env claimId (.arr E) w).1 = .ok r) :
    ∃ plan g, Accepted env w claimId E plan g r.verifierDecision := by
  obtain ⟨hclean, plan, aggregate, hplan, hagg, hbinds, hstorable, rfl⟩ := attest_eq_ok.1 h
  obtain ⟨vs, hvs, hdec⟩ := bind_eq_ok.1 hagg
  obtain ⟨-, -, -, -, -, -, hitems⟩ := attestPlan_eq_ok.1 hplan
  have hE : E = plan.items := Except.ok.inj hitems
  have : Nonempty EvidenceVerdict := ⟨⟨.null, .pass, none⟩⟩
  obtain ⟨g, hg, rfl⟩ := exists_map_of_mapM hvs
  refine ⟨plan, g, hplan, hE ▸ hg, ?_, hclean, ?_, hstorable⟩
  · rw [List.map_map] at hdec
    rw [hE]
    exact congrArg (Except.map (·.decision)) hdec
  · intro x hx row hrow
    rw [judgedBefore_of_forall hg] at hbinds
    refine List.all_eq_true.1 hbinds row (List.mem_filterMap.2 ⟨g x, ?_, hrow⟩)
    exact List.mem_map_of_mem (hE ▸ hx)

/-- Copies are judged like the items they copy, so only the decision can differ. -/
theorem Accepted.attest_copies {w : World} {claimId : Json} {E E' : List Json} {plan : AttestPlan}
    {g : Json → EvidenceVerdict} {d d' : VerifierDecision} (h : Accepted env w claimId E plan g d)
    (hcopies : AddsCopies E E')
    (hdecided : (evaluateThreshold env plan.requirement (outcomesOf g E')).map (·.decision) =
      .ok d') (hstorable : plan.storable env claimId d' = true) :
    ∃ r', (attest env claimId (.arr E') w).1 = .ok r' ∧ r'.verifierDecision = d' := by
  have hjudged : ∀ x ∈ E', plan.judge env claimId x = .ok (g x) := by
    intro x hx
    exact h.judged x (hcopies.subset hx)
  have hplan := attestPlan_items h.plan_eq E'
  cases hagg : evaluateThreshold env plan.requirement (outcomesOf g E') with
  | error e =>
      rw [hagg] at hdecided
      cases hdecided
  | ok aggregate =>
      rw [hagg] at hdecided
      cases hdecided
      refine ⟨_, attest_eq_ok.2 ⟨h.clean, _, aggregate, hplan, ?_, ?_, hstorable, rfl⟩, rfl⟩
      · refine bind_eq_ok.2 ⟨E'.map g, mapM_of_forall hjudged, ?_⟩
        rw [List.map_map]
        exact hagg
      · have hbefore := judgedBefore_of_forall hjudged
        refine List.all_eq_true.2 fun row hrow => ?_
        obtain ⟨v, hv, hrow⟩ := List.mem_filterMap.1 (hbefore ▸ hrow)
        obtain ⟨x, hx, rfl⟩ := List.mem_map.1 hv
        exact h.binds x (hcopies.subset hx) row hrow

/-- The decision on accepted copies, from the verdicts on the items they copy. -/
theorem Accepted.decided_copies {w : World} {claimId : Json} {E E' : List Json}
    {plan : AttestPlan} {g : Json → EvidenceVerdict} {d : VerifierDecision} {r' : AttestResult}
    (h : Accepted env w claimId E plan g d) (hcopies : AddsCopies E E')
    (hr' : (attest env claimId (.arr E') w).1 = .ok r') :
    (evaluateThreshold env plan.requirement (outcomesOf g E')).map (·.decision) =
      .ok r'.verifierDecision := by
  obtain ⟨plan', g', hacc'⟩ := accepted_of_attest hr'
  have hplan' : plan' = { plan with items := E' } :=
    Except.ok.inj (hacc'.plan_eq.symm.trans (attestPlan_items h.plan_eq E'))
  subst hplan'
  have hsame : outcomesOf g' E' = outcomesOf g E' := by
    refine List.map_congr_left fun x hx => ?_
    have hg : g' x = g x :=
      Except.ok.inj ((hacc'.judged x hx).symm.trans (h.judged x (hcopies.subset hx)))
    rw [hg]
  rw [← hsame]
  exact hacc'.decided

/-- No quorum of the task is open to copies of the submitted items. -/
def CopiesSettled (env : Env) (db : Db) (claimId : Json) (E : List Json) : Prop :=
  ∀ plan verdicts m, attestPlan env db claimId (.arr E) = .ok plan →
    plan.verdicts env claimId = .ok verdicts → quorum env plan.requirement = some m →
    Settled m (verdicts.map EvidenceVerdict.pair)

theorem Accepted.copiesSettled_iff {w : World} {claimId : Json} {E : List Json}
    {plan : AttestPlan} {g : Json → EvidenceVerdict} {d : VerifierDecision}
    (h : Accepted env w claimId E plan g d) :
    CopiesSettled env w.db claimId E ↔
      ∀ m, quorum env plan.requirement = some m → Settled m (outcomesOf g E) := by
  obtain ⟨-, -, -, -, -, -, hitems⟩ := attestPlan_eq_ok.1 h.plan_eq
  have hE : E = plan.items := Except.ok.inj hitems
  have hverdicts : plan.verdicts env claimId = .ok (E.map g) :=
    hE ▸ mapM_of_forall (hE ▸ h.judged)
  have hmap : (E.map g).map EvidenceVerdict.pair = outcomesOf g E := List.map_map
  constructor
  · intro hs m hm
    exact hmap ▸ hs plan _ m h.plan_eq hverdicts hm
  · intro hs plan' verdicts m hplan hvs hm
    cases h.plan_eq.symm.trans hplan
    cases hverdicts.symm.trans hvs
    exact hmap ▸ hs m hm

/-- Repeating evidence gains nothing exactly where no quorum is open to copies. -/
theorem attest_copies_iff {w : World} {claimId : Json} {E : List Json} {r : AttestResult}
    (h : (attest env claimId (.arr E) w).1 = .ok r) :
    (∀ E', AddsCopies E E' → ∃ r', (attest env claimId (.arr E') w).1 = .ok r' ∧
      r'.verifierDecision = r.verifierDecision) ↔ CopiesSettled env w.db claimId E := by
  obtain ⟨plan, g, hacc⟩ := accepted_of_attest h
  rw [hacc.copiesSettled_iff]
  constructor
  · intro hsame m hm
    by_contra hopen
    obtain ⟨x, hx, k, hne⟩ := exists_copies_of_not_settled hopen
    obtain ⟨y, hy, rfl⟩ := List.mem_map.1 hx
    have hcopies : AddsCopies E (List.replicate k y ++ E) := by
      refine ⟨List.sublist_append_right _ _, ?_⟩
      intro z hz
      rcases List.mem_append.1 hz with hz | hz
      · exact List.eq_of_mem_replicate hz ▸ hy
      · exact hz
    obtain ⟨r', hr', hdec⟩ := hsame _ hcopies
    have hquorum := hacc.decided
    have hquorum' := hacc.decided_copies hcopies hr'
    rw [hdec, ← hquorum, evaluateThreshold_quorum hm, evaluateThreshold_quorum hm,
      outcomesOf, List.map_append, List.map_replicate] at hquorum'
    exact hne (Except.ok.inj hquorum')
  · intro hsettled E' hcopies
    refine hacc.attest_copies hcopies ?_ hacc.storable
    rw [← hacc.decided]
    cases hquorum : quorum env plan.requirement with
    | none => exact (evaluateThreshold_congr (outcomesOf_copies hcopies) hquorum).symm
    | some m =>
        rw [evaluateThreshold_quorum hquorum, evaluateThreshold_quorum hquorum,
          (hsettled m hquorum).quorumDecision_eq (outcomesOf_copies hcopies)
            (countDecision_copies hcopies)]

/-- Two passing items of sensor evidence out of three. -/
def twoOfThree : List (String × Json) := [
  ("modes", .arr [.str "sensor-witness"]),
  ("threshold", .str "M-of-N"),
  ("M", .int 2),
  ("N", .int 3)]

/-- Two distinct items reach the quorum, and copies of them change nothing. -/
theorem attest_copies_iff_twoOfThree :
    ∃ r, (attest localEnv localClaimId (.arr [coverageEvidence, otherCoverage])
        (reach localEnv [zeroWorker] (localStart twoOfThree))).1 = .ok r ∧
      r.verifierDecision = .pass ∧
      ∀ E', AddsCopies [coverageEvidence, otherCoverage] E' →
        ∃ r', (attest localEnv localClaimId (.arr E')
            (reach localEnv [zeroWorker] (localStart twoOfThree))).1 = .ok r' ∧
          r'.verifierDecision = r.verifierDecision := by
  have hcheck : ((attest localEnv localClaimId (.arr [coverageEvidence, otherCoverage])
      (reach localEnv [zeroWorker] (localStart twoOfThree))).1.toOption.any fun r =>
        decide (r.verifierDecision = .pass)) = true := by decide +kernel
  have hsettled : ((attestPlan localEnv
      (reach localEnv [zeroWorker] (localStart twoOfThree)).db localClaimId
      (.arr [coverageEvidence, otherCoverage])).toOption.any fun plan =>
        (plan.verdicts localEnv localClaimId).toOption.any fun vs =>
          decide (quorum localEnv plan.requirement = some 2 ∧
            2 ≤ countDecision .pass (vs.map EvidenceVerdict.pair))) = true := by decide +kernel
  obtain ⟨r, hr, hpass⟩ := toOption_any.1 hcheck
  refine ⟨r, hr, of_decide_eq_true hpass, (attest_copies_iff hr).2 ?_⟩
  intro plan verdicts m hplan hverdicts hquorum
  simp only [hplan, hverdicts, Except.toOption, Option.any_some, decide_eq_true_eq] at hsettled
  obtain ⟨htwo, hle⟩ := hsettled
  cases hquorum.symm.trans htwo
  left
  omega

/-- One item, submitted twice, meets a quorum that it does not meet once. -/
theorem coverage_submitted_twice :
    AddsCopies [coverageEvidence] [coverageEvidence, coverageEvidence] ∧
      ∃ r r', (attest localEnv localClaimId (.arr [coverageEvidence])
          (reach localEnv [zeroWorker] (localStart twoOfThree))).1 = .ok r ∧
        (attest localEnv localClaimId (.arr [coverageEvidence, coverageEvidence])
          (reach localEnv [zeroWorker] (localStart twoOfThree))).1 = .ok r' ∧
        r.verifierDecision = .fail ∧ r'.verifierDecision = .pass := by
  refine ⟨⟨List.sublist_cons_self _ _, by simp⟩, ?_⟩
  have honce : ((attest localEnv localClaimId (.arr [coverageEvidence])
      (reach localEnv [zeroWorker] (localStart twoOfThree))).1.toOption.any fun r =>
        decide (r.verifierDecision = .fail)) = true := by decide +kernel
  have htwice : ((attest localEnv localClaimId (.arr [coverageEvidence, coverageEvidence])
      (reach localEnv [zeroWorker] (localStart twoOfThree))).1.toOption.any fun r =>
        decide (r.verifierDecision = .pass)) = true := by decide +kernel
  obtain ⟨r, hr, hfail⟩ := toOption_any.1 honce
  obtain ⟨r', hr', hpass⟩ := toOption_any.1 htwice
  exact ⟨r, r', hr, hr', of_decide_eq_true hfail, of_decide_eq_true hpass⟩

end Wcp.Coordinator
