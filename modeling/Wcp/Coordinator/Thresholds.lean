import Wcp.Base.Ballot
import Wcp.Coordinator.Completion
/-!
# What a threshold makes of outcomes

The requirement alone fixes a rule, and `evaluate_threshold` decides the outcomes by
that rule (`evaluateThreshold_rule`), unless a bound of the quorum is an infinite
number.  What holds of every rule holds of the aggregation.
-/

namespace Wcp.Coordinator

open Wcp.Base

variable {env : Env} {requirement : Json} {o : Outcomes}

/-! ## Outcomes as a ballot -/

def VerifierDecision.verdict : VerifierDecision → Verdict
  | .fail => .fail
  | .review => .review
  | .pass => .pass

/-- The decisions under their modes. -/
def ballot (o : Outcomes) : Ballot Json := o.map fun p => (p.1, p.2.decision.verdict)

/-- Every outcome stands under a string. -/
def Named (o : Outcomes) : Prop := ∀ p ∈ o, ∃ s, p.1 = .str s

def decisionOf (env : Env) (requirement : Json) (o : Outcomes) : Except Err Verdict :=
  (evaluateThreshold env requirement o).map (·.decision.verdict)

theorem VerifierDecision.verdict_eq_iff {a b : VerifierDecision} :
    a.verdict = b.verdict ↔ a = b := by
  cases a <;> cases b <;> decide

theorem count_ballot (d : VerifierDecision) (o : Outcomes) :
    (ballot o).count d.verdict = countDecision d o := by
  unfold Ballot.count ballot countDecision
  rw [List.countP_map]
  refine List.countP_congr fun p _ => ?_
  simp only [Function.comp_apply, decide_eq_true_eq, VerifierDecision.verdict_eq_iff]

theorem mem_ballot {x : Json} {d : VerifierDecision} :
    (x, d.verdict) ∈ ballot o ↔ ∃ p ∈ o, p.1 = x ∧ p.2.decision = d := by
  unfold ballot
  rw [List.mem_map]
  simp only [Prod.mk.injEq, VerifierDecision.verdict_eq_iff]

/-! ## The rules -/

theorem evaluateAny_decision (o : Outcomes) :
    (evaluateAny o).decision.verdict = (ballot o).decideAny := by
  have hpass := count_ballot .pass o
  have hreview := count_ballot .review o
  have hfail := count_ballot .fail o
  unfold evaluateAny Ballot.decideAny
  simp only [VerifierDecision.verdict] at hpass hreview hfail
  rw [hpass, hreview, hfail]
  split_ifs <;> rfl

theorem evaluateMofN_decision {m n : Int} (hmn : m ≤ n) (o : Outcomes) :
    (evaluateMofN m n o).decision.verdict = (ballot o).decideQuorum m := by
  have hpass := count_ballot .pass o
  have hreview := count_ballot .review o
  have hfail := count_ballot .fail o
  unfold evaluateMofN Ballot.decideQuorum
  simp only [VerifierDecision.verdict] at hpass hreview hfail
  rw [hpass, hreview, hfail, if_neg (not_lt.2 hmn)]
  split_ifs <;> rfl

/-! ## Required modes -/

/-- The modes that pass, as the aggregation collects them. -/
def passingModes (o : Outcomes) : List Json :=
  (o.filter fun p => p.2.decision = .pass).map (·.1)

theorem mem_passingModes {x : Json} : x ∈ passingModes o ↔ (x, Verdict.pass) ∈ ballot o := by
  rw [show (x, Verdict.pass) = (x, VerifierDecision.verdict .pass) from rfl, mem_ballot]
  unfold passingModes
  rw [List.mem_map]
  constructor
  · rintro ⟨p, hp, rfl⟩
    obtain ⟨hmem, hpass⟩ := List.mem_filter.1 hp
    exact ⟨p, hmem, rfl, of_decide_eq_true hpass⟩
  · rintro ⟨p, hmem, rfl, hpass⟩
    exact ⟨p, List.mem_filter.2 ⟨hmem, decide_eq_true hpass⟩, rfl⟩

theorem passingModes_str (hnamed : Named o) : ∀ x ∈ passingModes o, ∃ s, x = .str s := by
  intro x hx
  obtain ⟨p, hp, rfl⟩ := List.mem_map.1 hx
  exact hnamed p (List.mem_filter.1 hp).1

theorem passingModes_hashable (hnamed : Named o) :
    ∀ x ∈ passingModes o, x.hashable = true := by
  intro x hx
  obtain ⟨s, rfl⟩ := passingModes_str hnamed x hx
  rfl

theorem any_passingModes (hnamed : Named o) (x : Json) :
    ((passingModes o).foldl Json.insertNew []).any (·.pyEq x) = true ↔
      (x, Verdict.pass) ∈ ballot o := by
  rw [Json.any_foldl_insertNew (passingModes_hashable hnamed), List.any_eq_true,
    ← mem_passingModes]
  constructor
  · rintro ⟨y, hy, heq⟩
    obtain ⟨s, rfl⟩ := passingModes_str hnamed y hy
    exact str_pyEq heq ▸ hy
  · intro hx
    obtain ⟨s, rfl⟩ := passingModes_str hnamed x hx
    exact ⟨_, hx, by rw [Json.pyEq]; exact beq_self_eq_true _⟩

theorem subset_passingModes (hnamed : Named o) (xs : List Json) :
    Json.subset (xs.foldl Json.insertNew []) ((passingModes o).foldl Json.insertNew []) = true ↔
      (ballot o).Covers xs := by
  unfold Json.subset Ballot.Covers
  rw [List.all_eq_true]
  simp only [any_passingModes hnamed]
  constructor
  · intro hset x hx
    rcases Json.mem_or_any_foldl_insertNew hx [] with hmem | hany
    · exact hset x hmem
    · obtain ⟨y, hy, heq⟩ := List.any_eq_true.1 hany
      have hcovered := hset y hy
      obtain ⟨s, rfl⟩ := passingModes_str hnamed y (mem_passingModes.2 hcovered)
      exact str_pyEq heq ▸ hcovered
  · intro hcovers x hx
    rcases Json.mem_of_mem_foldl_insertNew hx with hnil | hmem
    · cases hnil
    · exact hcovers x hmem

theorem difference_eq_nil {xs ys : List Json} :
    Json.difference xs ys = [] ↔ Json.subset xs ys = true := by
  unfold Json.difference Json.subset
  rw [List.filter_eq_nil_iff, List.all_eq_true]
  simp

theorem foldl_insertNew_eq_nil {xs : List Json} : xs.foldl Json.insertNew [] = [] ↔ xs = [] := by
  constructor
  · intro h
    by_contra hne
    obtain ⟨x, hx⟩ := List.exists_mem_of_ne_nil _ hne
    rcases Json.mem_or_any_foldl_insertNew hx [] with hmem | hany
    · rw [h] at hmem
      cases hmem
    · rw [h] at hany
      cases hany
  · rintro rfl
    rfl

theorem exists_modes {requirement : Json} (h : listed requirement "modes" ≠ []) :
    ∃ modes, requirement.get "modes" = (.ok modes : Except Err Json) ∧
      (modes.or (.arr [])).iter = (.ok (listed requirement "modes") : Except Err (List Json)) := by
  cases hread : (requirement.get "modes" >>= fun x => (x.or (.arr [])).iter :
      Except Err (List Json)) with
  | error e =>
      rw [listed, hread] at h
      exact absurd rfl h
  | ok xs =>
      obtain ⟨modes, hmodes, hiter⟩ := bind_eq_ok.1 hread
      exact ⟨modes, hmodes, by rw [listed, hread, hiter]⟩

section All

variable {modes : Json} {xs : List Json}

theorem evaluateAll_eq (hmodes : requirement.get "modes" = (.ok modes : Except Err Json))
    (hiter : (modes.or (.arr [])).iter = (.ok xs : Except Err (List Json)))
    (hhashable : xs.all Json.hashable = true) (hnamed : Named o) :
    evaluateAll env requirement o =
      if xs ≠ [] ∧ (ballot o).Covers xs ∧ (ballot o).count .fail = 0 then .ok .pass
      else if 0 < (ballot o).count .fail ∨ ¬ (ballot o).Covers xs then
        Json.sorted (Json.difference (xs.foldl Json.insertNew [])
          ((passingModes o).foldl Json.insertNew [])) >>= fun missing =>
        .ok (.fail (allReasons o ++ if missing ≠ [] then
          ["required mode(s) without passing evidence: " ++ env.repr (.arr missing)] else []))
      else .ok (.review (allReasons o)) := by
  have hset : (modes.or (.arr [])).toSet =
      (.ok (xs.foldl Json.insertNew []) : Except Err (List Json)) := by
    unfold Json.toSet
    rw [hiter]
    exact if_pos hhashable
  have hpassing : (Json.arr (passingModes o)).toSet =
      (.ok ((passingModes o).foldl Json.insertNew []) : Except Err (List Json)) := by
    rw [Json.toSet_arr, if_pos (List.all_eq_true.2 (passingModes_hashable hnamed))]
  have hfail := count_ballot .fail o
  simp only [VerifierDecision.verdict] at hfail
  unfold passingModes at hpassing
  unfold evaluateAll
  simp only [hmodes, hset, hpassing, bind, Except.bind, hfail, ne_eq, foldl_insertNew_eq_nil,
    difference_eq_nil]
  rw [← passingModes]
  simp only [subset_passingModes hnamed]
  rfl

theorem sorted_strings {xs : List Json} (h : ∀ x ∈ xs, ∃ s, x = .str s) :
    ∃ ys, (Json.sorted xs : Except Err (List Json)) = .ok ys := by
  unfold Json.sorted
  dsimp only
  rw [if_pos]
  · exact ⟨_, rfl⟩
  · refine .inr (.inl (List.all_eq_true.2 fun x hx => ?_))
    obtain ⟨s, rfl⟩ := h x hx
    rfl

theorem evaluateAll_decision (hmodes : requirement.get "modes" = (.ok modes : Except Err Json))
    (hiter : (modes.or (.arr [])).iter = (.ok xs : Except Err (List Json)))
    (hstr : ∀ x ∈ xs, ∃ s, x = .str s) (hnamed : Named o) :
    (evaluateAll env requirement o).map (·.decision.verdict) = .ok ((ballot o).decideAll xs) := by
  have hhashable : xs.all Json.hashable = true := by
    rw [List.all_eq_true]
    intro x hx
    obtain ⟨s, rfl⟩ := hstr x hx
    rfl
  have hmissing : ∀ x ∈ Json.difference (xs.foldl Json.insertNew [])
      ((passingModes o).foldl Json.insertNew []), ∃ s, x = .str s := by
    intro x hx
    rcases Json.mem_of_mem_foldl_insertNew (List.mem_filter.1 hx).1 with hnil | hmem
    · cases hnil
    · exact hstr x hmem
  obtain ⟨ys, hys⟩ := sorted_strings hmissing
  rw [evaluateAll_eq hmodes hiter hhashable hnamed, hys]
  unfold Ballot.decideAll
  split_ifs <;> rfl

/-- Threshold `all` passes and asks for a review exactly where its rule does, or raises. -/
theorem evaluateAll_cases (hmodes : requirement.get "modes" = (.ok modes : Except Err Json))
    (hiter : (modes.or (.arr [])).iter = (.ok xs : Except Err (List Json)))
    (hnamed : Named o) :
    (evaluateAll env requirement o).map (·.decision.verdict) = .ok ((ballot o).decideAll xs) ∨
      (∃ e, evaluateAll env requirement o = .error e) ∧ ¬ (ballot o).Covers xs := by
  by_cases hhashable : xs.all Json.hashable = true
  · rw [evaluateAll_eq hmodes hiter hhashable hnamed]
    unfold Ballot.decideAll
    by_cases hall : xs ≠ [] ∧ (ballot o).Covers xs ∧ (ballot o).count .fail = 0
    · rw [if_pos hall, if_pos hall]
      exact .inl rfl
    · rw [if_neg hall, if_neg hall]
      by_cases hbad : 0 < (ballot o).count .fail ∨ ¬ (ballot o).Covers xs
      · rw [if_pos hbad, if_pos hbad]
        cases hsorted : (Json.sorted (Json.difference (xs.foldl Json.insertNew [])
            ((passingModes o).foldl Json.insertNew [])) : Except Err (List Json)) with
        | ok missing => exact .inl rfl
        | error e =>
            refine .inr ⟨⟨e, rfl⟩, fun hcovers => ?_⟩
            rw [difference_eq_nil.2 ((subset_passingModes hnamed xs).2 hcovers)] at hsorted
            cases hsorted
      · rw [if_neg hbad, if_neg hbad]
        exact .inl rfl
  · refine .inr ⟨⟨.typeError, ?_⟩, fun hcovers => hhashable (List.all_eq_true.2 fun x hx => ?_)⟩
    · have hset : (modes.or (.arr [])).toSet = (.error .typeError : Except Err (List Json)) := by
        unfold Json.toSet
        rw [hiter]
        exact if_neg hhashable
      unfold evaluateAll
      rw [hmodes]
      show (modes.or (.arr [])).toSet >>= _ = _
      rw [hset]
      rfl
    · exact passingModes_hashable hnamed x (mem_passingModes.2 (hcovers x hx))

end All

/-! ## The rule of a requirement -/

/-- The rule that a requirement fixes. -/
def ruleOf (env : Env) (requirement : Json) : Except Err (Rule Json) := do
  let threshold ← requirement.getD "threshold" (.str "all")
  if threshold = .str "any" then return .any
  else if threshold = .str "all" then return .all (listed requirement "modes")
  else if threshold = .str "M-of-N" then
    match ← thresholdBounds env requirement with
    | none => return .never
    | some (m, n) => return if m > n then .never else .quorum m
  else return .never

def StringModes (requirement : Json) : Prop :=
  ∃ modes xs, requirement.get "modes" = (.ok modes : Except Err Json) ∧
    (modes.or (.arr [])).iter = (.ok xs : Except Err (List Json)) ∧ ∀ x ∈ xs, ∃ s, x = .str s

theorem evaluateThreshold_rule (hmodes : StringModes requirement) (hnamed : Named o) :
    decisionOf env requirement o = (ruleOf env requirement).map fun r => r.decide (ballot o) := by
  obtain ⟨modes, xs, hget, hiter, hstr⟩ := hmodes
  have hlisted : listed requirement "modes" = xs := by
    rw [listed, bind_eq_ok.2 ⟨modes, hget, hiter⟩]
  unfold decisionOf evaluateThreshold ruleOf
  simp only [bind, Except.bind]
  cases (requirement.getD "threshold" (.str "all") : Except Err Json) with
  | error e => rfl
  | ok threshold =>
      dsimp only
      split_ifs with hany hall hmn
      · exact congrArg Except.ok (evaluateAny_decision o)
      · rw [hlisted]
        exact evaluateAll_decision hget hiter hstr hnamed
      · cases thresholdBounds env requirement with
        | error e => rfl
        | ok b =>
            cases b with
            | none => rfl
            | some mn =>
                obtain ⟨m, n⟩ := mn
                by_cases hlt : m > n
                · simp only [evaluateMofN, if_pos hlt]
                  rfl
                · simp only [if_neg hlt]
                  exact congrArg Except.ok (evaluateMofN_decision (not_lt.1 hlt) o)
      · rfl

/-! ## Infinite bounds -/

/-- An infinite number, of which `int` makes an error that nothing catches. -/
def Infinite (v : Json) : Prop := ∃ f negative, v = .float f ∧ f.value = .inf negative

/-- The threshold counts, and the conversion of its bounds meets an infinite number: in `M`, or in
`N` once `M` is converted. -/
def InfiniteBound (env : Env) (requirement : Json) : Prop :=
  requirement.getD "threshold" (.str "all") = (.ok (.str "M-of-N") : Except Err Json) ∧
    ((∃ v, requirement.item "M" = (.ok v : Except Err Json) ∧ Infinite v) ∨
      ∃ v i w, requirement.item "M" = (.ok v : Except Err Json) ∧
        v.toInt env.unicode = (.ok i : Except Err Int) ∧
        requirement.item "N" = (.ok w : Except Err Json) ∧ Infinite w)

theorem toInt_cases (env : Env) (v : Json) :
    (Infinite v ∧ v.toInt env.unicode = (.error .overflowError : Except Err Int)) ∨
      ¬ Infinite v ∧ ((∃ i, v.toInt env.unicode = (.ok i : Except Err Int)) ∨
        (∃ message, v.toInt env.unicode = (.error (.valueError message) : Except Err Int)) ∨
        v.toInt env.unicode = (.error .typeError : Except Err Int)) := by
  have hother : (∀ f, v ≠ .float f) → ¬ Infinite v := fun h ⟨f, _, hf, _⟩ => h f hf
  cases v with
  | null => exact .inr ⟨hother nofun, .inr (.inr rfl)⟩
  | bool b => exact .inr ⟨hother nofun, .inl ⟨_, rfl⟩⟩
  | int i => exact .inr ⟨hother nofun, .inl ⟨_, rfl⟩⟩
  | str s =>
      refine .inr ⟨hother nofun, ?_⟩
      cases hread : env.unicode.intOfText s.toList with
      | some i => exact .inl ⟨i, by rw [Json.toInt, hread]⟩
      | none => exact .inr (.inl ⟨_, by rw [Json.toInt, hread]⟩)
  | arr xs => exact .inr ⟨hother nofun, .inr (.inr rfl)⟩
  | obj ms => exact .inr ⟨hother nofun, .inr (.inr rfl)⟩
  | float f =>
      cases hvalue : f.value with
      | inf negative => exact .inl ⟨⟨f, negative, rfl, hvalue⟩, by rw [Json.toInt, hvalue]⟩
      | nan =>
          refine .inr ⟨?_, .inr (.inl ⟨_, by rw [Json.toInt, hvalue]⟩)⟩
          rintro ⟨_, _, heq, hinf⟩
          cases heq
          cases hvalue.symm.trans hinf
      | fin q =>
          refine .inr ⟨?_, .inl ⟨_, by rw [Json.toInt, hvalue]⟩⟩
          rintro ⟨_, _, heq, hinf⟩
          cases heq
          cases hvalue.symm.trans hinf

/-- The errors that the aggregation takes for a missing integer. -/
def Caught (e : Err) : Prop := e = .keyError ∨ (∃ message, e = .valueError message) ∨ e = .typeError

theorem thresholdBounds_of_caught {e : Err} (hcaught : Caught e)
    (h : (do
      let m ← (← requirement.item "M").toInt env.unicode
      let n ← (← requirement.item "N").toInt env.unicode
      return (m, n) : Except Err (Int × Int)) = .error e) :
    thresholdBounds env requirement = .ok none := by
  unfold thresholdBounds
  rw [h]
  rcases hcaught with rfl | ⟨message, rfl⟩ | rfl <;> rfl

theorem bound_cases (env : Env) (ms : List (String × Json)) (key : String) :
    (∃ v i, (Json.obj ms).item key = (.ok v : Except Err Json) ∧
      v.toInt env.unicode = (.ok i : Except Err Int) ∧ ¬ Infinite v) ∨
    (∃ e, ((Json.obj ms).item key >>= fun v => v.toInt env.unicode : Except Err Int) = .error e ∧
      Caught e ∧ ∀ v, (Json.obj ms).item key = (.ok v : Except Err Json) →
        ¬ Infinite v ∧ ∀ i, v.toInt env.unicode ≠ (.ok i : Except Err Int)) ∨
    ∃ v, (Json.obj ms).item key = (.ok v : Except Err Json) ∧ Infinite v ∧
      v.toInt env.unicode = (.error .overflowError : Except Err Int) := by
  cases hlookup : ms.lookup key with
  | none =>
      have hitem : (Json.obj ms).item key = (.error .keyError : Except Err Json) := by
        rw [Json.item, hlookup]
      rw [hitem]
      exact .inr (.inl ⟨_, rfl, .inl rfl, by simp⟩)
  | some v =>
      have hitem : (Json.obj ms).item key = (.ok v : Except Err Json) := by
        rw [Json.item, hlookup]
      have hread : ((Json.obj ms).item key >>= fun v => v.toInt env.unicode : Except Err Int) =
          v.toInt env.unicode := by
        rw [hitem]
        rfl
      rw [hread, hitem]
      rcases toInt_cases env v with ⟨hinf, hover⟩ | ⟨hfinite, ⟨i, hi⟩ | ⟨message, he⟩ | he⟩
      · exact .inr (.inr ⟨v, rfl, hinf, hover⟩)
      · exact .inl ⟨v, i, rfl, hi, hfinite⟩
      · refine .inr (.inl ⟨_, he, .inr (.inl ⟨message, rfl⟩), ?_⟩)
        rintro _ ⟨⟩
        exact ⟨hfinite, fun i hi => by rw [he] at hi; cases hi⟩
      · refine .inr (.inl ⟨_, he, .inr (.inr rfl), ?_⟩)
        rintro _ ⟨⟩
        exact ⟨hfinite, fun i hi => by rw [he] at hi; cases hi⟩

/-- The bounds are read, or found not to be integers, unless one of them is infinite. -/
theorem thresholdBounds_ok_iff (env : Env) (ms : List (String × Json))
    (hth : (Json.obj ms).getD "threshold" (.str "all") = (.ok (.str "M-of-N") : Except Err Json)) :
    (∃ b, thresholdBounds env (.obj ms) = .ok b) ↔ ¬ InfiniteBound env (.obj ms) := by
  unfold InfiniteBound
  rcases bound_cases env ms "M" with
    ⟨v, i, hv, hi, hfinite⟩ | ⟨e, he, hcaught, hnone⟩ | ⟨v, hv, hinf, hover⟩
  · have hfirst : ¬ ∃ v, (Json.obj ms).item "M" = (.ok v : Except Err Json) ∧ Infinite v := by
      rintro ⟨v', hv', hinf⟩
      obtain rfl := Except.ok.inj (hv.symm.trans hv')
      exact hfinite hinf
    rcases bound_cases env ms "N" with
      ⟨w, j, hw, hj, hfinite'⟩ | ⟨e, he, hcaught, hnone⟩ | ⟨w, hw, hinf, hover⟩
    · refine iff_of_true ⟨some (i, j), ?_⟩ ?_
      · unfold thresholdBounds
        simp only [hv, hi, hw, hj, bind, Except.bind]
        rfl
      · rintro ⟨-, hbound | ⟨_, _, w', -, -, hw', hinf⟩⟩
        · exact hfirst hbound
        · obtain rfl := Except.ok.inj (hw.symm.trans hw')
          exact hfinite' hinf
    · refine iff_of_true ⟨none, thresholdBounds_of_caught hcaught ?_⟩ ?_
      · simp only [hv, hi, bind, Except.bind]
        show ((Json.obj ms).item "N" >>= fun v => v.toInt env.unicode >>= fun n =>
          (.ok (i, n) : Except Err (Int × Int))) = _
        rw [← LawfulMonad.bind_assoc, he]
        rfl
      · rintro ⟨-, hbound | ⟨_, _, w, -, -, hw, hinf⟩⟩
        · exact hfirst hbound
        · exact (hnone w hw).1 hinf
    · refine iff_of_false ?_ (not_not.2 ⟨hth, .inr ⟨v, i, w, hv, hi, hw, hinf⟩⟩)
      rintro ⟨b, hb⟩
      unfold thresholdBounds at hb
      simp only [hv, hi, hw, hover, bind, Except.bind] at hb
      cases hb
  · refine iff_of_true ⟨none, thresholdBounds_of_caught hcaught ?_⟩ ?_
    · show ((Json.obj ms).item "M" >>= fun v => v.toInt env.unicode >>= fun m =>
        (Json.obj ms).item "N" >>= fun w => w.toInt env.unicode >>= fun n =>
          (.ok (m, n) : Except Err (Int × Int))) = _
      rw [← LawfulMonad.bind_assoc, he]
      rfl
    · rintro ⟨-, ⟨v, hv, hinf⟩ | ⟨v, i, w, hv, hi, -⟩⟩
      · exact (hnone v hv).1 hinf
      · exact (hnone v hv).2 i hi
  · refine iff_of_false ?_ (not_not.2 ⟨hth, .inl ⟨v, hv, hinf⟩⟩)
    rintro ⟨b, hb⟩
    unfold thresholdBounds at hb
    simp only [hv, hover, bind, Except.bind] at hb
    cases hb

theorem ruleOf_ok_iff (hmodes : StringModes requirement) :
    (∃ r, ruleOf env requirement = .ok r) ↔ ¬ InfiniteBound env requirement := by
  obtain ⟨_, _, hget, -, -⟩ := hmodes
  obtain ⟨ms, rfl, -⟩ := getD_eq_ok hget
  have hgetD : (Json.obj ms).getD "threshold" (.str "all") =
      (.ok ((ms.lookup "threshold").getD (.str "all")) : Except Err Json) := rfl
  unfold ruleOf
  simp only [hgetD, bind, Except.bind]
  by_cases hmn : (ms.lookup "threshold").getD (.str "all") = .str "M-of-N"
  · rw [hmn, if_neg (by simp), if_neg (by simp), if_pos rfl,
      ← thresholdBounds_ok_iff env ms (by rw [hgetD, hmn])]
    cases thresholdBounds env (.obj ms) with
    | error e => exact iff_of_false (by rintro ⟨r, hr⟩; cases hr) (by rintro ⟨b, hb⟩; cases hb)
    | ok b =>
        refine iff_of_true ?_ ⟨b, rfl⟩
        rcases b with _ | ⟨m, n⟩
        · exact ⟨_, rfl⟩
        · exact ⟨_, rfl⟩
  · refine iff_of_true ?_ fun h => hmn (Except.ok.inj (hgetD.symm.trans h.1))
    rw [if_neg hmn]
    split_ifs
    · exact ⟨_, rfl⟩
    · exact ⟨_, rfl⟩
    · exact ⟨_, rfl⟩

/-! ## Valid requirements -/

theorem thresholdBounds_of_valid {requirement bound : Json} {m : Int}
    (hvalid : validateAttestationRequirement env requirement = .ok ())
    (hth : requirement.get "threshold" = (.ok (.str "M-of-N") : Except Err Json))
    (hbound : requirement.get "M" = (.ok bound : Except Err Json)) (hm : bound.asInt = some m) :
    ∃ n, m ≤ n ∧ thresholdBounds env requirement = .ok (some (m, n)) := by
  simp only [validateAttestationRequirement, bind_eq_ok] at hvalid
  obtain ⟨_, -, _, -, _, -, threshold, hth', _, -, h⟩ := hvalid
  obtain rfl := Except.ok.inj (hth.symm.trans hth')
  rw [if_pos rfl, bind_eq_ok] at h
  obtain ⟨_, hbounds, -⟩ := h
  simp only [validateBounds, bind_eq_ok] at hbounds
  obtain ⟨bound', hbound', other, hother, h⟩ := hbounds
  obtain rfl := Except.ok.inj (hbound.symm.trans hbound')
  rw [hm] at h
  cases hn : other.asInt with
  | none =>
      rw [hn] at h
      cases h
  | some n =>
      rw [hn] at h
      have hmn : m ≤ n := ensure_eq_ok.1 h
      have hnotNull : ∀ {v : Json} {i : Int}, v.asInt = some i → v ≠ .null := by
        rintro _ i hv rfl
        cases hv
      refine ⟨n, hmn, ?_⟩
      have hread : (do
          let m ← (← requirement.item "M").toInt env.unicode
          let n ← (← requirement.item "N").toInt env.unicode
          return (m, n) : Except Err (Int × Int)) = .ok (m, n) := by
        simp only [bind_eq_ok]
        exact ⟨bound, item_of_get hbound (hnotNull hm), m, toInt_of_asInt hm, other,
          item_of_get hother (hnotNull hn), n, toInt_of_asInt hn, rfl⟩
      unfold thresholdBounds
      rw [hread]

theorem evaluateThreshold_any
    (hth : requirement.get "threshold" = (.ok (.str "any") : Except Err Json)) :
    evaluateThreshold env requirement o = .ok (evaluateAny o) := by
  unfold evaluateThreshold
  rw [getD_of_get hth nofun]
  rfl

theorem evaluateThreshold_all
    (hth : requirement.get "threshold" = (.ok (.str "all") : Except Err Json)) :
    evaluateThreshold env requirement o = evaluateAll env requirement o := by
  unfold evaluateThreshold
  rw [getD_of_get hth nofun]
  rfl

theorem evaluateThreshold_mOfN {m n : Int}
    (hth : requirement.get "threshold" = (.ok (.str "M-of-N") : Except Err Json))
    (hbounds : thresholdBounds env requirement = .ok (some (m, n))) :
    evaluateThreshold env requirement o = .ok (evaluateMofN m n o) := by
  unfold evaluateThreshold
  rw [getD_of_get hth nofun]
  show (thresholdBounds env requirement >>= _) = _
  rw [hbounds]
  rfl

/-! ## Order and monotonicity -/

/-- The aggregation returns one decision for every order of the outcomes, no lower one when an
outcome that passes is appended, and no lower one when the decision of an outcome is raised. -/
structure OrderFreeMonotone (env : Env) (requirement : Json) : Prop where
  perm : ∀ o, Named o → ∃ d, decisionOf env requirement o = .ok d ∧
    ∀ o', o.Perm o' → decisionOf env requirement o' = .ok d
  append : ∀ o s (added : VerificationOutcome), Named o → added.decision = .pass →
    ∃ d d', decisionOf env requirement o = .ok d ∧
      decisionOf env requirement (o ++ [(.str s, added)]) = .ok d' ∧ d ≤ d'
  raise : ∀ xs ys s (a b : VerificationOutcome), Named xs → Named ys →
    a.decision.verdict ≤ b.decision.verdict →
    ∃ d d', decisionOf env requirement (xs ++ (.str s, a) :: ys) = .ok d ∧
      decisionOf env requirement (xs ++ (.str s, b) :: ys) = .ok d' ∧ d ≤ d'

theorem named_nil : Named [] := fun _ hp => absurd hp List.not_mem_nil

theorem Named.append {xs ys : Outcomes} (hxs : Named xs) (hys : Named ys) : Named (xs ++ ys) :=
  List.forall_mem_append.2 ⟨hxs, hys⟩

theorem Named.cons {ys : Outcomes} (s : String) (a : VerificationOutcome) (hys : Named ys) :
    Named ((.str s, a) :: ys) :=
  List.forall_mem_cons.2 ⟨⟨s, rfl⟩, hys⟩

theorem ballot_append (xs ys : Outcomes) : ballot (xs ++ ys) = ballot xs ++ ballot ys :=
  List.map_append

/-- The aggregation of a requirement whose modes are strings is order-free and monotone exactly if
no bound of a quorum is infinite. -/
theorem orderFreeMonotone_iff (env : Env) (requirement : Json) (hmodes : StringModes requirement) :
    OrderFreeMonotone env requirement ↔ ¬ InfiniteBound env requirement := by
  rw [← ruleOf_ok_iff hmodes]
  constructor
  · intro h
    obtain ⟨d, hd, -⟩ := h.perm [] named_nil
    rw [evaluateThreshold_rule hmodes named_nil] at hd
    cases hrule : ruleOf env requirement with
    | ok r => exact ⟨r, rfl⟩
    | error e =>
        rw [hrule] at hd
        cases hd
  · rintro ⟨r, hr⟩
    have hdecide : ∀ o, Named o → decisionOf env requirement o = .ok (r.decide (ballot o)) := by
      intro o hnamed
      rw [evaluateThreshold_rule hmodes hnamed, hr]
      rfl
    refine ⟨fun o hnamed => ⟨_, hdecide o hnamed, fun o' hperm => ?_⟩, ?_, ?_⟩
    · have hnamed' : Named o' := fun p hp => hnamed p (hperm.symm.subset hp)
      have hballot : (ballot o).Perm (ballot o') := hperm.map _
      rw [hdecide o' hnamed', r.decide_perm hballot]
    · intro o s added hnamed hpass
      refine ⟨_, _, hdecide o hnamed, hdecide _ (hnamed.append (.cons s added named_nil)), ?_⟩
      have hballot : ballot (o ++ [(.str s, added)]) = ballot o ++ [(.str s, .pass)] := by
        rw [ballot_append, ballot, ballot, List.map_singleton, hpass]
        rfl
      rw [hballot]
      exact r.decide_mono (Ballot.improves_append_pass _ _)
    · intro xs ys s a b hxs hys hle
      refine ⟨_, _, hdecide _ (hxs.append (.cons s a hys)), hdecide _ (hxs.append (.cons s b hys)),
        ?_⟩
      rw [ballot_append, ballot_append]
      exact r.decide_mono (Ballot.improves_raise _ _ _ hle)

/-- A quorum of an infinite number of items out of three. -/
def infiniteQuorum : Json := .obj [
  ("modes", .arr [.str "sensor-witness"]),
  ("threshold", .str "M-of-N"),
  ("M", .float ⟨"Infinity", by decide⟩),
  ("N", .int 3)]

def quorumOfTwo : Json := .obj [
  ("modes", .arr [.str "sensor-witness"]),
  ("threshold", .str "M-of-N"),
  ("M", .int 2),
  ("N", .int 3)]

theorem infiniteQuorum_modes : StringModes infiniteQuorum :=
  ⟨_, [.str "sensor-witness"], rfl, rfl, List.forall_mem_singleton.2 ⟨_, rfl⟩⟩

theorem quorumOfTwo_modes : StringModes quorumOfTwo :=
  ⟨_, [.str "sensor-witness"], rfl, rfl, List.forall_mem_singleton.2 ⟨_, rfl⟩⟩

/-- The quorum of two is order-free and monotone. -/
theorem orderFreeMonotone_iff_quorum :
    (OrderFreeMonotone localEnv quorumOfTwo ↔ ¬ InfiniteBound localEnv quorumOfTwo) ∧
      OrderFreeMonotone localEnv quorumOfTwo := by
  have hiff := orderFreeMonotone_iff localEnv quorumOfTwo quorumOfTwo_modes
  refine ⟨hiff, hiff.2 ?_⟩
  rintro ⟨-, ⟨v, hv, f, _, rfl, _⟩ | ⟨_, _, w, _, _, hw, f, _, rfl, _⟩⟩
  · cases hv
  · cases hw

/-- With an infinite quorum no decision is returned. -/
theorem infiniteQuorum_undecided :
    StringModes infiniteQuorum ∧ ¬ OrderFreeMonotone localEnv infiniteQuorum := by
  refine ⟨infiniteQuorum_modes, fun h => ?_⟩
  obtain ⟨d, hd, -⟩ := h.perm [] named_nil
  have hraises : decisionOf localEnv infiniteQuorum [] = .error .overflowError := by rfl
  cases hraises.symm.trans hd

/-! ## Open reviews -/

/-- The outcomes once every review has passed. -/
def settleReviews (o : Outcomes) : Outcomes :=
  o.map fun p => if p.2.decision = .review then (p.1, .pass) else p

theorem ballot_settleReviews (o : Outcomes) : ballot (settleReviews o) = (ballot o).settled := by
  unfold ballot settleReviews Ballot.settled
  rw [List.map_map, List.map_map]
  refine List.map_congr_left fun p _ => ?_
  cases hd : p.2.decision <;>
    simp [hd, VerifierDecision.verdict, VerificationOutcome.pass]

theorem named_settleReviews (h : Named o) : Named (settleReviews o) := by
  intro p hp
  obtain ⟨q, hq, rfl⟩ := List.mem_map.1 hp
  split
  · exact h q hq
  · exact h q hq

/-- A review leaves the outcome open: it is returned exactly where the decision is not to pass, and
would be once every review has passed. -/
def ReviewsOpen (env : Env) (requirement : Json) (o : Outcomes) : Prop :=
  decisionOf env requirement o = .ok .review ↔
    decisionOf env requirement o ≠ .ok .pass ∧
      decisionOf env requirement (settleReviews o) = .ok .pass

/-- Under threshold `all` no mode waits for a review: all of them pass, or one has no item. -/
def NoneWaits (requirement : Json) (o : Outcomes) : Prop :=
  requirement.get "threshold" = (.ok (.str "all") : Except Err Json) →
    (∀ mode ∈ listed requirement "modes", ∃ p ∈ o, p.1 = mode ∧ p.2.decision = .pass) ∨
      ∃ mode ∈ listed requirement "modes", ∀ p ∈ o, p.1 ≠ mode

theorem iter_ne_nil {v : Json} {xs : List Json} (htruthy : v.truthy = true)
    (hiter : v.iter = (.ok xs : Except Err (List Json))) : xs ≠ [] := by
  rintro rfl
  cases v with
  | arr ys =>
      cases hiter
      simp [Json.truthy] at htruthy
  | obj ms =>
      have hnil : ms = [] := List.map_eq_nil_iff.1 (Except.ok.inj hiter)
      simp [Json.truthy, hnil] at htruthy
  | str s =>
      have hnil : s.toList = [] := List.map_eq_nil_iff.1 (Except.ok.inj hiter)
      rw [String.toList_eq_nil_iff] at hnil
      simp [Json.truthy, hnil] at htruthy
  | _ => cases hiter

theorem covers_ballot {xs : List Json} : (ballot o).Covers xs ↔
    ∀ mode ∈ xs, ∃ p ∈ o, p.1 = mode ∧ p.2.decision = .pass :=
  forall_congr' fun _ => imp_congr_right fun _ => mem_ballot (d := .pass)

theorem covers_settled {xs : List Json} (hnofail : ∀ p ∈ o, p.2.decision ≠ .fail) :
    (ballot o).settled.Covers xs ↔ ∀ mode ∈ xs, ∃ p ∈ o, p.1 = mode := by
  refine forall_congr' fun mode => imp_congr_right fun _ => ?_
  rw [Ballot.mem_settled_pass]
  constructor
  · rintro ⟨v, hmem, -⟩
    obtain ⟨p, hp, heq⟩ := List.mem_map.1 hmem
    exact ⟨p, hp, congrArg Prod.fst heq⟩
  · rintro ⟨p, hp, rfl⟩
    refine ⟨p.2.decision.verdict, List.mem_map_of_mem hp, fun hfail => hnofail p hp ?_⟩
    exact VerifierDecision.verdict_eq_iff.1 hfail

/-- What threshold `all` decides where nothing failed: to pass or not, and never to review. -/
theorem decisionOf_all {modes : Json} {xs : List Json}
    (hth : requirement.get "threshold" = (.ok (.str "all") : Except Err Json))
    (hmodes : requirement.get "modes" = (.ok modes : Except Err Json))
    (hiter : (modes.or (.arr [])).iter = (.ok xs : Except Err (List Json))) (hne : xs ≠ [])
    (hnamed : Named o) (hnone : (ballot o).count .fail = 0) :
    decisionOf env requirement o ≠ .ok .review ∧
      (decisionOf env requirement o = .ok .pass ↔ (ballot o).Covers xs) := by
  unfold decisionOf
  rw [evaluateThreshold_all hth]
  rcases @evaluateAll_cases env requirement o modes xs hmodes hiter hnamed with
    hdecide | ⟨⟨e, he⟩, hcovers⟩
  · rw [hdecide, Except.ok.injEq, ← Ballot.decideAll_pass_iff hnone hne]
    exact ⟨fun h => Ballot.decideAll_ne_review hne (Except.ok.inj h), Iff.rfl⟩
  · rw [he]
    exact ⟨nofun, iff_of_false nofun hcovers⟩

theorem modes_of_valid (hvalid : validateAttestationRequirement env requirement = .ok ()) :
    ∃ modes, requirement.get "modes" = (.ok modes : Except Err Json) ∧
      (modes.or (.arr [])).truthy = true := by
  simp only [validateAttestationRequirement, bind_eq_ok] at hvalid
  obtain ⟨_, -, modes, hmodes, _, htruthy, -⟩ := hvalid
  exact ⟨modes, hmodes, ensure_eq_ok.1 htruthy⟩

theorem reviewsOpen_all (hvalid : validateAttestationRequirement env requirement = .ok ())
    (hth : requirement.get "threshold" = (.ok (.str "all") : Except Err Json)) (hnamed : Named o)
    (hnofail : ∀ p ∈ o, p.2.decision ≠ .fail) (hnone : (ballot o).count .fail = 0) :
    ReviewsOpen env requirement o ↔ NoneWaits requirement o := by
  obtain ⟨modes, hmodes, htruthy⟩ := modes_of_valid hvalid
  cases hiter : ((modes.or (.arr [])).iter : Except Err (List Json)) with
  | error e =>
      have hraises : ∀ o, decisionOf env requirement o = .error e := by
        intro o
        have hset : (modes.or (.arr [])).toSet = (.error e : Except Err (List Json)) := by
          unfold Json.toSet
          rw [hiter]
        rw [decisionOf, evaluateThreshold_all hth, evaluateAll, hmodes]
        show Except.map _ ((modes.or (.arr [])).toSet >>= _) = _
        rw [hset]
        rfl
      have hlisted : listed requirement "modes" = [] := by
        simp only [listed, hmodes, bind, Except.bind, hiter]
      refine iff_of_true ?_ fun _ => .inl ?_
      · unfold ReviewsOpen
        rw [hraises, hraises]
        exact iff_of_false (by simp) (by simp)
      · rw [hlisted]
        exact fun _ h => absurd h List.not_mem_nil
  | ok xs =>
      have hne := iter_ne_nil htruthy hiter
      have hlisted : listed requirement "modes" = xs := by
        rw [listed, bind_eq_ok.2 ⟨modes, hmodes, hiter⟩]
      obtain ⟨hreview, hpass⟩ := @decisionOf_all env requirement o modes xs hth hmodes hiter hne
        hnamed hnone
      have hnone' : (ballot (settleReviews o)).count .fail = 0 := by
        rw [ballot_settleReviews, Ballot.count_settled_fail, hnone]
      obtain ⟨-, hpass'⟩ := @decisionOf_all env requirement (settleReviews o) modes xs hth hmodes
        hiter hne (named_settleReviews hnamed) hnone'
      unfold ReviewsOpen NoneWaits
      rw [hpass', hlisted, ballot_settleReviews, covers_settled hnofail, ne_eq, hpass,
        covers_ballot]
      constructor
      · intro h _
        by_contra hwaits
        rw [not_or] at hwaits
        refine hreview (h.2 ⟨hwaits.1, fun mode hmode => ?_⟩)
        by_contra hmissing
        exact hwaits.2 ⟨mode, hmode, fun p hp hof => hmissing ⟨p, hp, hof⟩⟩
      · intro h
        refine iff_of_false hreview ?_
        rintro ⟨hnot, hall⟩
        rcases h hth with hcovered | ⟨mode, hmode, hmissing⟩
        · exact hnot hcovered
        · obtain ⟨p, hp, hof⟩ := hall mode hmode
          exact hmissing p hp hof

/-- Of a valid requirement, and of outcomes none of which failed, a review leaves the outcome open
exactly if under threshold `all` no mode waits for a review. -/
theorem reviewsOpen_iff (env : Env) (requirement : Json) (o : Outcomes)
    (hvalid : validateAttestationRequirement env requirement = .ok ()) (hnamed : Named o)
    (hnofail : ∀ p ∈ o, p.2.decision ≠ .fail) :
    ReviewsOpen env requirement o ↔ NoneWaits requirement o := by
  have hnone : (ballot o).count .fail = 0 := by
    refine (count_ballot .fail o).trans (List.countP_eq_zero.2 ?_)
    simpa using hnofail
  obtain ⟨s, hs, hth, hbound⟩ := validateAttestationRequirement_eq_ok hvalid
  simp only [List.mem_cons, List.not_mem_nil, or_false] at hs
  rcases hs with rfl | rfl | rfl
  · have hdecide : ∀ o, decisionOf env requirement o = .ok (ballot o).decideAny := by
      intro o
      rw [decisionOf, evaluateThreshold_any hth, ← evaluateAny_decision]
      rfl
    refine iff_of_true ?_ fun hall => ?_
    · rw [ReviewsOpen, hdecide, hdecide, ballot_settleReviews, ne_eq, Except.ok.injEq,
        Except.ok.injEq, Except.ok.injEq]
      exact Ballot.decideAny_review_iff hnone
    · have hsame := Except.ok.inj (hth.symm.trans hall)
      simp at hsame
  · exact reviewsOpen_all hvalid hth hnamed hnofail hnone
  · obtain ⟨bound, m, hM, hm⟩ := hbound rfl
    obtain ⟨n, hmn, hbounds⟩ := thresholdBounds_of_valid hvalid hth hM hm
    have hdecide : ∀ o, decisionOf env requirement o = .ok ((ballot o).decideQuorum m) := by
      intro o
      rw [decisionOf, evaluateThreshold_mOfN hth hbounds, ← evaluateMofN_decision hmn]
      rfl
    refine iff_of_true ?_ fun hall => ?_
    · rw [ReviewsOpen, hdecide, hdecide, ballot_settleReviews, ne_eq, Except.ok.injEq,
        Except.ok.injEq, Except.ok.injEq]
      exact Ballot.decideQuorum_review_iff hnone
    · have hsame := Except.ok.inj (hth.symm.trans hall)
      simp at hsame

/-- Sensor evidence that passes, one mode being required. -/
def allSensor : List (String × Json) := [
  ("modes", .arr [.str "sensor-witness"]),
  ("threshold", .str "all")]

/-- A review under threshold `any` leaves the outcome open. -/
theorem reviewsOpen_iff_any :
    (ReviewsOpen localEnv (.obj anySensor) [(.str "sensor-witness", .review [])] ↔
      NoneWaits (.obj anySensor) [(.str "sensor-witness", .review [])]) ∧
      decisionOf localEnv (.obj anySensor) [(.str "sensor-witness", .review [])] = .ok .review :=
  ⟨reviewsOpen_iff localEnv (.obj anySensor) _ (by decide +kernel)
    (List.forall_mem_singleton.2 ⟨_, rfl⟩) (by decide), by decide +kernel⟩

/-- Under threshold `all` a task is posted, the evidence of its one mode is under review, and the
decision is to fail, though it would be to pass after the review. -/
theorem review_fails_all :
    (∃ answer, (post localEnv (localTask allSensor) localDate .null (initial [])).1 = .ok answer) ∧
      decisionOf localEnv (.obj allSensor) [(.str "sensor-witness", .review [])] = .ok .fail ∧
      decisionOf localEnv (.obj allSensor)
        (settleReviews [(.str "sensor-witness", .review [])]) = .ok .pass ∧
      ¬ ReviewsOpen localEnv (.obj allSensor) [(.str "sensor-witness", .review [])] := by
  have hfail : decisionOf localEnv (.obj allSensor) [(.str "sensor-witness", .review [])] =
      .ok .fail := by decide +kernel
  have hpass : decisionOf localEnv (.obj allSensor)
      (settleReviews [(.str "sensor-witness", .review [])]) = .ok .pass := by decide +kernel
  refine ⟨?_, hfail, hpass, fun hopen => ?_⟩
  · have hposted : (post localEnv (localTask allSensor) localDate .null
        (initial [])).1.toOption.isSome = true := by decide +kernel
    cases hpost : (post localEnv (localTask allSensor) localDate .null (initial [])).1 with
    | ok answer => exact ⟨answer, rfl⟩
    | error e =>
        rw [hpost] at hposted
        cases hposted
  · have hreview := hopen.2 ⟨by rw [hfail]; exact nofun, hpass⟩
    rw [hfail] at hreview
    cases hreview

end Wcp.Coordinator
