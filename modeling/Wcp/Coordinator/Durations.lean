import Wcp.Base.Rounding
import Wcp.Coordinator.Readability
/-!
# How long a presence has to be

The verifier of a presence computes in doubles: the time between the two timestamps, in
minutes and with a millionth of a minute added, against nine tenths of the minutes that the
task asks for.  Six roundings are on the way.  `belowNinetyPercent_eq` says what they come
to: the exact comparison of microseconds, unless the two sides agree to one part in `2 ^ 50`.
-/

namespace Wcp.Coordinator

open Wcp.Base
open Wcp.Base.Exec

variable {env : Env} {kind : String} {payload taskPayload : Json}

/-! ## The two sides of the comparison -/

/-- The error that the roundings of either side add up to. -/
def durationError : Rat := 1 / 2 ^ 51

theorem normal_of_le {x : Rat} (h : 1 / 60000000 ≤ x) : (2 : Rat) ^ (-1021 : Int) ≤ x :=
  calc (2 : Rat) ^ (-1021 : Int) ≤ 2 ^ (-30 : Int) :=
        zpow_le_zpow_right₀ (by norm_num) (by norm_num)
    _ ≤ 1 / 60000000 := by norm_num
    _ ≤ x := h

theorem approx_rounded {x : Rat} (h : 1 / 60000000 ≤ x) :
    Approx roundingUnit (roundDouble x) x := by
  refine approx_roundDouble (le_trans ?_ (normal_of_le h))
  exact zpow_le_zpow_right₀ (by norm_num) (by norm_num)

theorem approx_actualMinutes {t : Int} (ht : 0 < t) :
    Approx (roundingUnit + roundingUnit * (1 + roundingUnit)) (actualMinutes t)
      (t / 60000000) := by
  have ht' : (1 : Rat) ≤ t := by exact_mod_cast ht
  have hseconds : Approx roundingUnit (roundDouble (mkRat t 1000000)) (t / 1000000) := by
    rw [Rat.mkRat_eq_div]
    push_cast
    exact approx_rounded (by linarith)
  have hvalue : (t : Rat) / 1000000 / 60 = t / 60000000 := by ring
  have hminutes := hseconds.div 60
  rw [hvalue] at hminutes
  exact hminutes.round (by norm_num [roundingUnit]) (normal_of_le (by linarith))

theorem approx_measured {t : Int} (ht : 0 < t) :
    Approx durationError (roundDouble (actualMinutes t + roundDouble (mkRat 1 1000000)))
      ((t + 60) / 60000000) := by
  have ht' : (1 : Rat) ≤ t := by exact_mod_cast ht
  have hslack : Approx roundingUnit (roundDouble (mkRat 1 1000000)) (60 / 60000000) := by
    have hvalue : mkRat 1 1000000 = (60 / 60000000 : Rat) := by norm_num [Rat.mkRat_eq_div]
    rw [hvalue]
    exact approx_rounded (by norm_num)
  have hsum := (approx_actualMinutes ht).add (hslack.mono (by norm_num [roundingUnit]))
    (by positivity) (by norm_num)
  rw [← add_div] at hsum
  exact (hsum.round (by norm_num [roundingUnit]) (normal_of_le (by linarith))).mono
    (by norm_num [roundingUnit, durationError])

theorem approx_required {m : Int} (hm : 0 < m) :
    Approx durationError (roundDouble (roundDouble m * roundDouble (mkRat 9 10)))
      (54000000 * m / 60000000) := by
  have hm' : (1 : Rat) ≤ m := by exact_mod_cast hm
  have hwhole : Approx roundingUnit (roundDouble m) m := approx_rounded (by linarith)
  have htenths : Approx roundingUnit (roundDouble (mkRat 9 10)) (9 / 10) := by
    have hvalue : mkRat 9 10 = (9 / 10 : Rat) := by norm_num [Rat.mkRat_eq_div]
    rw [hvalue]
    exact approx_rounded (by norm_num)
  have hproduct := hwhole.mul htenths (by norm_num [roundingUnit])
  have hvalue : (m : Rat) * (9 / 10) = 54000000 * m / 60000000 := by ring
  rw [hvalue] at hproduct
  exact (hproduct.round (by norm_num [roundingUnit]) (normal_of_le (by linarith))).mono
    (by norm_num [roundingUnit, durationError])

/-! ## The comparison -/

/-- The doubles order the two sides as they are unless these agree to one part in `2 ^ 50`. -/
theorem belowNinetyPercent_eq {t m : Int} (ht : 0 < t) (hm : FitsDouble m)
    (hfar : max (t + 60) (54000000 * m) < 2 ^ 50 * |t + 60 - 54000000 * m|) :
    belowNinetyPercent t m = .ok (decide (t + 60 < 54000000 * m)) := by
  have hfloat : intToFloat m =
      if FitsDouble m then .ok (roundDouble m) else .error .overflowError := rfl
  have hsides : roundDouble (actualMinutes t + roundDouble (mkRat 1 1000000)) <
      roundDouble (roundDouble m * roundDouble (mkRat 9 10)) ↔ t + 60 < 54000000 * m := by
    rcases lt_or_ge 0 m with hpos | hneg
    · have hm' : (1 : Rat) ≤ m := by exact_mod_cast hpos
      have ht' : (1 : Rat) ≤ t := by exact_mod_cast ht
      have hfar' : max ((t : Rat) + 60) (54000000 * m) <
          2 ^ 50 * |(t : Rat) + 60 - 54000000 * m| := by exact_mod_cast hfar
      have hunit : (0 : Rat) < 60000000 := by norm_num
      rw [(approx_measured ht).lt_iff (approx_required hpos) (by positivity) (by positivity)]
      · rw [div_lt_div_iff_of_pos_right hunit]
        exact_mod_cast Iff.rfl
      · rw [← sub_div, abs_div, max_div_div_right hunit.le, abs_of_pos hunit, ← mul_div_assoc,
          div_lt_div_iff_of_pos_right hunit, durationError]
        linarith
    · -- Nothing is required, so whatever was measured is enough.
      have hmeasured : 0 ≤ roundDouble (actualMinutes t + roundDouble (mkRat 1 1000000)) := by
        have hminutes : 0 ≤ actualMinutes t := by
          refine roundDouble_nonneg (div_nonneg (roundDouble_nonneg ?_) (by norm_num))
          rw [Rat.mkRat_eq_div]
          have ht' : (0 : Rat) < t := by exact_mod_cast ht
          positivity
        have hslack : 0 ≤ roundDouble (mkRat 1 1000000) :=
          roundDouble_nonneg (by norm_num [Rat.mkRat_eq_div])
        exact roundDouble_nonneg (add_nonneg hminutes hslack)
      have hrequired : roundDouble (roundDouble m * roundDouble (mkRat 9 10)) ≤ 0 := by
        have hm' : (m : Rat) ≤ 0 := by exact_mod_cast hneg
        have htenths : 0 ≤ roundDouble (mkRat 9 10) :=
          roundDouble_nonneg (by norm_num [Rat.mkRat_eq_div])
        exact roundDouble_nonpos (mul_nonpos_of_nonpos_of_nonneg (roundDouble_nonpos hm') htenths)
      refine iff_of_false (not_lt.2 (hrequired.trans hmeasured)) ?_
      omega
  rw [belowNinetyPercent, hfloat, if_pos hm]
  show Except.ok (decide _) = _
  simp only [hsides]

/-- For presences of up to 35 years the doubles err on no microsecond but the bound itself. -/
theorem belowNinetyPercent_of_ne {t m : Int} (ht : 0 < t) (hm : FitsDouble m)
    (hshort : t + 60 < 2 ^ 50) (hne : t + 60 ≠ 54000000 * m) :
    belowNinetyPercent t m = .ok (decide (t + 60 < 54000000 * m)) := by
  apply belowNinetyPercent_eq ht hm
  rcases lt_or_gt_of_ne hne with hlt | hgt
  · rw [max_eq_right hlt.le, abs_of_neg (by omega)]
    omega
  · rw [max_eq_left hgt.le, abs_of_pos (by omega)]
    omega

/-- A presence of nine tenths of the required time, and of a thousand years at most, is enough. -/
theorem belowNinetyPercent_of_le {t m : Int} (ht : 0 < t) (hm : FitsDouble m)
    (hlong : t < 2 ^ 55) (hle : 54000000 * m ≤ t) : belowNinetyPercent t m = .ok false := by
  have hdecide : ¬ t + 60 < 54000000 * m := by omega
  rw [belowNinetyPercent_eq ht hm, decide_eq_false hdecide]
  rw [max_eq_left (by omega), abs_of_pos (by omega)]
  omega

/-! ## Verdicts -/

/-- The verdict on a presence of `t` microseconds, by exact arithmetic. -/
def presenceDecision (t : Int) (required : Option Int) : VerifierDecision :=
  if t ≤ 0 then .fail
  else
    match required with
    | none => .pass
    | some m => if t + 60 < 54000000 * m then .review else .pass

/-- A payload whose two timestamps are read as `tIn` and `tOut`. -/
structure PresenceProof (env : Env) (payload : Json) (tIn tOut : DateTime) : Prop where
  object : payload.isObject = true
  region : payload.has "region" = true
  checkIn : parseIso env (payload.member "check_in_at") = .ok tIn
  checkOut : parseIso env (payload.member "check_out_at") = .ok tOut
  comparable : tOut.offset.isSome = tIn.offset.isSome

theorem has_of_parseIso {key : String} {d : DateTime} (hobject : payload.isObject = true)
    (h : parseIso env (payload.member key) = .ok d) : payload.has key = true := by
  cases payload with
  | obj ms =>
      cases hlookup : ms.lookup key with
      | none =>
          rw [Json.member, hlookup] at h
          exact absurd h (by simp [parseIso, Json.asStr, bind, Except.bind])
      | some v => simp [Json.has, Json.contains, hlookup]
  | _ => exact absurd hobject (by simp [Json.isObject])

theorem PresenceProof.parsed {tIn tOut : DateTime} (h : PresenceProof env payload tIn tOut) :
    parsePresence env payload = .ok (.ok (tIn, tOut)) := by
  rw [parsePresence_of_object h.object (has_of_parseIso h.object h.checkIn)
    (has_of_parseIso h.object h.checkOut), h.checkIn, h.checkOut]
  rfl

/-- The verdict on a presence proof where the comparison in doubles is exact. -/
theorem PresenceProof.verdict {tIn tOut : DateTime} (h : PresenceProof env payload tIn tOut)
    (hkind : kind ∈ handledKinds .cryptographicPresence) (htask : taskPayload.isObject = true)
    (hexact : ∀ m, (taskPayload.member "duration_minutes").asInt = some m →
      0 < tOut.instant - tIn.instant → belowNinetyPercent (tOut.instant - tIn.instant) m =
        .ok (decide (tOut.instant - tIn.instant + 60 < 54000000 * m))) :
    ∃ outcome, cryptographicPresenceVerify env kind payload taskPayload = .ok outcome ∧
      outcome.decision = presenceDecision (tOut.instant - tIn.instant)
        (taskPayload.member "duration_minutes").asInt := by
  have hsearchable : payload.searchable = true := by
    have := h.object
    cases payload <;> simp_all [Json.isObject, Json.searchable]
  have hfields : firstMissing payload ["check_in_at", "check_out_at", "region"] = .ok none := by
    rw [firstMissing_eq hsearchable]
    simp [has_of_parseIso h.object h.checkIn, has_of_parseIso h.object h.checkOut, h.region]
  have hdifference : (DateTime.difference tOut tIn : Except Err Int) =
      .ok (tOut.instant - tIn.instant) := if_pos h.comparable
  have hrequired : taskPayload.get "duration_minutes" =
      (.ok (taskPayload.member "duration_minutes") : Except Err Json) :=
    Json.get_eq_ok.2 ⟨htask, rfl⟩
  generalize tOut.instant - tIn.instant = t at hexact hdifference ⊢
  simp only [handledKinds, List.mem_cons, List.not_mem_nil, or_false] at hkind
  rw [cryptographicPresenceVerify, if_pos hkind, hfields]
  simp only [bind, Except.bind, h.parsed, hdifference, presenceDecision]
  by_cases ht : t ≤ 0
  · rw [if_pos ht, if_pos ht]
    exact ⟨_, rfl, rfl⟩
  · rw [if_neg ht, if_neg ht, hrequired]
    dsimp only
    cases hminutes : (taskPayload.member "duration_minutes").asInt with
    | none => exact ⟨_, rfl, rfl⟩
    | some m =>
        dsimp only
        rw [hexact m hminutes (by omega)]
        by_cases hbelow : t + 60 < 54000000 * m
        · simp only [hbelow, decide_true, if_true]
          exact ⟨_, rfl, rfl⟩
        · simp only [hbelow, decide_false, if_false]
          exact ⟨_, rfl, rfl⟩

/-- A presence of up to 35 years is judged as if nothing were rounded, but for one of exactly 60
microseconds less than nine tenths of the required time; and whoever stays nine tenths of the
required time, up to a thousand years, passes. -/
theorem presence_decided {tIn tOut : DateTime} (h : PresenceProof env payload tIn tOut)
    (hkind : kind ∈ handledKinds .cryptographicPresence) (htask : taskPayload.isObject = true)
    (hfits : ∀ m, (taskPayload.member "duration_minutes").asInt = some m → FitsDouble m) :
    (tOut.instant - tIn.instant + 60 < 2 ^ 50 →
      (∀ m, (taskPayload.member "duration_minutes").asInt = some m →
        tOut.instant - tIn.instant + 60 ≠ 54000000 * m) →
      ∃ outcome, cryptographicPresenceVerify env kind payload taskPayload = .ok outcome ∧
        outcome.decision = presenceDecision (tOut.instant - tIn.instant)
          (taskPayload.member "duration_minutes").asInt) ∧
    (tIn.instant < tOut.instant → tOut.instant - tIn.instant < 2 ^ 55 →
      (∀ m, (taskPayload.member "duration_minutes").asInt = some m →
        54000000 * m ≤ tOut.instant - tIn.instant) →
      ∃ outcome, cryptographicPresenceVerify env kind payload taskPayload = .ok outcome ∧
        outcome.decision = .pass) := by
  constructor
  · intro hshort hne
    exact h.verdict hkind htask fun m hm ht => belowNinetyPercent_of_ne ht (hfits m hm) hshort
      (hne m hm)
  · intro hlater hlong hle
    have hverdict := h.verdict hkind htask fun m hm ht => by
      have := hle m hm
      rw [belowNinetyPercent_of_le ht (hfits m hm) hlong this, decide_eq_false (by omega)]
    have hpass : presenceDecision (tOut.instant - tIn.instant)
        (taskPayload.member "duration_minutes").asInt = .pass := by
      unfold presenceDecision
      rw [if_neg (by omega)]
      cases hm : (taskPayload.member "duration_minutes").asInt with
      | none => rfl
      | some m =>
          have := hle m hm
          exact if_neg (by omega)
    rwa [hpass] at hverdict

/-- An interpreter that knows two times of a day, 53 minutes apart. -/
def twoTimesEnv : Env := { localEnv with
  fromisoformat := fun s =>
    if s = "2030-01-01T00:00:00+00:00" then .ok (.utc newYear2030)
    else if s = "2030-01-01T00:53:00+00:00" then .ok (.utc (newYear2030 + 3180000000))
    else .error "Invalid isoformat string" }

/-- 53 of 60 minutes are not enough. -/
theorem presence_decided_short :
    ∃ outcome, cryptographicPresenceVerify twoTimesEnv "geofence_check_in_out"
      (presencePayload (.str "2030-01-01T00:00:00Z") (.str "2030-01-01T00:53:00Z"))
      (.obj [("duration_minutes", .int 60)]) = .ok outcome ∧ outcome.decision = .review := by
  have hproof : PresenceProof twoTimesEnv
      (presencePayload (.str "2030-01-01T00:00:00Z") (.str "2030-01-01T00:53:00Z"))
      (.utc newYear2030) (.utc (newYear2030 + 3180000000)) :=
    ⟨rfl, rfl, by decide +kernel, by decide +kernel, rfl⟩
  have hlength : (DateTime.utc (newYear2030 + 3180000000)).instant -
      (DateTime.utc newYear2030).instant = 3180000000 := by
    rw [DateTime.instant_utc, DateTime.instant_utc]
    omega
  have hminutes : ∀ m, ((Json.obj [("duration_minutes", .int 60)]).member
      "duration_minutes").asInt = some m → m = 60 := fun m hm => (Option.some.inj hm).symm
  have hkind : "geofence_check_in_out" ∈ handledKinds .cryptographicPresence := by decide
  have hfits : FitsDouble 60 := by decide +kernel
  obtain ⟨outcome, hverify, hdecision⟩ := (presence_decided hproof hkind rfl fun m hm => by
    rw [hminutes m hm]
    exact hfits).1 (by rw [hlength]; norm_num) fun m hm => by
      rw [hminutes m hm, hlength]
      norm_num
  rw [hlength] at hdecision
  exact ⟨outcome, hverify, hdecision⟩

/-- On the bound itself the rounding decides, either way. -/
example : belowNinetyPercent 53999940 1 = .ok false ∧
    belowNinetyPercent 107999940 2 = .ok true := by
  decide +kernel

end Wcp.Coordinator
