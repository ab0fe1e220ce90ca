import Mathlib.Algebra.Order.Field.Power
import Mathlib.Algebra.Order.Ring.Abs
import Mathlib.Data.Rat.Cast.Order
import Mathlib.Tactic.FieldSimp
import Mathlib.Tactic.Linarith
import Mathlib.Tactic.NormNum
import Mathlib.Tactic.Positivity
import Mathlib.Tactic.Ring
import Wcp.Base.Json
/-!
# Rounding to doubles

`roundDouble` works on the numerator and the denominator of a number.  A double is a
number `k * 2 ^ u` with at most 53 significant bits (`IsDouble`, which knows no largest
one), and no double is closer to `q` than `roundDouble q` is (`roundDouble_nearest`).  So
rounding keeps the doubles, the order and the sign; and it moves a number that is not too
close to zero by at most one part in `2 ^ 53`.  `Approx` is the calculus of such relative
errors through a computation.
-/

namespace Wcp.Base

/-- A number with at most 53 significant bits, none below `2 ^ -1074`. -/
def IsDouble (x : Rat) : Prop :=
  ∃ k u : Int, |k| ≤ 2 ^ 53 ∧ -1074 ≤ u ∧ x = k * (2 : Rat) ^ u

/-! ## Integers -/

theorem abs_roundHalfEven_sub_le (n : Nat) {d : Nat} (hd : 0 < d) :
    |(roundHalfEven n d : Rat) - n / d| ≤ 1 / 2 := by
  have hd' : (0 : Rat) < d := by exact_mod_cast hd
  have hquot : (n : Rat) / d = (n / d : Nat) + (n % d : Nat) / d := by
    have hdiv : (n : Rat) = d * (n / d : Nat) + (n % d : Nat) := by
      exact_mod_cast (Nat.div_add_mod n d).symm
    rw [div_eq_iff hd'.ne', add_mul, div_mul_cancel₀ _ hd'.ne']
    linarith
  have hone : ((n % d : Nat) : Rat) / d ≤ 1 := by
    rw [div_le_one hd']
    exact_mod_cast (Nat.mod_lt n hd).le
  have hdown : 2 * (n % d) ≤ d → ((n % d : Nat) : Rat) / d ≤ 1 / 2 := by
    intro h
    have h' : 2 * ((n % d : Nat) : Rat) ≤ d := by exact_mod_cast h
    rw [div_le_iff₀ hd']
    linarith
  have hup : d ≤ 2 * (n % d) → 1 / 2 ≤ ((n % d : Nat) : Rat) / d := by
    intro h
    have h' : (d : Rat) ≤ 2 * (n % d : Nat) := by exact_mod_cast h
    rw [le_div_iff₀ hd']
    linarith
  have hnonneg : 0 ≤ ((n % d : Nat) : Rat) / d := by positivity
  rw [hquot, abs_le]
  unfold roundHalfEven
  dsimp only
  split
  · next h =>
      have := hdown (by omega)
      constructor <;> linarith
  · next h =>
      have := hup (by omega)
      split
      · push_cast
        constructor <;> linarith
      · have := hdown (by omega)
        split <;> push_cast <;> constructor <;> linarith

/-- A number at most half a unit away from `x` is one of the integers nearest to it. -/
theorem abs_sub_le_of_half {x : Rat} {k : Int} (h : |(k : Rat) - x| ≤ 1 / 2) (j : Int) :
    |(k : Rat) - x| ≤ |(j : Rat) - x| := by
  by_cases hkj : j = k
  · rw [hkj]
  · have hone : (1 : Rat) ≤ |(j : Rat) - k| := by
      have : 1 ≤ |j - k| := Int.one_le_abs (by omega)
      exact_mod_cast this
    have htri : |(j : Rat) - k| ≤ |(j : Rat) - x| + |(k : Rat) - x| := by
      rw [abs_sub_comm (k : Rat) x]
      exact abs_sub_le _ _ _
    linarith

/-! ## The unit in the last place -/

theorem scaleTwo_eq (n u : Int) : scaleTwo n u = n * (2 : Rat) ^ u := by
  unfold scaleTwo
  split
  · next h =>
      obtain ⟨m, rfl⟩ := Int.eq_ofNat_of_zero_le h
      simp [Rat.mkRat_one]
  · next h =>
      obtain ⟨m, rfl⟩ : ∃ m : Nat, u = -(m : Int) := ⟨(-u).toNat, by omega⟩
      rw [Int.neg_neg, Int.toNat_natCast, Rat.mkRat_eq_div, zpow_neg, zpow_natCast]
      push_cast
      exact div_eq_mul_inv _ _

/-- A quotient scaled by a power of two, as a quotient of natural numbers. -/
theorem scaled_eq (n d : Nat) (u : Int) :
    (if 0 ≤ u then (n : Rat) / (d * 2 ^ u.toNat : Nat) else (n * 2 ^ (-u).toNat : Nat) / d) =
      n / d / (2 : Rat) ^ u := by
  split
  · next h =>
      obtain ⟨m, rfl⟩ := Int.eq_ofNat_of_zero_le h
      rw [Int.toNat_natCast, zpow_natCast, div_div]
      push_cast
      rfl
  · next h =>
      obtain ⟨m, rfl⟩ : ∃ m : Nat, u = -(m : Int) := ⟨(-u).toNat, by omega⟩
      rw [Int.neg_neg, Int.toNat_natCast, zpow_neg, zpow_natCast, div_inv_eq_mul,
        div_mul_eq_mul_div]
      push_cast
      rfl

/-- The test of `roundDouble` compares the number with a power of two. -/
theorem below_iff (n : Nat) {d : Nat} (hd : 0 < d) (e : Int) :
    (if 0 ≤ e then n < d * 2 ^ e.toNat else n * 2 ^ (-e).toNat < d) ↔
      (n : Rat) / d < (2 : Rat) ^ e := by
  have hd' : (0 : Rat) < d := by exact_mod_cast hd
  have hpow : (0 : Rat) < (2 : Rat) ^ e := by positivity
  have hscaled := scaled_eq n d e
  have hlt : (n : Rat) / d / (2 : Rat) ^ e < 1 ↔ (n : Rat) / d < (2 : Rat) ^ e := div_lt_one hpow
  rw [← hlt, ← hscaled]
  split
  · have hden : (0 : Rat) < (d * 2 ^ e.toNat : Nat) := by push_cast; positivity
    rw [div_lt_one hden]
    exact_mod_cast Iff.rfl
  · rw [div_lt_one hd']
    exact_mod_cast Iff.rfl

/-- The logarithms of numerator and denominator give the exponent of a quotient but for one. -/
theorem log2_bounds {n d : Nat} (hn : n ≠ 0) (hd : d ≠ 0) :
    (2 : Rat) ^ ((n.log2 : Int) - (d.log2 : Int) - 1) ≤ n / d ∧
      (n : Rat) / d < (2 : Rat) ^ ((n.log2 : Int) - (d.log2 : Int) + 1) := by
  have hd' : (0 : Rat) < d := by exact_mod_cast Nat.pos_of_ne_zero hd
  have hn₁ : (2 : Rat) ^ (n.log2 : Int) ≤ n := by
    rw [zpow_natCast]
    exact_mod_cast Nat.log2_self_le hn
  have hn₂ : (n : Rat) < (2 : Rat) ^ ((n.log2 : Int) + 1) := by
    have : n < 2 ^ (n.log2 + 1) := Nat.lt_log2_self
    exact_mod_cast this
  have hd₁ : (2 : Rat) ^ (d.log2 : Int) ≤ d := by
    rw [zpow_natCast]
    exact_mod_cast Nat.log2_self_le hd
  have hd₂ : (d : Rat) < (2 : Rat) ^ ((d.log2 : Int) + 1) := by
    have : d < 2 ^ (d.log2 + 1) := Nat.lt_log2_self
    exact_mod_cast this
  constructor
  · rw [le_div_iff₀ hd']
    calc (2 : Rat) ^ ((n.log2 : Int) - (d.log2 : Int) - 1) * d
        ≤ (2 : Rat) ^ ((n.log2 : Int) - (d.log2 : Int) - 1) * (2 : Rat) ^ ((d.log2 : Int) + 1) := by
          gcongr
      _ = (2 : Rat) ^ (n.log2 : Int) := by
          rw [← zpow_add₀ (by norm_num)]
          congr 1
          omega
      _ ≤ n := hn₁
  · rw [div_lt_iff₀ hd']
    calc (n : Rat) < (2 : Rat) ^ ((n.log2 : Int) + 1) := hn₂
      _ = (2 : Rat) ^ ((n.log2 : Int) - (d.log2 : Int) + 1) * (2 : Rat) ^ (d.log2 : Int) := by
          rw [← zpow_add₀ (by norm_num)]
          congr 1
          omega
      _ ≤ (2 : Rat) ^ ((n.log2 : Int) - (d.log2 : Int) + 1) * d := by
          gcongr

/-- The exponent of the power of two that a number reaches. -/
def binaryExponent (q : Rat) : Int :=
  let n := q.num.natAbs
  let d := q.den
  let e : Int := (n.log2 : Int) - (d.log2 : Int)
  let below := if 0 ≤ e then n < d * 2 ^ e.toNat else n * 2 ^ (-e).toNat < d
  if below then e - 1 else e

/-- The exponent of the last place that a double near a number has. -/
def unitExponent (q : Rat) : Int := max (binaryExponent q - 52) (-1074)

/-- The size of a number in units of the last place, rounded. -/
def significand (q : Rat) : Nat :=
  if 0 ≤ unitExponent q then roundHalfEven q.num.natAbs (q.den * 2 ^ (unitExponent q).toNat)
  else roundHalfEven (q.num.natAbs * 2 ^ (-unitExponent q).toNat) q.den

theorem roundDouble_eq (q : Rat) : roundDouble q =
    scaleTwo (if q.num < 0 then -(significand q : Int) else significand q) (unitExponent q) := rfl

theorem natAbs_div_den {q : Rat} (hq : 0 < q) : (q.num.natAbs : Rat) / q.den = q := by
  have hcast : ((q.num.natAbs : Int) : Rat) = q.num := by
    rw [Int.natAbs_of_nonneg (Rat.num_pos.2 hq).le]
  rw [← Int.cast_natCast, hcast, Rat.num_div_den]

theorem binaryExponent_bounds {q : Rat} (hq : 0 < q) :
    (2 : Rat) ^ binaryExponent q ≤ q ∧ q < (2 : Rat) ^ (binaryExponent q + 1) := by
  have hn : q.num.natAbs ≠ 0 := by
    have := Rat.num_pos.2 hq
    omega
  have hbounds := log2_bounds hn q.den_ne_zero
  have hbelow := below_iff q.num.natAbs q.den_pos
    ((q.num.natAbs.log2 : Int) - (q.den.log2 : Int))
  rw [natAbs_div_den hq] at hbounds hbelow
  unfold binaryExponent
  simp only [hbelow]
  split
  · next h => exact ⟨hbounds.1, by simpa using h⟩
  · next h => exact ⟨not_lt.1 h, hbounds.2⟩

/-- A number is half a unit in the last place away from its significand at most. -/
theorem abs_significand_sub_le {q : Rat} (hq : 0 < q) :
    |(significand q : Rat) - q / (2 : Rat) ^ unitExponent q| ≤ 1 / 2 := by
  have hscaled := scaled_eq q.num.natAbs q.den (unitExponent q)
  rw [natAbs_div_den hq] at hscaled
  rw [← hscaled, significand]
  split
  · exact abs_roundHalfEven_sub_le _ (Nat.mul_pos q.den_pos (Nat.two_pow_pos _))
  · exact abs_roundHalfEven_sub_le _ q.den_pos

theorem roundDouble_of_pos {q : Rat} (hq : 0 < q) :
    roundDouble q = significand q * (2 : Rat) ^ unitExponent q := by
  have hneg : ¬ q.num < 0 := by
    have := Rat.num_pos.2 hq
    omega
  rw [roundDouble_eq, if_neg hneg, scaleTwo_eq, Int.cast_natCast]

/-! ## The nearest double -/

theorem roundDouble_zero : roundDouble 0 = 0 := by decide +kernel

theorem roundDouble_neg (q : Rat) : roundDouble (-q) = -roundDouble q := by
  have hunit : unitExponent (-q) = unitExponent q := by simp [unitExponent, binaryExponent]
  have hsig : significand (-q) = significand q := by simp [significand, hunit]
  rw [roundDouble_eq, roundDouble_eq, hunit, hsig, scaleTwo_eq, scaleTwo_eq, Rat.neg_num]
  rcases lt_trichotomy q.num 0 with h | h | h
  · rw [if_neg (by omega), if_pos h]
    push_cast
    ring
  · have hzero : significand q = 0 := by simp [significand, h, roundHalfEven]
    simp [hzero]
  · rw [if_pos (by omega), if_neg (by omega)]
    push_cast
    ring

theorem IsDouble.neg {x : Rat} (hx : IsDouble x) : IsDouble (-x) := by
  obtain ⟨k, u, hk, hu, rfl⟩ := hx
  exact ⟨-k, u, by rwa [abs_neg], hu, by push_cast; ring⟩

theorem multiple_of_le (k : Int) {u v : Int} (h : u ≤ v) :
    ∃ j : Int, (k : Rat) * (2 : Rat) ^ v = j * (2 : Rat) ^ u := by
  obtain ⟨m, rfl⟩ : ∃ m : Nat, v = u + m := ⟨(v - u).toNat, by omega⟩
  refine ⟨k * 2 ^ m, ?_⟩
  rw [zpow_add₀ (by norm_num), zpow_natCast]
  push_cast
  ring

theorem isDouble_roundDouble_of_pos {q : Rat} (hq : 0 < q) : IsDouble (roundDouble q) := by
  have hhigh := (binaryExponent_bounds hq).2
  have hhalf := (abs_le.1 (abs_significand_sub_le hq)).2
  refine ⟨significand q, unitExponent q, ?_, le_max_right _ _, roundDouble_of_pos hq⟩
  have hquot : q / (2 : Rat) ^ unitExponent q < 2 ^ 53 := by
    rw [div_lt_iff₀ (by positivity)]
    calc q < (2 : Rat) ^ (binaryExponent q + 1) := hhigh
      _ ≤ (2 : Rat) ^ (53 + unitExponent q) :=
          zpow_le_zpow_right₀ (by norm_num) (by unfold unitExponent; omega)
      _ = 2 ^ 53 * (2 : Rat) ^ unitExponent q := by
          rw [zpow_add₀ (by norm_num)]
          norm_num
  have hk : (significand q : Rat) < 2 ^ 53 + 1 := by linarith
  have hk' : significand q < 2 ^ 53 + 1 := by exact_mod_cast hk
  rw [abs_of_nonneg (by omega)]
  omega

theorem isDouble_roundDouble (q : Rat) : IsDouble (roundDouble q) := by
  rcases lt_trichotomy q 0 with h | h | h
  · have := (isDouble_roundDouble_of_pos (neg_pos.2 h)).neg
    rwa [roundDouble_neg, neg_neg] at this
  · rw [h, roundDouble_zero]
    exact ⟨0, 0, by norm_num, by norm_num, by norm_num⟩
  · exact isDouble_roundDouble_of_pos h

theorem roundDouble_nearest_of_pos {q x : Rat} (hq : 0 < q) (hx : IsDouble x) :
    |roundDouble q - q| ≤ |x - q| := by
  obtain ⟨j, v, hj, hv, rfl⟩ := hx
  have hhalf := abs_significand_sub_le hq
  have hround := roundDouble_of_pos hq
  have hpow : (0 : Rat) < (2 : Rat) ^ unitExponent q := by positivity
  have hscale : ∀ i : Int, |(i : Rat) * (2 : Rat) ^ unitExponent q - q| =
      |(i : Rat) - q / (2 : Rat) ^ unitExponent q| * (2 : Rat) ^ unitExponent q := by
    intro i
    calc |(i : Rat) * (2 : Rat) ^ unitExponent q - q|
        = |((i : Rat) - q / (2 : Rat) ^ unitExponent q) * (2 : Rat) ^ unitExponent q| := by
          rw [sub_mul, div_mul_cancel₀ _ hpow.ne']
      _ = _ := by rw [abs_mul, abs_of_pos hpow]
  -- The rounded number is the nearest multiple of its own unit.
  have hmultiple : ∀ i : Int,
      |roundDouble q - q| ≤ |(i : Rat) * (2 : Rat) ^ unitExponent q - q| := by
    intro i
    have := abs_sub_le_of_half (k := (significand q : Int)) (by rwa [Int.cast_natCast]) i
    rw [hround, ← Int.cast_natCast (significand q), hscale, hscale]
    gcongr
  by_cases huv : unitExponent q ≤ v
  · obtain ⟨i, hi⟩ := multiple_of_le j huv
    rw [hi]
    exact hmultiple i
  · -- A double of a smaller unit lies below the power of two that `q` reaches.
    have hue : unitExponent q = binaryExponent q - 52 := by
      unfold unitExponent at huv ⊢
      omega
    have hlow := (binaryExponent_bounds hq).1
    obtain ⟨i, hi⟩ := multiple_of_le 1 (show unitExponent q ≤ binaryExponent q by omega)
    have hbelow : (j : Rat) * (2 : Rat) ^ v ≤ (2 : Rat) ^ binaryExponent q := by
      have hj' : (j : Rat) ≤ 2 ^ 53 := by exact_mod_cast (le_abs_self j).trans hj
      calc (j : Rat) * (2 : Rat) ^ v ≤ 2 ^ 53 * (2 : Rat) ^ v := by gcongr
        _ = (2 : Rat) ^ (53 + v) := by
            rw [zpow_add₀ (by norm_num)]
            norm_num
        _ ≤ (2 : Rat) ^ binaryExponent q := zpow_le_zpow_right₀ (by norm_num) (by omega)
    calc |roundDouble q - q| ≤ |(i : Rat) * (2 : Rat) ^ unitExponent q - q| := hmultiple i
      _ = q - (2 : Rat) ^ binaryExponent q := by
          rw [← hi, Int.cast_one, one_mul, abs_sub_comm, abs_of_nonneg (by linarith)]
      _ ≤ q - (j : Rat) * (2 : Rat) ^ v := by linarith
      _ ≤ |(j : Rat) * (2 : Rat) ^ v - q| := by
          rw [abs_sub_comm]
          exact le_abs_self _

theorem roundDouble_nearest {x : Rat} (q : Rat) (hx : IsDouble x) :
    |roundDouble q - q| ≤ |x - q| := by
  rcases lt_trichotomy q 0 with h | h | h
  · have := roundDouble_nearest_of_pos (neg_pos.2 h) hx.neg
    rwa [roundDouble_neg, ← neg_add', abs_neg, ← neg_add', abs_neg, ← sub_eq_add_neg,
      ← sub_eq_add_neg] at this
  · simp [h, roundDouble_zero]
  · exact roundDouble_nearest_of_pos h hx

theorem roundDouble_of_isDouble {x : Rat} (hx : IsDouble x) : roundDouble x = x := by
  have := roundDouble_nearest x hx
  rw [sub_self, abs_zero] at this
  exact sub_eq_zero.1 (abs_nonpos_iff.1 this)

theorem add_le_of_closer {a b x : Rat} (hab : a < b) (h : |b - x| ≤ |a - x|) : a + b ≤ 2 * x := by
  rcases abs_cases (b - x) with ⟨hb, hb'⟩ | ⟨hb, hb'⟩ <;>
    rcases abs_cases (a - x) with ⟨ha, ha'⟩ | ⟨ha, ha'⟩ <;> linarith

theorem roundDouble_mono {p q : Rat} (h : p ≤ q) : roundDouble p ≤ roundDouble q := by
  by_contra hcon
  have hlt : roundDouble q < roundDouble p := not_le.1 hcon
  have hp := add_le_of_closer hlt (roundDouble_nearest p (isDouble_roundDouble q))
  have hq := roundDouble_nearest q (isDouble_roundDouble p)
  rw [← abs_neg (_ - q), ← abs_neg (roundDouble p - q), neg_sub, neg_sub] at hq
  have hq' : -roundDouble p + -roundDouble q ≤ 2 * -q :=
    add_le_of_closer (neg_lt_neg hlt) (by
      rw [sub_neg_eq_add, sub_neg_eq_add, neg_add_eq_sub, neg_add_eq_sub]
      exact hq)
  have heq : p = q := by linarith
  rw [heq] at hlt
  exact lt_irrefl _ hlt

theorem isDouble_natCast {n : Nat} (h : n ≤ 2 ^ 53) : IsDouble n := by
  refine ⟨n, 0, ?_, by norm_num, by simp⟩
  rw [abs_of_nonneg (by omega)]
  exact_mod_cast h

theorem roundDouble_natCast {n : Nat} (h : n ≤ 2 ^ 53) : roundDouble (n : Rat) = n :=
  roundDouble_of_isDouble (isDouble_natCast h)

theorem roundDouble_nonneg {q : Rat} (h : 0 ≤ q) : 0 ≤ roundDouble q := by
  have := roundDouble_mono h
  rwa [roundDouble_zero] at this

theorem roundDouble_nonpos {q : Rat} (h : q ≤ 0) : roundDouble q ≤ 0 := by
  have := roundDouble_mono h
  rwa [roundDouble_zero] at this

/-! ## Relative errors -/

/-- `x` differs from `y` by at most the part `δ` of it. -/
def Approx (δ x y : Rat) : Prop := |x - y| ≤ δ * |y|

/-- Half a unit in the last place of a number that is not subnormal. -/
def roundingUnit : Rat := 1 / 2 ^ 53

theorem approx_roundDouble {q : Rat} (hq : (2 : Rat) ^ (-1022 : Int) ≤ q) :
    Approx roundingUnit (roundDouble q) q := by
  have hpos : 0 < q := lt_of_lt_of_le (by positivity) hq
  obtain ⟨hlow, hhigh⟩ := binaryExponent_bounds hpos
  have hnormal : -1022 < binaryExponent q + 1 :=
    (zpow_lt_zpow_iff_right₀ (by norm_num)).1 (lt_of_le_of_lt hq hhigh)
  have hunit : unitExponent q = binaryExponent q - 52 := by
    unfold unitExponent
    omega
  have hpow : (0 : Rat) < (2 : Rat) ^ unitExponent q := by positivity
  have hhalf := abs_significand_sub_le hpos
  unfold Approx roundingUnit
  rw [abs_of_pos hpos]
  calc |roundDouble q - q|
      = |(significand q : Rat) - q / (2 : Rat) ^ unitExponent q| * (2 : Rat) ^ unitExponent q := by
        rw [roundDouble_of_pos hpos, ← abs_of_pos hpow, ← abs_mul, abs_of_pos hpow, sub_mul,
          div_mul_cancel₀ _ hpow.ne']
    _ ≤ 1 / 2 * (2 : Rat) ^ unitExponent q := by gcongr
    _ = 1 / 2 ^ 53 * (2 : Rat) ^ binaryExponent q := by
        rw [hunit, zpow_sub₀ (by norm_num)]
        norm_num
        ring
    _ ≤ 1 / 2 ^ 53 * q := by gcongr

theorem Approx.size_le {δ x y : Rat} (h : Approx δ x y) : |x| ≤ (1 + δ) * |y| := by
  have htri := abs_sub_abs_le_abs_sub x y
  unfold Approx at h
  linarith

/-- An approximation of a number that is not too small is rounded to one. -/
theorem Approx.round {δ x y : Rat} (h : Approx δ x y) (hδ : δ ≤ 1 / 2)
    (hy : (2 : Rat) ^ (-1021 : Int) ≤ y) :
    Approx (δ + roundingUnit * (1 + δ)) (roundDouble x) y := by
  have hpos : 0 < y := lt_of_lt_of_le (by positivity) hy
  have hx : (2 : Rat) ^ (-1022 : Int) ≤ x := by
    have hpow : (2 : Rat) ^ (-1021 : Int) = 2 ^ (-1022 : Int) * 2 := by
      rw [← zpow_add_one₀ (by norm_num)]
      norm_num
    have hhalf : δ * y ≤ 1 / 2 * y := by gcongr
    have hlow := (abs_le.1 h).1
    rw [abs_of_pos hpos] at hlow
    linarith
  have hround := approx_roundDouble hx
  have hsize := h.size_le
  have hnonneg : (0 : Rat) ≤ roundingUnit := by norm_num [roundingUnit]
  unfold Approx at h hround ⊢
  calc |roundDouble x - y| ≤ |roundDouble x - x| + |x - y| := abs_sub_le _ _ _
    _ ≤ roundingUnit * |x| + δ * |y| := add_le_add hround h
    _ ≤ roundingUnit * ((1 + δ) * |y|) + δ * |y| := by gcongr
    _ = (δ + roundingUnit * (1 + δ)) * |y| := by ring

theorem Approx.mono {δ ε x y : Rat} (h : Approx δ x y) (hle : δ ≤ ε) : Approx ε x y :=
  le_trans h (mul_le_mul_of_nonneg_right hle (abs_nonneg y))

theorem Approx.add {δ x x' y y' : Rat} (h : Approx δ x y) (h' : Approx δ x' y') (hy : 0 ≤ y)
    (hy' : 0 ≤ y') : Approx δ (x + x') (y + y') := by
  unfold Approx at h h' ⊢
  rw [abs_of_nonneg hy] at h
  rw [abs_of_nonneg hy'] at h'
  rw [abs_of_nonneg (add_nonneg hy hy')]
  calc |x + x' - (y + y')| = |(x - y) + (x' - y')| := by ring_nf
    _ ≤ |x - y| + |x' - y'| := abs_add_le _ _
    _ ≤ δ * (y + y') := by linarith

theorem Approx.mul {δ ε x x' y y' : Rat} (h : Approx δ x y) (h' : Approx ε x' y') (hδ : 0 ≤ δ) :
    Approx (δ + ε + δ * ε) (x * x') (y * y') := by
  have hsize := h.size_le
  unfold Approx at h h' ⊢
  calc |x * x' - y * y'| = |x * (x' - y') + (x - y) * y'| := by ring_nf
    _ ≤ |x * (x' - y')| + |(x - y) * y'| := abs_add_le _ _
    _ = |x| * |x' - y'| + |x - y| * |y'| := by rw [abs_mul, abs_mul]
    _ ≤ (1 + δ) * |y| * (ε * |y'|) + δ * |y| * |y'| := by
        gcongr
    _ = (δ + ε + δ * ε) * |y * y'| := by
        rw [abs_mul]
        ring

theorem Approx.div {δ x y : Rat} (h : Approx δ x y) (c : Rat) : Approx δ (x / c) (y / c) := by
  unfold Approx at h ⊢
  rw [← sub_div, abs_div, abs_div, ← mul_div_assoc]
  gcongr

/-- Approximations of two positive numbers that are far enough apart are in their order. -/
theorem Approx.lt_iff {δ x x' y y' : Rat} (h : Approx δ x y) (h' : Approx δ x' y') (hy : 0 < y)
    (hy' : 0 < y') (hfar : 2 * δ * max y y' < |y - y'|) : x < x' ↔ y < y' := by
  have hδ : 0 ≤ δ := by
    have : 0 ≤ δ * |y| := le_trans (abs_nonneg _) h
    exact nonneg_of_mul_nonneg_left this (abs_pos.2 hy.ne')
  unfold Approx at h h'
  rw [abs_of_pos hy, abs_le] at h
  rw [abs_of_pos hy', abs_le] at h'
  rcases lt_or_ge y y' with hlt | hge
  · rw [max_eq_right hlt.le, abs_sub_comm, abs_of_pos (sub_pos.2 hlt)] at hfar
    have hmul : δ * y ≤ δ * y' := by gcongr
    have hxx : x < x' := by linarith
    exact ⟨fun _ => hlt, fun _ => hxx⟩
  · rw [max_eq_left hge, abs_of_nonneg (sub_nonneg.2 hge)] at hfar
    have hmul : δ * y' ≤ δ * y := by gcongr
    have hxx : x' ≤ x := by linarith
    exact ⟨fun hcon => absurd hcon (not_lt.2 hxx), fun hcon => absurd hcon (not_lt.2 hge)⟩

end Wcp.Base
