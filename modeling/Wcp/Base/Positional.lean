import Mathlib.Data.Nat.Digits.Defs
import Mathlib.Data.Nat.Digits.Lemmas
/-!
# Numerals with leading zeros

A list of digits, most significant first, is a number together with a count of
leading zeros.  Converting a byte string to another base keeps the two apart: the
number is converted and the zeros are counted.  `numeral` puts them together
again; it is inverse to taking the count and the value in any base.  `fixedDigits`
writes a number with as many digits as one asks for.
-/

namespace Wcp.Base

/-- The number of zeros a list of digits starts with. -/
def leadingZeros (ds : List Nat) : Nat := (ds.takeWhile (· = 0)).length

theorem leadingZeros_eq_zero_iff (ds : List Nat) : leadingZeros ds = 0 ↔ ds.head? ≠ some 0 := by
  cases ds with
  | nil => simp [leadingZeros]
  | cons d ds =>
      rw [leadingZeros, List.length_eq_zero_iff, List.takeWhile_cons]
      by_cases hd : d = 0 <;> simp [hd]

/-- The value of digits, most significant first. -/
def bigEndian (b : Nat) (ds : List Nat) : Nat := ds.foldl (fun n d => n * b + d) 0

/-- The digits of a number after some zeros. -/
def numeral (b zeros n : Nat) : List Nat := List.replicate zeros 0 ++ (Nat.digits b n).reverse

theorem bigEndian_eq_ofDigits (b : Nat) (ds : List Nat) :
    bigEndian b ds = Nat.ofDigits b ds.reverse := by
  rw [bigEndian, List.foldl_eq_foldr_reverse, Nat.ofDigits_eq_foldr]
  congr 1
  funext d n
  simp only [Nat.cast_id]
  ring

theorem bigEndian_zeros_append (b zeros : Nat) (ds : List Nat) :
    bigEndian b (List.replicate zeros 0 ++ ds) = bigEndian b ds := by
  rw [bigEndian_eq_ofDigits, List.reverse_append, List.reverse_replicate,
    Nat.ofDigits_append_replicate_zero, bigEndian_eq_ofDigits]

theorem bigEndian_numeral (b zeros n : Nat) : bigEndian b (numeral b zeros n) = n := by
  rw [numeral, bigEndian_zeros_append, bigEndian_eq_ofDigits, List.reverse_reverse,
    Nat.ofDigits_digits]

theorem leadingZeros_digits (b n : Nat) : leadingZeros (Nat.digits b n).reverse = 0 := by
  cases h : (Nat.digits b n).reverse with
  | nil => rfl
  | cons d ds =>
      have hdigits : Nat.digits b n = ds.reverse ++ [d] := by
        rw [← List.reverse_reverse (Nat.digits b n), h, List.reverse_cons]
      have hne : Nat.digits b n ≠ [] := by simp [hdigits]
      have hd := Nat.getLast_digit_ne_zero b (Nat.digits_ne_nil_iff_ne_zero.1 hne)
      have hlast : (Nat.digits b n).getLast hne = d := by simp [hdigits]
      rw [hlast] at hd
      rw [leadingZeros, List.takeWhile_cons_of_neg (by simpa using hd), List.length_nil]

theorem leadingZeros_zeros_append (zeros : Nat) (ds : List Nat) :
    leadingZeros (List.replicate zeros 0 ++ ds) = zeros + leadingZeros ds := by
  induction zeros with
  | zero => simp
  | succ zeros ih =>
      rw [leadingZeros] at ih ⊢
      rw [List.replicate_succ, List.cons_append, List.takeWhile_cons_of_pos (by simp),
        List.length_cons, ih]
      omega

theorem leadingZeros_numeral (b zeros n : Nat) : leadingZeros (numeral b zeros n) = zeros := by
  rw [numeral, leadingZeros_zeros_append, leadingZeros_digits, Nat.add_zero]

/-- A list of digits is the numeral of its value after its leading zeros. -/
theorem numeral_leadingZeros {b : Nat} (hb : 1 < b) {ds : List Nat} (hds : ∀ d ∈ ds, d < b) :
    numeral b (leadingZeros ds) (bigEndian b ds) = ds := by
  induction ds with
  | nil => simp [numeral, leadingZeros, bigEndian]
  | cons d ds ih =>
      by_cases hd : d = 0
      · have htail := ih fun x hx => hds x (List.mem_cons_of_mem d hx)
        have hvalue : bigEndian b (d :: ds) = bigEndian b ds := by
          rw [hd]
          exact bigEndian_zeros_append b 1 ds
        rw [numeral] at htail
        rw [hvalue, numeral, leadingZeros, List.takeWhile_cons_of_pos (by simpa using hd),
          List.length_cons, List.replicate_succ, List.cons_append, ← leadingZeros, htail, hd]
      · have hzeros : leadingZeros (d :: ds) = 0 := by
          rw [leadingZeros, List.takeWhile_cons_of_neg (by simpa using hd), List.length_nil]
        have hdigits : Nat.digits b (Nat.ofDigits b (d :: ds).reverse) = (d :: ds).reverse := by
          refine Nat.digits_ofDigits b hb _ (fun x hx => hds x (List.mem_reverse.1 hx)) fun h => ?_
          simpa using hd
        rw [numeral, hzeros, bigEndian_eq_ofDigits, hdigits, List.reverse_reverse]
        rfl

/-! ## A fixed number of digits -/

/-- The last `width` digits of a number, most significant first. -/
def fixedDigits (b : Nat) : Nat → Nat → List Nat
  | 0, _ => []
  | width + 1, n => fixedDigits b width (n / b) ++ [n % b]

theorem bigEndian_concat (b : Nat) (ds : List Nat) (d : Nat) :
    bigEndian b (ds ++ [d]) = bigEndian b ds * b + d := by
  rw [bigEndian, List.foldl_append]
  rfl

@[simp] theorem length_fixedDigits (b width n : Nat) : (fixedDigits b width n).length = width := by
  induction width generalizing n with
  | zero => rfl
  | succ width ih => rw [fixedDigits, List.length_append, ih, List.length_singleton]

theorem fixedDigits_lt {b : Nat} (hb : 0 < b) (width n : Nat) :
    ∀ d ∈ fixedDigits b width n, d < b := by
  induction width generalizing n with
  | zero => exact fun d hd => absurd hd List.not_mem_nil
  | succ width ih =>
      intro d hd
      rcases List.mem_append.1 hd with hd | hd
      · exact ih (n / b) d hd
      · rw [List.mem_singleton.1 hd]
        exact Nat.mod_lt n hb

theorem bigEndian_fixedDigits (b width n : Nat) :
    bigEndian b (fixedDigits b width n) = n % b ^ width := by
  induction width generalizing n with
  | zero => simp [fixedDigits, bigEndian, Nat.mod_one]
  | succ width ih =>
      rw [fixedDigits, bigEndian_concat, ih, Nat.pow_succ', Nat.mod_mul]
      ring

theorem bigEndian_lt {b : Nat} {ds : List Nat} (h : ∀ d ∈ ds, d < b) :
    bigEndian b ds < b ^ ds.length := by
  induction ds using List.reverseRecOn with
  | nil => simp [bigEndian]
  | append_singleton ds d ih =>
      have hd : d < b := h d (by simp)
      have hrest := ih fun x hx => h x (by simp [hx])
      rw [bigEndian_concat, List.length_append, List.length_singleton, Nat.pow_succ]
      calc bigEndian b ds * b + d < bigEndian b ds * b + b := by omega
        _ = (bigEndian b ds + 1) * b := by ring
        _ ≤ b ^ ds.length * b := Nat.mul_le_mul_right b hrest

theorem fixedDigits_bigEndian {b : Nat} {ds : List Nat} (h : ∀ d ∈ ds, d < b) :
    fixedDigits b ds.length (bigEndian b ds) = ds := by
  induction ds using List.reverseRecOn with
  | nil => rfl
  | append_singleton ds d ih =>
      have hd : d < b := h d (by simp)
      have hrest := ih fun x hx => h x (by simp [hx])
      have hdiv : (bigEndian b ds * b + d) / b = bigEndian b ds := by
        rw [Nat.mul_comm, Nat.mul_add_div (by omega), Nat.div_eq_of_lt hd, Nat.add_zero]
      have hmod : (bigEndian b ds * b + d) % b = d := by
        rw [Nat.mul_comm, Nat.mul_add_mod, Nat.mod_eq_of_lt hd]
      rw [bigEndian_concat, List.length_append, List.length_singleton, fixedDigits, hdiv, hmod,
        hrest]

theorem fixedDigits_mul_pow {b : Nat} (hb : 0 < b) (width zeros n : Nat) :
    fixedDigits b (width + zeros) (n * b ^ zeros) =
      fixedDigits b width n ++ List.replicate zeros 0 := by
  induction zeros with
  | zero => simp
  | succ zeros ih =>
      have hdiv : n * b ^ (zeros + 1) / b = n * b ^ zeros := by
        rw [Nat.pow_succ, ← Nat.mul_assoc, Nat.mul_div_cancel _ hb]
      have hmod : n * b ^ (zeros + 1) % b = 0 := by
        rw [Nat.pow_succ, ← Nat.mul_assoc, Nat.mul_mod_left]
      rw [← Nat.add_assoc, fixedDigits, hdiv, hmod, ih, List.replicate_succ', List.append_assoc]

theorem take_fixedDigits (b width more n : Nat) :
    (fixedDigits b (width + more) n).take width = fixedDigits b width (n / b ^ more) := by
  induction more generalizing n with
  | zero =>
      rw [Nat.add_zero, Nat.pow_zero, Nat.div_one, List.take_of_length_le]
      exact (length_fixedDigits b width n).le
  | succ more ih =>
      have hle : width ≤ (fixedDigits b (width + more) (n / b)).length := by
        rw [length_fixedDigits]
        exact Nat.le_add_right width more
      rw [← Nat.add_assoc, fixedDigits, List.take_append_of_le_length hle, ih,
        Nat.div_div_eq_div_mul,
        Nat.pow_succ']

end Wcp.Base
