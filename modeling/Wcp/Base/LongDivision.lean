import Wcp.Base.Positional
/-!
# Long division

A number given by its digits, most significant first, is divided by a small divisor
digit by digit: the remainder so far is carried into the next digit.  One pass gives
the digits of the quotient and the remainder (`bigEndian_longDivide`).
-/

namespace Wcp.Base

/-- One pass over the digits with a remainder carried in: the digits of the quotient and the
remainder that is left. -/
def longDivide (b d : Nat) : Nat → List Nat → List Nat × Nat
  | rem, [] => ([], rem)
  | rem, x :: xs =>
      let carry := x + rem * b
      let rest := longDivide b d (carry % d) xs
      (carry / d :: rest.1, rest.2)

variable {b d : Nat}

theorem bigEndian_cons (b x : Nat) (xs : List Nat) :
    bigEndian b (x :: xs) = x * b ^ xs.length + bigEndian b xs := by
  induction xs using List.reverseRecOn with
  | nil => simp [bigEndian]
  | append_singleton xs y ih =>
      rw [← List.cons_append, bigEndian_concat, ih, bigEndian_concat, List.length_append,
        List.length_singleton, Nat.pow_succ]
      ring

theorem longDivide_spec (rem : Nat) (xs : List Nat) :
    bigEndian b (longDivide b d rem xs).1 * d + (longDivide b d rem xs).2 =
      rem * b ^ xs.length + bigEndian b xs := by
  induction xs generalizing rem with
  | nil => simp [longDivide, bigEndian]
  | cons x xs ih =>
      have hlength : ∀ rem, (longDivide b d rem xs).1.length = xs.length := by
        clear ih
        induction xs with
        | nil => exact fun _ => rfl
        | cons y ys ih => exact fun rem => congrArg (· + 1) (ih _)
      have hcarry := Nat.div_add_mod' (x + rem * b) d
      rw [longDivide, bigEndian_cons, bigEndian_cons, hlength, List.length_cons, Nat.pow_succ]
      dsimp only
      calc ((x + rem * b) / d * b ^ xs.length + bigEndian b (longDivide b d _ xs).1) * d +
            (longDivide b d ((x + rem * b) % d) xs).2
          = (x + rem * b) / d * d * b ^ xs.length + (bigEndian b
              (longDivide b d ((x + rem * b) % d) xs).1 * d +
              (longDivide b d ((x + rem * b) % d) xs).2) := by ring
        _ = ((x + rem * b) / d * d + (x + rem * b) % d) * b ^ xs.length + bigEndian b xs := by
              rw [ih]
              ring
        _ = rem * (b ^ xs.length * b) + (x * b ^ xs.length + bigEndian b xs) := by
              rw [hcarry]
              ring

theorem longDivide_rem_lt {rem : Nat} {xs : List Nat} (hrem : rem < d) :
    (longDivide b d rem xs).2 < d := by
  induction xs generalizing rem with
  | nil => exact hrem
  | cons x xs ih => exact ih (Nat.mod_lt _ (Nat.zero_lt_of_lt hrem))

theorem carry_div_lt {rem x : Nat} (hrem : rem < d) (hx : x < b) : (x + rem * b) / d < b := by
  rw [Nat.div_lt_iff_lt_mul (Nat.zero_lt_of_lt hrem)]
  calc x + rem * b < b + rem * b := Nat.add_lt_add_right hx _
    _ = (rem + 1) * b := by ring
    _ ≤ d * b := Nat.mul_le_mul_right b hrem
    _ = b * d := Nat.mul_comm d b

theorem bigEndian_longDivide (hd : 0 < d) (xs : List Nat) :
    bigEndian b (longDivide b d 0 xs).1 = bigEndian b xs / d ∧
      (longDivide b d 0 xs).2 = bigEndian b xs % d := by
  have hspec := longDivide_spec (b := b) (d := d) 0 xs
  have hlt : (longDivide b d 0 xs).2 < d := longDivide_rem_lt hd
  rw [Nat.zero_mul, Nat.zero_add] at hspec
  rw [← hspec]
  constructor
  · rw [Nat.mul_comm, Nat.mul_add_div hd, Nat.div_eq_of_lt hlt, Nat.add_zero]
  · rw [Nat.mul_comm, Nat.mul_add_mod, Nat.mod_eq_of_lt hlt]

theorem bigEndian_eq_zero_iff (hb : 0 < b) (ds : List Nat) :
    bigEndian b ds = 0 ↔ ∀ x ∈ ds, x = 0 := by
  induction ds with
  | nil => simp [bigEndian]
  | cons x xs ih =>
      have hpow : b ^ xs.length ≠ 0 := (Nat.pow_pos hb).ne'
      rw [bigEndian_cons, Nat.add_eq_zero_iff, ih, Nat.mul_eq_zero, or_iff_left hpow,
        List.forall_mem_cons]

end Wcp.Base
