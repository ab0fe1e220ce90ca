import Wcp.Base.LongDivision
import Wcp.Sdk.Identity
/-!
# Base58 in the other SDKs

The Go SDK divides the bytes of a key in place until nothing is left, the TypeScript
SDK takes them for one big integer, as the Python SDK does.  On every byte string that
is not all zeros the three write the same text (`base58_agrees`).
-/

namespace Wcp.Sdk

open Wcp.Base

/-! ## Go -/

/-- The inner loop of `base58Encode`: the bytes it leaves in `src`, and `rem`. -/
def goPass : Nat → List UInt8 → List UInt8 × Nat
  | rem, [] => ([], rem)
  | rem, x :: xs =>
      let carry := x.toNat + rem * 256
      let rest := goPass (carry % 58) xs
      (UInt8.ofNat (carry / 58) :: rest.1, rest.2)

/-- The values that `carry` takes in the inner loop. -/
def goCarries : Nat → List UInt8 → List Nat
  | _, [] => []
  | rem, x :: xs =>
      let carry := x.toNat + rem * 256
      carry :: goCarries (carry % 58) xs

/-- `src` after some passes. -/
def goSource (passes : Nat) (src : List UInt8) : List UInt8 :=
  (fun s => (goPass 0 s).1)^[passes] src

theorem goCarries_div_le {rem : Nat} (hrem : rem < 58) (src : List UInt8) :
    ∀ c ∈ goCarries rem src, c / 58 ≤ 255 := by
  induction src generalizing rem with
  | nil => exact fun c hc => absurd hc List.not_mem_nil
  | cons x xs ih =>
      intro c hc
      rcases List.mem_cons.1 hc with rfl | hc
      · exact Nat.le_of_lt_succ (carry_div_lt hrem x.toNat_lt)
      · exact ih (Nat.mod_lt _ (by decide)) c hc

theorem goPass_eq {rem : Nat} (hrem : rem < 58) (src : List UInt8) :
    (goPass rem src).1.map UInt8.toNat = (longDivide 256 58 rem (src.map UInt8.toNat)).1 ∧
      (goPass rem src).2 = (longDivide 256 58 rem (src.map UInt8.toNat)).2 := by
  induction src generalizing rem with
  | nil => exact ⟨rfl, rfl⟩
  | cons x xs ih =>
      obtain ⟨hquotient, hremainder⟩ := @ih ((x.toNat + rem * 256) % 58)
        (Nat.mod_lt _ (by decide))
      have hbyte : (UInt8.ofNat ((x.toNat + rem * 256) / 58)).toNat = (x.toNat + rem * 256) / 58 :=
        UInt8.toNat_ofNat_of_lt' (carry_div_lt hrem x.toNat_lt)
      rw [List.map_cons, longDivide, goPass]
      dsimp only
      rw [List.map_cons, hbyte, hquotient]
      exact ⟨rfl, hremainder⟩

theorem fromBytes_goPass (src : List UInt8) :
    Coordinator.fromBytes (goPass 0 src).1 = Coordinator.fromBytes src / 58 ∧
      (goPass 0 src).2 = Coordinator.fromBytes src % 58 := by
  obtain ⟨hquotient, hremainder⟩ := goPass_eq (by decide : 0 < 58) src
  rw [Coordinator.fromBytes_eq, Coordinator.fromBytes_eq, hquotient, hremainder]
  exact bigEndian_longDivide (by decide) _

theorem fromBytes_eq_zero_iff (src : List UInt8) :
    Coordinator.fromBytes src = 0 ↔ src.all (· = 0) = true := by
  rw [Coordinator.fromBytes_eq, bigEndian_eq_zero_iff (by decide), List.all_eq_true]
  simp [← UInt8.toNat_inj]

/-- The outer loop of `base58Encode`, with the digits so far. -/
def goDigits (src : List UInt8) (digits : List Char) : List Char :=
  let pass := goPass 0 src
  if pass.1.all (· = 0) then Coordinator.b58.getD pass.2 '1' :: digits
  else goDigits pass.1 (Coordinator.b58.getD pass.2 '1' :: digits)
termination_by Coordinator.fromBytes src
decreasing_by
  next hnonzero =>
  have hquotient := (fromBytes_goPass src).1
  have hpos : Coordinator.fromBytes (goPass 0 src).1 ≠ 0 :=
    fun hzero => hnonzero ((fromBytes_eq_zero_iff _).1 hzero)
  omega

def goBase58Encode (b : List UInt8) : List Char :=
  List.replicate (b.takeWhile (· = 0)).length '1' ++ goDigits b []

/-- The passes write the digits that the other SDKs take from a big integer. -/
theorem goDigits_eq {src : List UInt8} (h : Coordinator.fromBytes src ≠ 0) (digits : List Char) :
    goDigits src digits = Coordinator.b58digits (Coordinator.fromBytes src) digits := by
  induction hn : Coordinator.fromBytes src using Nat.strongRecOn generalizing src digits with
  | _ n ih =>
      obtain ⟨hquotient, hremainder⟩ := fromBytes_goPass src
      rw [hn] at hquotient hremainder
      have hn0 : n ≠ 0 := hn ▸ h
      rw [Coordinator.b58digits, if_neg hn0, goDigits, hremainder]
      by_cases hzero : n / 58 = 0
      · rw [if_pos ((fromBytes_eq_zero_iff _).1 (hquotient.trans hzero)), hzero,
          Coordinator.b58digits, if_pos rfl]
      · have hnonzero : Coordinator.fromBytes (goPass 0 src).1 ≠ 0 := by rwa [hquotient]
        rw [if_neg fun hall => hnonzero ((fromBytes_eq_zero_iff _).2 hall)]
        exact ih (n / 58) (by omega) hnonzero _ hquotient

theorem exists_goSource_zero (src : List UInt8) :
    ∃ passes, (goSource (passes + 1) src).all (· = 0) = true := by
  induction hn : Coordinator.fromBytes src using Nat.strongRecOn generalizing src with
  | _ n ih =>
      have hquotient := (fromBytes_goPass src).1
      by_cases hzero : Coordinator.fromBytes (goPass 0 src).1 = 0
      · exact ⟨0, (fromBytes_eq_zero_iff _).1 hzero⟩
      · obtain ⟨passes, hall⟩ := ih _ (by omega) (goPass 0 src).1 rfl
        exact ⟨passes + 1, hall⟩

/-! ## TypeScript -/

/-- The big integer of `base58Encode`. -/
def tsFromBytes (bytes : List UInt8) : Nat := bytes.foldl (fun n b => n <<< 8 ||| b.toNat) 0

/-- `base58Encode` of the TypeScript SDK, whose loop over the integer is the one in Python. -/
def tsBase58Encode (bytes : List UInt8) : List Char :=
  List.replicate (bytes.takeWhile (· = 0)).length '1' ++
    Coordinator.b58digits (tsFromBytes bytes) []

theorem tsFromBytes_eq (bytes : List UInt8) : tsFromBytes bytes = Coordinator.fromBytes bytes := by
  have hstep : (fun (n : Nat) (b : UInt8) => n <<< 8 ||| b.toNat) =
      fun n b => n * 256 + b.toNat := by
    funext n b
    rw [← Nat.shiftLeft_add_eq_or_of_lt b.toNat_lt, Nat.shiftLeft_eq]
  rw [tsFromBytes, hstep, Coordinator.fromBytes]

/-! ## One text -/

theorem leadingOnes_b58encode (b : List UInt8) :
    ((b58encode b).takeWhile (· = '1')).length = (b.takeWhile (· = 0)).length := by
  rw [b58encode, ← Coordinator.leadingZeros_text, Coordinator.b58encode_eq,
    Coordinator.map_idxOf_getD (Coordinator.numeral_lt (by decide) _ _), leadingZeros_numeral,
    Coordinator.leadingZeros_bytes]

/-- All SDKs write one text for a byte string with a non-zero byte: the division ends, no carry
leaves a byte, and the text has no `1` in front but those of leading zeros. -/
theorem base58_agrees (b : List UInt8) (hb : ∃ x ∈ b, x ≠ 0) :
    goBase58Encode b = b58encode b ∧ tsBase58Encode b = b58encode b ∧
      (∃ passes, (goSource (passes + 1) b).all (· = 0) = true) ∧
      (∀ passes, ∀ carry ∈ goCarries 0 (goSource passes b), carry / 58 ≤ 255) ∧
      ((goBase58Encode b).takeWhile (· = '1')).length = (b.takeWhile (· = 0)).length := by
  have hnonzero : Coordinator.fromBytes b ≠ 0 := by
    obtain ⟨x, hx, hne⟩ := hb
    intro hzero
    have hall := (fromBytes_eq_zero_iff b).1 hzero
    exact hne (of_decide_eq_true (List.all_eq_true.1 hall x hx))
  have hgo : goBase58Encode b = b58encode b := by
    rw [goBase58Encode, goDigits_eq hnonzero, b58encode, Coordinator.b58encode]
  refine ⟨hgo, ?_, exists_goSource_zero b, fun passes => ?_, ?_⟩
  · rw [tsBase58Encode, tsFromBytes_eq, b58encode, Coordinator.b58encode]
  · exact goCarries_div_le (by decide) _
  · rw [hgo, leadingOnes_b58encode]

/-- A byte string with a leading zero. -/
theorem base58_agrees_leading_zero : goBase58Encode [0, 1, 2] = b58encode [0, 1, 2] :=
  (base58_agrees [0, 1, 2] ⟨1, by decide, by decide⟩).1

end Wcp.Sdk
