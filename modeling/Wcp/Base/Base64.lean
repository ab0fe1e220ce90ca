import Mathlib.Data.List.Basic
/-!
# URL-safe base64

The encoder pads to a multiple of four characters.  The decoder is the lenient
one of the interpreter: it skips characters outside the alphabet, stops at a
complete padding and ignores what follows, and refuses a text that ends inside a
group.  Decoding an encoded text gives the bytes back (`urlsafeB64_roundtrip`).
-/

namespace Wcp.Base

/-- The URL-safe alphabet. -/
def b64Alphabet : List Char :=
  "ABCDEFGHIJKLMNOPQRSTUVWXYZabcdefghijklmnopqrstuvwxyz0123456789-_".toList

/-- The character of a six-bit value. -/
def b64Char (n : Nat) : Char := b64Alphabet.getD n 'A'

/-- The six-bit value of a character.  The decoder maps the URL-safe characters to the
standard ones, so it accepts both spellings. -/
def b64Value (c : Char) : Option Nat :=
  if c = '+' then some 62
  else if c = '/' then some 63
  else if c ∈ b64Alphabet then some (b64Alphabet.idxOf c)
  else none

theorem b64Value_b64Char : ∀ n < 64, b64Value (b64Char n) = some n := by decide +kernel

theorem b64Char_ne_pad : ∀ n < 64, b64Char n ≠ '=' := by decide +kernel

theorem b64Char_ascii : ∀ n < 64, (b64Char n).toNat < 128 := by decide +kernel

/-- The text of a byte string before padding. -/
def b64Body : List UInt8 → List Char
  | [] => []
  | [a] => [b64Char (a.toNat / 4), b64Char (a.toNat % 4 * 16)]
  | [a, b] =>
      [b64Char (a.toNat / 4), b64Char (a.toNat % 4 * 16 + b.toNat / 16),
        b64Char (b.toNat % 16 * 4)]
  | a :: b :: c :: rest =>
      b64Char (a.toNat / 4) :: b64Char (a.toNat % 4 * 16 + b.toNat / 16) ::
        b64Char (b.toNat % 16 * 4 + c.toNat / 64) :: b64Char (c.toNat % 64) :: b64Body rest

/-- The padding that completes a text of a given length. -/
def b64Padding (length : Nat) : List Char := List.replicate ((4 - length % 4) % 4) '='

def urlsafeB64encode (bytes : List UInt8) : List Char :=
  b64Body bytes ++ b64Padding (b64Body bytes).length

/-- The loop of `binascii.a2b_base64`: `quad` characters of the current group have been
read, `left` holds their unused bits, `pads` counts the padding seen since. -/
def a2bBase64 : Nat → Nat → Nat → List UInt8 → List Char → Except String (List UInt8)
  | quad, _, _, out, [] =>
      if quad = 0 then .ok out
      else if quad = 1 then
        .error ("Invalid base64-encoded string: number of data characters (" ++
          Nat.repr (out.length / 3 * 4 + 1) ++ ") cannot be 1 more than a multiple of 4")
      else .error "Incorrect padding"
  | quad, left, pads, out, c :: cs =>
      if c = '=' then
        if 2 ≤ quad then
          if 4 ≤ quad + (pads + 1) then .ok out else a2bBase64 quad left (pads + 1) out cs
        else a2bBase64 quad left pads out cs
      else
        match b64Value c with
        | none => a2bBase64 quad left pads out cs
        | some v =>
            if quad = 0 then a2bBase64 1 v 0 out cs
            else if quad = 1 then
              a2bBase64 2 (v % 16) 0 (out ++ [UInt8.ofNat (left * 4 + v / 16)]) cs
            else if quad = 2 then
              a2bBase64 3 (v % 4) 0 (out ++ [UInt8.ofNat (left * 16 + v / 4)]) cs
            else a2bBase64 0 0 0 (out ++ [UInt8.ofNat (left * 64 + v)]) cs

def urlsafeB64decode (cs : List Char) : Except String (List UInt8) :=
  if cs.all fun c => c.toNat < 128 then a2bBase64 0 0 0 [] cs
  else .error "string argument should contain only ASCII characters"

/-! ## The round trip -/

theorem a2bBase64_first {v pads : Nat} {out : List UInt8} {cs : List Char} (h : v < 64) :
    a2bBase64 0 0 pads out (b64Char v :: cs) = a2bBase64 1 v 0 out cs := by
  simp [a2bBase64, b64Value_b64Char v h, b64Char_ne_pad v h]

theorem a2bBase64_second {v left pads : Nat} {out : List UInt8} {cs : List Char} (h : v < 64) :
    a2bBase64 1 left pads out (b64Char v :: cs) =
      a2bBase64 2 (v % 16) 0 (out ++ [UInt8.ofNat (left * 4 + v / 16)]) cs := by
  simp [a2bBase64, b64Value_b64Char v h, b64Char_ne_pad v h]

theorem a2bBase64_third {v left pads : Nat} {out : List UInt8} {cs : List Char} (h : v < 64) :
    a2bBase64 2 left pads out (b64Char v :: cs) =
      a2bBase64 3 (v % 4) 0 (out ++ [UInt8.ofNat (left * 16 + v / 4)]) cs := by
  simp [a2bBase64, b64Value_b64Char v h, b64Char_ne_pad v h]

theorem a2bBase64_fourth {v left pads : Nat} {out : List UInt8} {cs : List Char} (h : v < 64) :
    a2bBase64 3 left pads out (b64Char v :: cs) =
      a2bBase64 0 0 0 (out ++ [UInt8.ofNat (left * 64 + v)]) cs := by
  simp [a2bBase64, b64Value_b64Char v h, b64Char_ne_pad v h]

/-- The first byte of a group is rebuilt from its first two characters. -/
theorem ofNat_first (a : UInt8) (low : Nat) (h : low < 16) :
    UInt8.ofNat (a.toNat / 4 * 4 + (a.toNat % 4 * 16 + low) / 16) = a := by
  rw [show a.toNat / 4 * 4 + (a.toNat % 4 * 16 + low) / 16 = a.toNat by omega]
  exact UInt8.ofNat_toNat

/-- The second byte of a group is rebuilt from its second and third characters. -/
theorem ofNat_second (high : Nat) (b : UInt8) (low : Nat) (h : low < 4) :
    UInt8.ofNat ((high * 16 + b.toNat / 16) % 16 * 16 + (b.toNat % 16 * 4 + low) / 4) = b := by
  have hb := b.toNat_lt
  rw [show (high * 16 + b.toNat / 16) % 16 * 16 + (b.toNat % 16 * 4 + low) / 4 = b.toNat by omega]
  exact UInt8.ofNat_toNat

/-- The third byte of a group is rebuilt from its last two characters. -/
theorem ofNat_third (high : Nat) (c : UInt8) :
    UInt8.ofNat ((high * 4 + c.toNat / 64) % 4 * 64 + c.toNat % 64) = c := by
  have hc := c.toNat_lt
  rw [show (high * 4 + c.toNat / 64) % 4 * 64 + c.toNat % 64 = c.toNat by omega]
  exact UInt8.ofNat_toNat

theorem a2bBase64_skip (pads extra : Nat) (out : List UInt8) :
    a2bBase64 0 0 pads out (List.replicate extra '=') = .ok out := by
  induction extra with
  | zero => simp [a2bBase64]
  | succ extra ih => simpa [a2bBase64, List.replicate_succ] using ih

theorem a2bBase64_body (bytes out : List UInt8) (extra : Nat) :
    a2bBase64 0 0 0 out (b64Body bytes ++
      (b64Padding (b64Body bytes).length ++ List.replicate extra '=')) = .ok (out ++ bytes) := by
  fun_induction b64Body bytes generalizing out with
  | case1 =>
      rw [List.append_nil]
      exact a2bBase64_skip 0 extra out
  | case2 a =>
      have ha := a.toNat_lt
      have hfirst := ofNat_first a 0 (by omega)
      simp only [List.cons_append, List.nil_append]
      rw [a2bBase64_first (by omega), a2bBase64_second (by omega)]
      simpa [b64Padding, a2bBase64, List.replicate] using hfirst
  | case3 a b =>
      have ha := a.toNat_lt
      have hb := b.toNat_lt
      have hfirst := ofNat_first a (b.toNat / 16) (by omega)
      have hsecond := ofNat_second (a.toNat % 4) b 0 (by omega)
      simp only [List.cons_append, List.nil_append]
      rw [a2bBase64_first (by omega), a2bBase64_second (by omega), a2bBase64_third (by omega),
        hfirst]
      simpa [b64Padding, a2bBase64, List.replicate] using hsecond
  | case4 a b c rest ih =>
      have ha := a.toNat_lt
      have hb := b.toNat_lt
      have hc := c.toNat_lt
      have hpad : b64Padding (b64Body rest).length.succ.succ.succ.succ =
          b64Padding (b64Body rest).length := by
        unfold b64Padding
        congr 1
        omega
      simp only [List.cons_append, List.length_cons]
      rw [a2bBase64_first (by omega), a2bBase64_second (by omega), a2bBase64_third (by omega),
        a2bBase64_fourth (by omega), ofNat_first a _ (by omega),
        ofNat_second (a.toNat % 4) b _ (by omega), ofNat_third, hpad, ih]
      simp

theorem b64Body_mem {bytes : List UInt8} {c : Char} (h : c ∈ b64Body bytes) :
    ∃ n < 64, c = b64Char n := by
  fun_induction b64Body bytes with
  | case1 => simp at h
  | case2 a =>
      have ha := a.toNat_lt
      simp only [List.mem_cons, List.not_mem_nil, or_false] at h
      rcases h with rfl | rfl
      · exact ⟨_, by omega, rfl⟩
      · exact ⟨_, by omega, rfl⟩
  | case3 a b =>
      have ha := a.toNat_lt
      have hb := b.toNat_lt
      simp only [List.mem_cons, List.not_mem_nil, or_false] at h
      rcases h with rfl | rfl | rfl
      · exact ⟨_, by omega, rfl⟩
      · exact ⟨_, by omega, rfl⟩
      · exact ⟨_, by omega, rfl⟩
  | case4 a b c rest ih =>
      have ha := a.toNat_lt
      have hb := b.toNat_lt
      have hc := c.toNat_lt
      simp only [List.mem_cons] at h
      rcases h with rfl | rfl | rfl | rfl | h
      · exact ⟨_, by omega, rfl⟩
      · exact ⟨_, by omega, rfl⟩
      · exact ⟨_, by omega, rfl⟩
      · exact ⟨_, by omega, rfl⟩
      · exact ih h

/-- The text before padding holds no padding character, so stripping the padding of an
encoded text gives it back. -/
theorem pad_notMem_b64Body (bytes : List UInt8) : '=' ∉ b64Body bytes := by
  intro h
  obtain ⟨n, hn, hc⟩ := b64Body_mem h
  exact b64Char_ne_pad n hn hc.symm

theorem strip_urlsafeB64encode (bytes : List UInt8) :
    ((urlsafeB64encode bytes).reverse.dropWhile (· = '=')).reverse = b64Body bytes := by
  have hpad : ∀ c ∈ b64Padding (b64Body bytes).length, decide (c = '=') = true := by
    intro c hc
    exact decide_eq_true (List.eq_of_mem_replicate hc)
  have hbody : (b64Body bytes).reverse.dropWhile (· = '=') = (b64Body bytes).reverse := by
    cases hrev : (b64Body bytes).reverse with
    | nil => rfl
    | cons c cs =>
        have hmem : c ∈ b64Body bytes := by
          rw [← List.mem_reverse, hrev]
          exact List.mem_cons_self
        rw [List.dropWhile_cons, if_neg]
        intro hc
        exact pad_notMem_b64Body bytes (of_decide_eq_true hc ▸ hmem)
  rw [urlsafeB64encode, List.reverse_append, List.dropWhile_append_of_pos, hbody,
    List.reverse_reverse]
  exact fun c hc => hpad c (List.mem_reverse.1 hc)

theorem length_b64Body (bytes : List UInt8) :
    (b64Body bytes).length = (4 * bytes.length + 2) / 3 := by
  fun_induction b64Body bytes with
  | case1 => rfl
  | case2 a => simp
  | case3 a b => simp
  | case4 a b c rest ih =>
      simp only [List.length_cons, ih]
      omega

/-- An encoded text decodes to its bytes, with or without more padding. -/
theorem urlsafeB64decode_more_pads (bytes : List UInt8) (extra : Nat) :
    urlsafeB64decode (urlsafeB64encode bytes ++ List.replicate extra '=') = .ok bytes := by
  have hascii : (urlsafeB64encode bytes ++ List.replicate extra '=').all (fun c => c.toNat < 128) =
      true := by
    rw [List.all_eq_true]
    intro c hc
    rw [urlsafeB64encode, List.append_assoc] at hc
    rcases List.mem_append.1 hc with hc | hc
    · obtain ⟨n, hn, rfl⟩ := b64Body_mem hc
      exact decide_eq_true (b64Char_ascii n hn)
    · have hpad : c = '=' := by
        rcases List.mem_append.1 hc with hc | hc
        · exact List.eq_of_mem_replicate hc
        · exact List.eq_of_mem_replicate hc
      rw [hpad]
      decide
  unfold urlsafeB64decode
  rw [if_pos hascii, urlsafeB64encode, List.append_assoc, a2bBase64_body, List.nil_append]

theorem urlsafeB64_roundtrip (bytes : List UInt8) :
    urlsafeB64decode (urlsafeB64encode bytes) = .ok bytes := by
  have h := urlsafeB64decode_more_pads bytes 0
  rwa [List.replicate_zero, List.append_nil] at h

/-- A byte string that leaves one byte over: two padding characters complete its text. -/
theorem urlsafeB64decode_two_pads {bytes : List UInt8} (h : bytes.length % 3 = 1) :
    urlsafeB64decode (((urlsafeB64encode bytes).reverse.dropWhile (· = '=')).reverse ++
      ['=', '=']) = .ok bytes := by
  have hpads : b64Padding (b64Body bytes).length = ['=', '='] := by
    have hmod : (4 - (4 * bytes.length + 2) / 3 % 4) % 4 = 2 := by omega
    rw [b64Padding, length_b64Body, hmod]
    rfl
  rw [strip_urlsafeB64encode, ← hpads]
  exact urlsafeB64_roundtrip bytes

/-! ## Texts without padding -/

/-- The loop refuses the text of bytes that do not fill their last group. -/
theorem a2bBase64_unpadded (bytes out : List UInt8) :
    a2bBase64 0 0 0 out (b64Body bytes) =
      if bytes.length % 3 = 0 then .ok (out ++ bytes) else .error "Incorrect padding" := by
  fun_induction b64Body bytes generalizing out with
  | case1 => simp [a2bBase64]
  | case2 a =>
      have ha := a.toNat_lt
      rw [a2bBase64_first (by omega), a2bBase64_second (by omega)]
      simp [a2bBase64]
  | case3 a b =>
      have ha := a.toNat_lt
      have hb := b.toNat_lt
      rw [a2bBase64_first (by omega), a2bBase64_second (by omega), a2bBase64_third (by omega)]
      simp [a2bBase64]
  | case4 a b c rest ih =>
      have ha := a.toNat_lt
      have hb := b.toNat_lt
      have hc := c.toNat_lt
      have hlength : (a :: b :: c :: rest).length % 3 = rest.length % 3 := by
        simp only [List.length_cons]
        omega
      rw [a2bBase64_first (by omega), a2bBase64_second (by omega), a2bBase64_third (by omega),
        a2bBase64_fourth (by omega), ofNat_first a _ (by omega),
        ofNat_second (a.toNat % 4) b _ (by omega), ofNat_third, hlength, ih]
      simp

theorem b64Body_all_ascii (bytes : List UInt8) :
    (b64Body bytes).all (fun c => c.toNat < 128) = true := by
  rw [List.all_eq_true]
  intro c hc
  obtain ⟨n, hn, rfl⟩ := b64Body_mem hc
  exact decide_eq_true (b64Char_ascii n hn)

/-- Only bytes that fill their last group can be read without padding. -/
theorem urlsafeB64decode_unpadded (bytes : List UInt8) :
    urlsafeB64decode (b64Body bytes) =
      if bytes.length % 3 = 0 then .ok bytes else .error "Incorrect padding" := by
  rw [urlsafeB64decode, if_pos (b64Body_all_ascii bytes), a2bBase64_unpadded, List.nil_append]

/-- The bytes that a group has given after some of its characters. -/
def b64Given (quad : Nat) : Nat := 3 * quad / 4

/-- Every four characters that are not padding give three bytes at most. -/
theorem length_of_a2bBase64 {quad left pads : Nat} {out bytes : List UInt8} {cs : List Char}
    (hquad : quad < 4) (h : a2bBase64 quad left pads out cs = .ok bytes) :
    bytes.length + b64Given quad ≤ out.length + 3 * (quad + cs.countP (· ≠ '=')) / 4 := by
  unfold b64Given
  induction cs generalizing quad left pads out with
  | nil =>
      rw [a2bBase64] at h
      split at h
      · next hzero =>
          cases h
          omega
      · split at h
        · cases h
        · cases h
  | cons c cs ih =>
      rw [a2bBase64] at h
      by_cases hpad : c = '='
      · rw [if_pos hpad] at h
        rw [List.countP_cons_of_neg (by simp [hpad])]
        split at h
        · split at h
          · cases h
            omega
          · exact ih hquad h
        · exact ih hquad h
      · rw [if_neg hpad] at h
        rw [List.countP_cons_of_pos (by simp [hpad])]
        cases hvalue : b64Value c with
        | none =>
            rw [hvalue] at h
            have hle := ih hquad h
            omega
        | some v =>
            rw [hvalue] at h
            dsimp only at h
            split at h
            · have hle := ih (by decide) h
              omega
            · split at h
              · have hle := ih (by decide) h
                rw [List.length_append, List.length_singleton] at hle
                omega
              · split at h
                · have hle := ih (by decide) h
                  rw [List.length_append, List.length_singleton] at hle
                  omega
                · have hle := ih (by decide) h
                  rw [List.length_append, List.length_singleton] at hle
                  omega

theorem length_of_urlsafeB64decode {cs : List Char} {bytes : List UInt8}
    (h : urlsafeB64decode cs = .ok bytes) : 4 * bytes.length ≤ 3 * cs.countP (· ≠ '=') := by
  unfold urlsafeB64decode at h
  split at h
  · have hle := length_of_a2bBase64 (by decide) h
    rw [b64Given, List.length_nil] at hle
    omega
  · cases h

end Wcp.Base
