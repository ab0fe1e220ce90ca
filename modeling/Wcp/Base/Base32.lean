import Wcp.Base.Positional
/-!
# Base 32 and hexadecimal

The two codecs of the interpreter's library beside base64.  The base32 encoder writes
five bytes as eight characters and fills a last incomplete group up with zeros and
padding; the decoder refuses a text that is not a multiple of eight characters.  The
hexadecimal decoder skips white space between bytes.  Decoding an encoded text gives
the bytes back (`b32decode_b32encode`, `fromHex_hex`).
-/

namespace Wcp.Base

/-- Bytes as digits. -/
def octets (bytes : List UInt8) : List Nat := bytes.map UInt8.toNat

/-- Digits as bytes. -/
def ofOctets (ds : List Nat) : List UInt8 := ds.map UInt8.ofNat

theorem octets_lt (bytes : List UInt8) : ∀ d ∈ octets bytes, d < 256 := by
  intro d hd
  obtain ⟨x, -, rfl⟩ := List.mem_map.1 hd
  exact x.toNat_lt

theorem ofOctets_octets (bytes : List UInt8) : ofOctets (octets bytes) = bytes := by
  rw [ofOctets, octets, List.map_map]
  refine (List.map_congr_left fun x _ => ?_).trans (List.map_id bytes)
  exact UInt8.ofNat_toNat

/-- `n.to_bytes(width, "big")`, where the number fits. -/
def toFixedBytes (width n : Nat) : List UInt8 := ofOctets (fixedDigits 256 width n)

@[simp] theorem length_toFixedBytes (width n : Nat) : (toFixedBytes width n).length = width := by
  rw [toFixedBytes, ofOctets, List.length_map, length_fixedDigits]

/-! ## Base 32 -/

def b32Alphabet : List Char := "ABCDEFGHIJKLMNOPQRSTUVWXYZ234567".toList

/-- The character of a five-bit value. -/
def b32Char (n : Nat) : Char := b32Alphabet.getD n 'A'

/-- The five-bit value of a character. -/
def b32Value (c : Char) : Option Nat :=
  if c ∈ b32Alphabet then some (b32Alphabet.idxOf c) else none

theorem b32Value_b32Char : ∀ n < 32, b32Value (b32Char n) = some n := by decide +kernel

theorem b32Char_ne_pad : ∀ n < 32, b32Char n ≠ '=' := by decide +kernel

theorem b32Char_ascii : ∀ n < 32, (b32Char n).toNat < 128 := by decide +kernel

/-- The number of characters that carry the bits of some bytes. -/
def b32Width (bytes : Nat) : Nat := (8 * bytes + 4) / 5

/-- The characters of at most five bytes, before padding. -/
def b32Group (bytes : List UInt8) : List Char :=
  ((fixedDigits 32 8 (bigEndian 256 (octets bytes) * 256 ^ (5 - bytes.length))).take
    (b32Width bytes.length)).map b32Char

/-- The text of a byte string before padding. -/
def b32Body : List UInt8 → List Char
  | a :: b :: c :: d :: e :: rest => b32Group [a, b, c, d, e] ++ b32Body rest
  | bytes => b32Group bytes

/-- The padding that completes a text of a given length. -/
def b32Padding (length : Nat) : List Char := List.replicate ((8 - length % 8) % 8) '='

def b32encode (bytes : List UInt8) : List Char := b32Body bytes ++ b32Padding (b32Body bytes).length

/-- `s.rstrip("=")`. -/
def stripPadding (cs : List Char) : List Char := (cs.reverse.dropWhile (· = '=')).reverse

/-- The number that some characters stand for. -/
def b32Number : Nat → List Char → Option Nat
  | acc, [] => some acc
  | acc, c :: cs =>
      match b32Value c with
      | none => none
      | some v => b32Number (acc * 32 + v) cs

/-- The numbers of the groups of eight characters, the last of which may be incomplete. -/
def b32Quanta : List Char → Option (List Nat)
  | [] => some []
  | a :: b :: c :: d :: e :: f :: g :: h :: rest => do
      let acc ← b32Number 0 [a, b, c, d, e, f, g, h]
      let accs ← b32Quanta rest
      return acc :: accs
  | cs => do
      let acc ← b32Number 0 cs
      return [acc]

/-- `base64.b32decode`, with the text of its error. -/
def b32decode (cs : List Char) : Except String (List UInt8) :=
  if cs.all fun c => c.toNat < 128 then
    if cs.length % 8 ≠ 0 then .error "Incorrect padding"
    else
      let body := stripPadding cs
      let pads := cs.length - body.length
      match b32Quanta body with
      | none => .error "Non-base32 digit found"
      | some accs =>
          let decoded := accs.flatMap (toFixedBytes 5)
          if pads ∉ [0, 1, 3, 4, 6] then .error "Incorrect padding"
          else if pads ≠ 0 ∧ decoded ≠ [] then
            let last := toFixedBytes 5 (accs.getLastD 0 * 32 ^ pads)
            .ok (decoded.take (decoded.length - 5) ++ last.take ((43 - 5 * pads) / 8))
          else .ok decoded
  else .error "string argument should contain only ASCII characters"

/-! ### The round trip -/

/-- The bits of at most five bytes, in forty. -/
def b32Bits (bytes : List UInt8) : Nat := bigEndian 256 (octets bytes) * 256 ^ (5 - bytes.length)

theorem b32Number_map {ds : List Nat} (h : ∀ d ∈ ds, d < 32) (acc : Nat) :
    b32Number acc (ds.map b32Char) = some (ds.foldl (fun n d => n * 32 + d) acc) := by
  induction ds generalizing acc with
  | nil => rfl
  | cons d ds ih =>
      rw [List.map_cons, b32Number, b32Value_b32Char d (h d List.mem_cons_self)]
      exact ih (fun x hx => h x (List.mem_cons_of_mem d hx)) _

section Group

variable {bytes : List UInt8} (h : bytes.length ≤ 5)

include h

theorem toFixedBytes_b32Bits :
    toFixedBytes 5 (b32Bits bytes) = bytes ++ List.replicate (5 - bytes.length) 0 := by
  have hwidth : bytes.length + (5 - bytes.length) = 5 := by omega
  have hdigits := fixedDigits_mul_pow (b := 256) (by decide) bytes.length (5 - bytes.length)
    (bigEndian 256 (octets bytes))
  have hoctets := fixedDigits_bigEndian (octets_lt bytes)
  rw [octets, List.length_map, ← octets] at hoctets
  rw [hwidth, hoctets] at hdigits
  rw [toFixedBytes, b32Bits, hdigits, ofOctets, List.map_append, List.map_replicate, ← ofOctets,
    ofOctets_octets]
  rfl

theorem b32Bits_lt : b32Bits bytes < 32 ^ 8 := by
  have hlt := bigEndian_lt (octets_lt bytes)
  rw [octets, List.length_map, ← octets] at hlt
  calc b32Bits bytes < 256 ^ bytes.length * 256 ^ (5 - bytes.length) :=
        Nat.mul_lt_mul_of_pos_right hlt (by positivity)
    _ = 256 ^ 5 := by rw [← Nat.pow_add, Nat.add_sub_cancel' h]
    _ = 32 ^ 8 := by norm_num

theorem dvd_b32Bits : 32 ^ (8 - b32Width bytes.length) ∣ b32Bits bytes := by
  refine Dvd.dvd.mul_left ?_ _
  have hcases : ∀ n ≤ 5, 32 ^ (8 - b32Width n) ∣ 256 ^ (5 - n) := by decide
  exact hcases _ h

theorem b32Group_eq : b32Group bytes =
    (fixedDigits 32 (b32Width bytes.length)
      (b32Bits bytes / 32 ^ (8 - b32Width bytes.length))).map b32Char := by
  have hwidth : b32Width bytes.length + (8 - b32Width bytes.length) = 8 := by
    unfold b32Width
    omega
  have htake := take_fixedDigits 32 (b32Width bytes.length) (8 - b32Width bytes.length)
    (b32Bits bytes)
  rw [hwidth] at htake
  rw [b32Group, ← b32Bits, htake]

theorem length_b32Group : (b32Group bytes).length = b32Width bytes.length := by
  rw [b32Group_eq h, List.length_map, length_fixedDigits]

theorem b32Number_b32Group : ∃ acc, b32Number 0 (b32Group bytes) = some acc ∧
    acc * 32 ^ (8 - b32Width bytes.length) = b32Bits bytes := by
  have hwidth : b32Width bytes.length + (8 - b32Width bytes.length) = 8 := by
    unfold b32Width
    omega
  refine ⟨b32Bits bytes / 32 ^ (8 - b32Width bytes.length), ?_, Nat.div_mul_cancel (dvd_b32Bits h)⟩
  rw [b32Group_eq h, b32Number_map (fixedDigits_lt (by decide) _ _)]
  refine congrArg some ((bigEndian_fixedDigits 32 _ _).trans (Nat.mod_eq_of_lt ?_))
  rw [Nat.div_lt_iff_lt_mul (by positivity), ← Nat.pow_add, hwidth]
  exact b32Bits_lt h

end Group

theorem b32Group_mem {bytes : List UInt8} {c : Char} (hc : c ∈ b32Group bytes) :
    ∃ n < 32, c = b32Char n := by
  obtain ⟨d, hd, rfl⟩ := List.mem_map.1 hc
  exact ⟨d, fixedDigits_lt (by decide) _ _ d (List.mem_of_mem_take hd), rfl⟩

theorem b32Body_mem {bytes : List UInt8} {c : Char} (hc : c ∈ b32Body bytes) :
    ∃ n < 32, c = b32Char n := by
  fun_induction b32Body bytes with
  | case1 a b c d e rest ih =>
      rcases List.mem_append.1 hc with hc | hc
      · exact b32Group_mem hc
      · exact ih hc
  | case2 bytes => exact b32Group_mem hc

theorem b32Quanta_append {group : List Char} (h : group.length = 8) (rest : List Char) :
    b32Quanta (group ++ rest) = (do
      let acc ← b32Number 0 group
      let accs ← b32Quanta rest
      return acc :: accs) := by
  match group, h with
  | [a, b, c, d, e, f, g, h], _ => rfl

theorem b32Quanta_short {cs : List Char} (hne : cs ≠ []) (h : cs.length < 8) :
    b32Quanta cs = (b32Number 0 cs).map fun acc => [acc] := by
  unfold b32Quanta
  split
  · exact absurd rfl hne
  · simp only [List.length_cons] at h
    omega
  · cases b32Number 0 cs <;> rfl

/-- The groups of a text are those of its bytes: the full ones, and what is left over. -/
theorem b32Quanta_b32Body (bytes : List UInt8) : ∃ full last accs, bytes = full ++ last ∧
    last.length < 5 ∧ (b32Body bytes).length = 8 * accs.length + b32Width last.length ∧
    accs.flatMap (toFixedBytes 5) = full ∧
    b32Quanta (b32Body bytes) =
      if last = [] then some accs
      else (b32Number 0 (b32Group last)).map fun acc => accs ++ [acc] := by
  fun_induction b32Body bytes with
  | case1 a b c d e rest ih =>
      obtain ⟨full, last, accs, rfl, hlast, hlength, hfull, hquanta⟩ := ih
      have hfive : [a, b, c, d, e].length ≤ 5 := Nat.le_refl 5
      obtain ⟨acc, hacc, hbits⟩ := b32Number_b32Group hfive
      have hbytes := toFixedBytes_b32Bits hfive
      rw [← hbits] at hbytes
      have hgroup : (b32Group [a, b, c, d, e]).length = 8 := by
        rw [length_b32Group hfive]
        simp [b32Width]
      refine ⟨[a, b, c, d, e] ++ full, last, acc :: accs, rfl, hlast, ?_, ?_, ?_⟩
      · rw [List.length_append, hgroup, hlength, List.length_cons]
        omega
      · rw [List.flatMap_cons, hfull]
        exact congrArg (· ++ full) (by simpa [b32Width] using hbytes)
      · rw [b32Quanta_append hgroup, hacc, hquanta]
        split
        · rfl
        · cases b32Number 0 (b32Group last) <;> rfl
  | case2 bytes hshort =>
      have hlast : bytes.length < 5 := by
        rcases bytes with _ | ⟨a, _ | ⟨b, _ | ⟨c, _ | ⟨d, _ | ⟨e, rest⟩⟩⟩⟩⟩
        · simp
        · simp
        · simp
        · simp
        · simp
        · exact absurd rfl (hshort a b c d e rest)
      have hlength : (b32Group bytes).length = b32Width bytes.length :=
        length_b32Group (by omega)
      refine ⟨[], bytes, [], rfl, hlast, by simpa using hlength, rfl, ?_⟩
      by_cases hnil : bytes = []
      · rw [if_pos hnil, hnil]
        rfl
      · have hpos := List.length_pos_iff.2 hnil
        rw [if_neg hnil, b32Quanta_short]
        · rfl
        · rw [← List.length_pos_iff, hlength, b32Width]
          omega
        · rw [hlength, b32Width]
          omega

theorem stripPadding_append {body : List Char} (h : '=' ∉ body) (pads : Nat) :
    stripPadding (body ++ List.replicate pads '=') = body := by
  have hbody : body.reverse.dropWhile (· = '=') = body.reverse := by
    cases hrev : body.reverse with
    | nil => rfl
    | cons c cs =>
        rw [List.dropWhile_cons_of_neg]
        intro hc
        refine h (List.mem_reverse.1 ?_)
        rw [hrev, ← of_decide_eq_true hc]
        exact List.mem_cons_self
  rw [stripPadding, List.reverse_append, List.reverse_replicate, List.dropWhile_append_of_pos,
    hbody, List.reverse_reverse]
  intro c hc
  exact decide_eq_true (List.eq_of_mem_replicate hc)

theorem pad_notMem_b32Body (bytes : List UInt8) : '=' ∉ b32Body bytes := by
  intro h
  obtain ⟨n, hn, hc⟩ := b32Body_mem h
  exact b32Char_ne_pad n hn hc.symm

theorem b32decode_b32encode (bytes : List UInt8) : b32decode (b32encode bytes) = .ok bytes := by
  obtain ⟨full, last, accs, hsplit, hlast, hlength, hfull, hquanta⟩ := b32Quanta_b32Body bytes
  have hascii : (b32encode bytes).all (fun c => c.toNat < 128) = true := by
    rw [List.all_eq_true]
    intro c hc
    rcases List.mem_append.1 hc with hc | hc
    · obtain ⟨n, hn, rfl⟩ := b32Body_mem hc
      exact decide_eq_true (b32Char_ascii n hn)
    · rw [List.eq_of_mem_replicate hc]
      decide
  have hstrip : stripPadding (b32encode bytes) = b32Body bytes :=
    stripPadding_append (pad_notMem_b32Body bytes) _
  have htotal : (b32encode bytes).length % 8 = 0 := by
    rw [b32encode, b32Padding, List.length_append, List.length_replicate]
    omega
  have hpads : (b32encode bytes).length - (b32Body bytes).length =
      (8 - b32Width last.length % 8) % 8 := by
    rw [b32encode, b32Padding, List.length_append, List.length_replicate, hlength]
    omega
  rw [b32decode, if_pos hascii, if_neg (not_not.2 htotal)]
  simp only [hstrip, hpads, hquanta]
  by_cases hnil : last = []
  · subst hnil
    rw [if_pos rfl]
    simp [b32Width, hfull, hsplit]
  · obtain ⟨acc, hacc, hbits⟩ := b32Number_b32Group hlast.le
    have hbytes := toFixedBytes_b32Bits hlast.le
    rw [← hbits] at hbytes
    have hpos := List.length_pos_iff.2 hnil
    -- one to four bytes are left over
    have hcases : ∀ n < 5, 0 < n → (8 - b32Width n % 8) % 8 = 8 - b32Width n ∧
        8 - b32Width n ∈ [0, 1, 3, 4, 6] ∧ 8 - b32Width n ≠ 0 ∧
        (43 - 5 * (8 - b32Width n)) / 8 = n := by decide
    obtain ⟨hmod, hallowed, hsome, hleft⟩ := hcases last.length hlast hpos
    rw [if_neg hnil, hacc, hmod, Option.map_some]
    dsimp only
    rw [if_neg (not_not.2 hallowed), if_pos ⟨hsome, by simp [hfull, ← List.length_pos_iff]⟩, hleft,
      List.getLastD_concat, hbytes, List.take_left]
    simp [hfull, hsplit]

theorem length_flatMap_toFixedBytes (accs : List Nat) :
    (accs.flatMap (toFixedBytes 5)).length = 5 * accs.length := by
  induction accs with
  | nil => rfl
  | cons acc accs ih =>
      rw [List.flatMap_cons, List.length_append, length_toFixedBytes, ih, List.length_cons]
      omega

theorem length_b32Quanta {cs : List Char} {accs : List Nat} (h : b32Quanta cs = some accs) :
    8 * accs.length ≤ cs.length + 7 := by
  fun_induction b32Quanta cs generalizing accs with
  | case1 =>
      cases h
      simp
  | case2 a b c d e f g h' rest ih =>
      obtain ⟨acc, -, haccs⟩ := Option.bind_eq_some_iff.1 h
      obtain ⟨accs', hrest, hcons⟩ := Option.bind_eq_some_iff.1 haccs
      cases hcons
      have hle := ih hrest
      simp only [List.length_cons]
      omega
  | case3 cs hne hshort =>
      obtain ⟨acc, -, hone⟩ := Option.bind_eq_some_iff.1 h
      cases hone
      have hpos := List.length_pos_iff.2 fun hnil => hne hnil
      simp only [List.length_singleton]
      omega

/-- A text decodes to at most five bytes for eight of its characters. -/
theorem length_of_b32decode {cs : List Char} {bytes : List UInt8} (h : b32decode cs = .ok bytes) :
    8 * bytes.length ≤ 5 * cs.length := by
  unfold b32decode at h
  split at h
  · split at h
    · cases h
    next hmod =>
    dsimp only at h
    split at h
    · cases h
    next accs hquanta =>
    have hle : (stripPadding cs).length ≤ cs.length := by
      rw [stripPadding, List.length_reverse, ← @List.length_reverse _ cs]
      exact (List.dropWhile_sublist _).length_le
    have hgroups := length_b32Quanta hquanta
    have htotal := length_flatMap_toFixedBytes accs
    split at h
    · cases h
    next hpads =>
    split at h
    · next hpartial =>
        cases h
        have hmany : accs.length ≤ cs.length / 8 := by omega
        have hsome := List.length_pos_iff.2 hpartial.2
        rw [htotal] at hsome
        simp only [List.length_append, List.length_take, length_toFixedBytes, htotal]
        omega
    · cases h
      rw [htotal]
      omega
  · cases h

/-! ## Hexadecimal -/

/-- The digit of a four-bit value. -/
def nibbleChar (n : Nat) : Char := "0123456789abcdef".toList.getD n '0'

/-- The four-bit value of a digit of either case. -/
def nibbleValue (c : Char) : Option Nat :=
  if '0' ≤ c ∧ c ≤ '9' then some (c.toNat - 48)
  else if 'a' ≤ c ∧ c ≤ 'f' then some (c.toNat - 87)
  else if 'A' ≤ c ∧ c ≤ 'F' then some (c.toNat - 55)
  else none

/-- White space between the bytes of a text. -/
def hexSpace (c : Char) : Bool := c = ' ' || (9 ≤ c.toNat && c.toNat ≤ 13)

theorem nibbleValue_nibbleChar : ∀ n < 16, nibbleValue (nibbleChar n) = some n := by decide

theorem hexSpace_nibbleChar : ∀ n < 16, hexSpace (nibbleChar n) = false := by decide

theorem nibbleChar_ascii : ∀ n < 16, (nibbleChar n).toNat < 128 := by decide

def hex (bytes : List UInt8) : List Char :=
  bytes.flatMap fun x => [nibbleChar (x.toNat / 16), nibbleChar (x.toNat % 16)]

/-- The loop of `bytes.fromhex`, with the place of a character that is no digit. -/
def fromHexAt : Nat → List Char → Except Nat (List UInt8)
  | _, [] => .ok []
  | i, [c] => if hexSpace c then .ok [] else .error (if (nibbleValue c).isSome then i + 1 else i)
  | i, c :: d :: cs =>
      if hexSpace c then fromHexAt (i + 1) (d :: cs)
      else
        match nibbleValue c, nibbleValue d with
        | none, _ => .error i
        | some _, none => .error (i + 1)
        | some high, some low => (fromHexAt (i + 2) cs).map (UInt8.ofNat (high * 16 + low) :: ·)

/-- `bytes.fromhex`, with the place of the character it refuses. -/
def fromHex (cs : List Char) : Except Nat (List UInt8) :=
  match cs.findIdx? fun c => 128 ≤ c.toNat with
  | some i => .error i
  | none => fromHexAt 0 cs

theorem fromHexAt_hex (bytes : List UInt8) (i : Nat) : fromHexAt i (hex bytes) = .ok bytes := by
  induction bytes generalizing i with
  | nil => rfl
  | cons x bytes ih =>
      have hx := x.toNat_lt
      have hbyte : UInt8.ofNat (x.toNat / 16 * 16 + x.toNat % 16) = x := by
        rw [Nat.div_add_mod']
        exact UInt8.ofNat_toNat
      have hcons : hex (x :: bytes) =
          nibbleChar (x.toNat / 16) :: nibbleChar (x.toNat % 16) :: hex bytes := rfl
      rw [hcons, fromHexAt, hexSpace_nibbleChar _ (by omega), nibbleValue_nibbleChar _ (by omega),
        nibbleValue_nibbleChar _ (by omega), ih]
      exact congrArg (fun y => Except.ok (y :: bytes)) hbyte

theorem hex_mem {bytes : List UInt8} {c : Char} (hc : c ∈ hex bytes) :
    ∃ n < 16, c = nibbleChar n := by
  obtain ⟨x, -, hc⟩ := List.mem_flatMap.1 hc
  have hx := x.toNat_lt
  simp only [List.mem_cons, List.not_mem_nil, or_false] at hc
  rcases hc with rfl | rfl
  · exact ⟨_, by omega, rfl⟩
  · exact ⟨_, by omega, rfl⟩

theorem fromHex_hex (bytes : List UInt8) : fromHex (hex bytes) = .ok bytes := by
  have hascii : (hex bytes).findIdx? (fun c => 128 ≤ c.toNat) = none := by
    rw [List.findIdx?_eq_none_iff]
    intro c hc
    obtain ⟨n, hn, rfl⟩ := hex_mem hc
    have := nibbleChar_ascii n hn
    simpa using this
  rw [fromHex, hascii]
  exact fromHexAt_hex bytes 0

theorem length_of_fromHex {cs : List Char} {bytes : List UInt8} (h : fromHex cs = .ok bytes) :
    2 * bytes.length ≤ cs.length := by
  have hloop : ∀ i, fromHexAt i cs = .ok bytes → 2 * bytes.length ≤ cs.length := by
    clear h
    intro i h
    fun_induction fromHexAt i cs generalizing bytes with
    | case1 =>
        cases h
        exact Nat.le_refl 0
    | case2 =>
        cases h
        simp
    | case3 => cases h
    | case4 i c d cs hspace ih =>
        have hle := ih h
        simp only [List.length_cons] at hle ⊢
        omega
    | case5 => cases h
    | case6 => cases h
    | case7 i c d cs hspace high hc low hd ih =>
        cases hrest : fromHexAt (i + 2) cs with
        | error e =>
            rw [hrest] at h
            cases h
        | ok rest =>
            rw [hrest] at h
            cases h
            have hle := ih hrest
            simp only [List.length_cons]
            omega
  unfold fromHex at h
  split at h
  · cases h
  · exact hloop 0 h

end Wcp.Base
