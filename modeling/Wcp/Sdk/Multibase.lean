import Wcp.Base.Base32
import Wcp.Base.LongDivision
import Wcp.Sdk.Identity
/-!
# Multibase identifiers

The preview identifiers carry a prefix that names the encoding of the key: base58,
base64, base32 or hexadecimal.  Every encoding is undone by the decoder, and the
canonical form of an identifier depends on its key alone (`multibase_round_trips`).

Identifiers of the older kind have no prefix.  One whose base58 text happens to begin
with the letter of a prefix is read in the wrong encoding; which keys these are is a
matter of their leading base58 digit (`decode_legacy_iff`).
-/

namespace Wcp.Sdk

open Wcp.Base

/-- The case mapping of the interpreter, of which only the part on ASCII is fixed here. -/
structure CaseTable where
  /-- `s.upper()`. -/
  upper : List Char → List Char
  upper_ascii : ∀ cs, (∀ c ∈ cs, c.toNat < 128) → upper cs = cs.map Char.toUpper

namespace Multibase

def b58btcEncode (data : List UInt8) : List Char :=
  if data = [] then []
  else List.replicate (data.takeWhile (· = 0)).length '1' ++
    Coordinator.b58digits (Coordinator.fromBytes data) []

def b58btcDecode (s : List Char) : Except Char (List UInt8) :=
  if s = [] then .ok []
  else
    match Coordinator.b58value 0 s with
    | .error c => .error c
    | .ok n => .ok (List.replicate (s.takeWhile (· = '1')).length 0 ++ Coordinator.toBytes n)

def encodings : List String := ["base58btc", "base64url", "base32", "hex"]

variable {ε : Type} (cases : CaseTable) (repr : Json → String)

def encode (pubkeyBytes : List UInt8) (encoding : String) : Except (PyErr ε) String :=
  if encoding = "base58btc" then
    .ok ("did:wcp:z" ++ String.ofList (b58btcEncode pubkeyBytes))
  else if encoding = "base64url" then
    .ok ("did:wcp:u" ++ String.ofList (stripPadding (urlsafeB64encode pubkeyBytes)))
  else if encoding = "base32" then
    .ok ("did:wcp:b" ++
      String.ofList ((stripPadding (b32encode pubkeyBytes)).map Char.toLower))
  else if encoding = "hex" then
    .ok ("did:wcp:f" ++ String.ofList (hex pubkeyBytes))
  else
    .error (.valueError ("unsupported encoding " ++ repr (.str encoding) ++
      "; supported: base58btc, base64url, base32, hex"))

def decodeBase58 (s : List Char) : Except (PyErr ε) (List UInt8) :=
  match b58btcDecode s with
  | .error c =>
      .error (.valueError ("invalid base58btc character: " ++ repr (.str (String.singleton c))))
  | .ok b => .ok b

def decode (identifier : String) : Except (PyErr ε) (List UInt8) :=
  if "did:wcp:".toList.isPrefixOf identifier.toList = false then
    .error (.valueError ("not a did:wcp identifier: " ++ repr (.str identifier)))
  else
    match identifier.toList.drop "did:wcp:".length with
    | [] => .error (.valueError "empty did:wcp identifier body")
    | c :: payload =>
        if c = 'z' then decodeBase58 repr payload
        else if c = 'u' then
          match urlsafeB64decode (payload ++ b64Padding payload.length) with
          | .error message => .error (.valueError message)
          | .ok b => .ok b
        else if c = 'b' then
          let up := cases.upper payload
          match b32decode (up ++ b32Padding up.length) with
          | .error message => .error (.valueError message)
          | .ok b => .ok b
        else if c = 'f' then
          match fromHex payload with
          | .error i => .error (.valueError
              ("non-hexadecimal number found in fromhex() arg at position " ++ Nat.repr i))
          | .ok b => .ok b
        else decodeBase58 repr (c :: payload)

def canonicalize (identifier : String) : Except (PyErr ε) String := do
  let raw ← decode cases repr identifier
  return "did:wcp:z" ++ String.ofList (b58btcEncode raw)

/-! ## The two base58 texts -/

theorem b58btcEncode_eq (data : List UInt8) : b58btcEncode data = Coordinator.b58encode data := by
  unfold b58btcEncode
  split
  · next hnil =>
      rw [hnil, Coordinator.b58encode, Coordinator.b58digits]
      rfl
  · rfl

theorem b58btcDecode_eq (s : List Char) : b58btcDecode s = Coordinator.b58decode s := by
  unfold b58btcDecode
  split
  · next hnil =>
      rw [hnil]
      rfl
  · rfl

theorem decodeBase58_eq_ok_iff {s : List Char} {b : List UInt8} :
    (decodeBase58 repr s : Except (PyErr ε) _) = .ok b ↔ Coordinator.b58decode s = .ok b := by
  unfold decodeBase58
  rw [b58btcDecode_eq]
  cases Coordinator.b58decode s with
  | error c => simp
  | ok b' => simp

/-! ## What an identifier decodes to -/

section Decode

variable {cases repr} {s : String} {c : Char} {payload : List Char}

theorem decode_of_toList (h : s.toList = "did:wcp:".toList ++ c :: payload) :
    (decode cases repr s : Except (PyErr ε) _) =
      if c = 'z' then decodeBase58 repr payload
      else if c = 'u' then
        match urlsafeB64decode (payload ++ b64Padding payload.length) with
        | .error message => .error (.valueError message)
        | .ok b => .ok b
      else if c = 'b' then
        match b32decode (cases.upper payload ++ b32Padding (cases.upper payload).length) with
        | .error message => .error (.valueError message)
        | .ok b => .ok b
      else if c = 'f' then
        match fromHex payload with
        | .error i => .error (.valueError
            ("non-hexadecimal number found in fromhex() arg at position " ++ Nat.repr i))
        | .ok b => .ok b
      else decodeBase58 repr (c :: payload) := by
  have hpre : "did:wcp:".toList.isPrefixOf s.toList = true := by
    rw [h, List.isPrefixOf_iff_prefix]
    exact List.prefix_append _ _
  have hbody : s.toList.drop "did:wcp:".length = c :: payload := by
    rw [h]
    exact List.drop_left' rfl
  rw [decode, if_neg (by rw [hpre]; exact Bool.true_eq_false.mp), hbody]

end Decode

/-! ## Round trips -/

theorem toList_prefixed {letters : String} (letter : Char)
    (h : letters.toList = "did:wcp:".toList ++ [letter]) (cs : List Char) :
    (letters ++ String.ofList cs).toList = "did:wcp:".toList ++ letter :: cs := by
  rw [String.toList_append, String.toList_ofList, h, List.append_assoc]
  rfl

theorem lower_b32Char : ∀ n < 32, (b32Char n).toLower.toNat < 128 ∧
    (b32Char n).toLower.toUpper = b32Char n := by decide +kernel

theorem upper_lower_b32Body (cases : CaseTable) (b : List UInt8) :
    cases.upper ((b32Body b).map Char.toLower) = b32Body b := by
  have hletters : ∀ c ∈ b32Body b, c.toLower.toNat < 128 ∧ c.toLower.toUpper = c := by
    intro c hc
    obtain ⟨n, hn, rfl⟩ := b32Body_mem hc
    exact lower_b32Char n hn
  rw [cases.upper_ascii, List.map_map]
  · exact (List.map_congr_left fun c hc => (hletters c hc).2).trans (List.map_id _)
  · intro c hc
    obtain ⟨x, hx, rfl⟩ := List.mem_map.1 hc
    exact (hletters x hx).1

section RoundTrip

variable (b : List UInt8)

theorem decode_base58 : (decode cases repr ("did:wcp:z" ++ String.ofList (b58btcEncode b)) :
    Except (PyErr ε) _) = .ok b := by
  rw [decode_of_toList (toList_prefixed 'z' rfl _), if_pos rfl, decodeBase58_eq_ok_iff,
    b58btcEncode_eq]
  exact Coordinator.b58decode_b58encode b

theorem decode_base64 : (decode cases repr ("did:wcp:u" ++
    String.ofList (stripPadding (urlsafeB64encode b))) : Except (PyErr ε) _) = .ok b := by
  have hstrip : stripPadding (urlsafeB64encode b) = b64Body b := strip_urlsafeB64encode b
  have hpadded : urlsafeB64decode (b64Body b ++ b64Padding (b64Body b).length) = .ok b :=
    urlsafeB64_roundtrip b
  rw [decode_of_toList (toList_prefixed 'u' rfl _), if_neg (by decide), if_pos rfl, hstrip, hpadded]

theorem decode_base32 : (decode cases repr ("did:wcp:b" ++
    String.ofList ((stripPadding (b32encode b)).map Char.toLower)) : Except (PyErr ε) _) =
      .ok b := by
  have hstrip : stripPadding (b32encode b) = b32Body b :=
    stripPadding_append (pad_notMem_b32Body b) _
  have hpadded : b32decode (b32Body b ++ b32Padding (b32Body b).length) = .ok b :=
    b32decode_b32encode b
  rw [decode_of_toList (toList_prefixed 'b' rfl _), if_neg (by decide), if_neg (by decide),
    if_pos rfl,
    hstrip, upper_lower_b32Body, hpadded]

theorem decode_hex : (decode cases repr ("did:wcp:f" ++ String.ofList (hex b)) :
    Except (PyErr ε) _) = .ok b := by
  rw [decode_of_toList (toList_prefixed 'f' rfl _), if_neg (by decide), if_neg (by decide),
    if_neg (by decide), if_pos rfl, fromHex_hex]

theorem decode_encode {encoding : String} (h : encoding ∈ encodings) :
    ∃ s, (encode repr b encoding : Except (PyErr ε) _) = .ok s ∧
      (decode cases repr s : Except (PyErr ε) _) = .ok b := by
  simp only [encodings, List.mem_cons, List.not_mem_nil, or_false] at h
  rcases h with rfl | rfl | rfl | rfl
  · exact ⟨_, rfl, decode_base58 cases repr b⟩
  · exact ⟨_, rfl, decode_base64 cases repr b⟩
  · exact ⟨_, rfl, decode_base32 cases repr b⟩
  · exact ⟨_, rfl, decode_hex cases repr b⟩

end RoundTrip

theorem canonicalize_eq_ok_iff {s t : String} :
    (canonicalize cases repr s : Except (PyErr ε) _) = .ok t ↔
      ∃ b, (decode cases repr s : Except (PyErr ε) _) = .ok b ∧
        "did:wcp:z" ++ String.ofList (b58btcEncode b) = t := by
  rw [canonicalize, bind_eq_ok]
  refine exists_congr fun b => and_congr_right fun _ => ?_
  constructor
  · exact Except.ok.inj
  · rintro rfl
    rfl

theorem canonical_inj {b b' : List UInt8} (h : "did:wcp:z" ++ String.ofList (b58btcEncode b) =
    "did:wcp:z" ++ String.ofList (b58btcEncode b')) (cases : CaseTable) (repr : Json → String) :
    b = b' := by
  have hb := @decode_base58 Unit cases repr b
  rw [h, decode_base58 cases repr b'] at hb
  exact (Except.ok.inj hb).symm

/-- Multibase identifiers keep the key in every encoding, and their canonical form depends on
the key alone. -/
theorem multibase_round_trips (ε : Type) (cases : CaseTable) (repr : Json → String) :
    (∀ b, ∀ encoding ∈ encodings, ∃ s z,
      (encode repr b encoding : Except (PyErr ε) String) = .ok s ∧
      (encode repr b "base58btc" : Except (PyErr ε) String) = .ok z ∧
      (decode cases repr s : Except (PyErr ε) (List UInt8)) = .ok b ∧
      (canonicalize cases repr s : Except (PyErr ε) String) = .ok z) ∧
    (∀ s z, (canonicalize cases repr s : Except (PyErr ε) String) = .ok z →
      (canonicalize cases repr z : Except (PyErr ε) String) = .ok z) ∧
    (∀ b b', ∀ encoding ∈ encodings, ∀ encoding' ∈ encodings, ∀ s s',
      (encode repr b encoding : Except (PyErr ε) String) = .ok s →
      (encode repr b' encoding' : Except (PyErr ε) String) = .ok s' →
      (canonicalize cases repr s : Except (PyErr ε) String) = canonicalize cases repr s' →
      b = b') := by
  refine ⟨?_, ?_, ?_⟩
  · intro b encoding h
    obtain ⟨s, hs, hdecode⟩ := @decode_encode ε cases repr b encoding h
    exact ⟨s, _, hs, rfl, hdecode, (canonicalize_eq_ok_iff cases repr).2 ⟨b, hdecode, rfl⟩⟩
  · intro s z h
    obtain ⟨b, -, rfl⟩ := (canonicalize_eq_ok_iff cases repr).1 h
    exact (canonicalize_eq_ok_iff cases repr).2 ⟨b, decode_base58 cases repr b, rfl⟩
  · intro b b' encoding h encoding' h' s s' hs hs' hsame
    obtain ⟨t, ht, hdecode⟩ := @decode_encode ε cases repr b encoding h
    obtain ⟨t', ht', hdecode'⟩ := @decode_encode ε cases repr b' encoding' h'
    obtain rfl := Except.ok.inj (ht.symm.trans hs)
    obtain rfl := Except.ok.inj (ht'.symm.trans hs')
    have hcanonical := (canonicalize_eq_ok_iff cases repr).2 ⟨b, hdecode, rfl⟩
    rw [hsame, (canonicalize_eq_ok_iff cases repr).2 ⟨b', hdecode', rfl⟩] at hcanonical
    exact canonical_inj (Except.ok.inj hcanonical).symm cases repr

/-- A case mapping that leaves what is not ASCII alone. -/
def asciiCases : CaseTable := ⟨fun cs => cs.map Char.toUpper, fun _ _ => rfl⟩

/-- Three bytes in base32, and two keys whose canonical forms differ. -/
theorem multibase_round_trips_base32 :
    (∃ s z, (encode (fun _ => "") [0, 1, 255] "base32" : Except (PyErr Unit) String) = .ok s ∧
      (encode (fun _ => "") [0, 1, 255] "base58btc" : Except (PyErr Unit) String) = .ok z ∧
      (decode asciiCases (fun _ => "") s : Except (PyErr Unit) _) = .ok [0, 1, 255] ∧
      (canonicalize asciiCases (fun _ => "") s : Except (PyErr Unit) String) = .ok z ∧
      (canonicalize asciiCases (fun _ => "") z : Except (PyErr Unit) String) = .ok z) ∧
    ∃ s s', (encode (fun _ => "") [7] "hex" : Except (PyErr Unit) String) = .ok s ∧
      (encode (fun _ => "") [8] "base32" : Except (PyErr Unit) String) = .ok s' ∧
      (canonicalize asciiCases (fun _ => "") s : Except (PyErr Unit) String) ≠
        canonicalize asciiCases (fun _ => "") s' := by
  obtain ⟨hround, hcanonical, hinj⟩ := multibase_round_trips Unit asciiCases fun _ => ""
  obtain ⟨s, z, hs, hz, hdecode, hcanon⟩ := hround [0, 1, 255] "base32" (by decide)
  obtain ⟨t, -, ht, -⟩ := hround [7] "hex" (by decide)
  obtain ⟨t', -, ht', -⟩ := hround [8] "base32" (by decide)
  refine ⟨⟨s, z, hs, hz, hdecode, hcanon, hcanonical s z hcanon⟩, t, t', ht, ht', fun hsame => ?_⟩
  have hkeys := hinj [7] [8] "hex" (by decide) "base32" (by decide) t t' ht ht' hsame
  exact absurd hkeys (by decide)

/-! ## Identifiers without a prefix -/

section Legacy

variable {k : List UInt8}

/-- The base58 digits of a key, the first of which stands for most of its value. -/
theorem exists_b58encode_cons (hk : k ≠ []) : ∃ c payload, Coordinator.b58encode k = c :: payload ∧
    (∀ x ∈ payload, x ∈ Coordinator.b58) ∧ c ∈ Coordinator.b58 ∧
    Coordinator.b58.idxOf c * 58 ^ payload.length ≤ Coordinator.fromBytes k ∧
    Coordinator.fromBytes k < (Coordinator.b58.idxOf c + 1) * 58 ^ payload.length ∧
    (Coordinator.b58.idxOf c = 0 ↔ k.head? = some 0) := by
  have hmem := Coordinator.b58encode_mem k
  have hdigits : (Coordinator.b58encode k).map Coordinator.b58.idxOf =
      numeral 58 (leadingZeros (k.map UInt8.toNat)) (bigEndian 256 (k.map UInt8.toNat)) := by
    rw [Coordinator.b58encode_eq,
      Coordinator.map_idxOf_getD (Coordinator.numeral_lt (by decide) _ _)]
  have hdecode := Coordinator.b58decode_b58encode k
  cases htext : Coordinator.b58encode k with
  | nil =>
      rw [htext] at hdecode
      exact absurd (Except.ok.inj hdecode).symm hk
  | cons c payload =>
      rw [htext] at hmem hdigits
      rw [List.forall_mem_cons] at hmem
      have hvalue := congrArg (bigEndian 58) hdigits
      rw [bigEndian_numeral, ← Coordinator.fromBytes_eq, List.map_cons, bigEndian_cons,
        List.length_map] at hvalue
      have hrest := @bigEndian_lt 58 (payload.map Coordinator.b58.idxOf) fun d hd => by
        obtain ⟨x, hx, rfl⟩ := List.mem_map.1 hd
        exact List.idxOf_lt_length_of_mem (hmem.2 x hx)
      rw [List.length_map] at hrest
      have hzeros := congrArg leadingZeros hdigits
      rw [leadingZeros_numeral] at hzeros
      refine ⟨c, payload, rfl, hmem.2, hmem.1, by omega, by rw [Nat.succ_mul]; omega, ?_⟩
      have hiff := (leadingZeros_eq_zero_iff _).symm.trans
        ((Eq.congr hzeros rfl).trans (leadingZeros_eq_zero_iff (k.map UInt8.toNat)))
      rw [List.map_cons, List.head?_cons, List.head?_map, not_iff_not, Option.some.injEq] at hiff
      rw [hiff]
      cases k.head? with
      | none => simp
      | some x => simp [← UInt8.toNat_inj]

theorem fromBytes_lt (k : List UInt8) : Coordinator.fromBytes k < 256 ^ k.length := by
  rw [Coordinator.fromBytes_eq, ← List.length_map UInt8.toNat]
  exact bigEndian_lt (octets_lt k)

theorem head_eq_zero_iff (hk : k.length = 32) :
    k.head? = some 0 ↔ Coordinator.fromBytes k < 256 ^ 31 := by
  cases k with
  | nil => cases hk
  | cons x xs =>
      have hxs : xs.length = 31 := Nat.succ.inj hk
      have hrest := fromBytes_lt xs
      rw [hxs] at hrest
      have hvalue : Coordinator.fromBytes (x :: xs) =
          x.toNat * 256 ^ 31 + Coordinator.fromBytes xs := by
        rw [Coordinator.fromBytes_eq, Coordinator.fromBytes_eq, List.map_cons, bigEndian_cons,
          List.length_map, hxs]
      rw [hvalue, List.head?_cons, Option.some.injEq, ← UInt8.toNat_inj]
      constructor
      · intro hzero
        rw [hzero]
        simpa using hrest
      · intro hlt
        by_contra hne
        have hone : 1 ≤ x.toNat := Nat.one_le_iff_ne_zero.2 hne
        have := Nat.mul_le_mul_right (256 ^ 31) hone
        omega

def knownPrefixes : List Char := ['z', 'u', 'b', 'f']

/-- Their digits in base58. -/
def prefixDigits : List Nat := [57, 52, 34, 38]

theorem forall_b58 {P : Char → Prop} [DecidablePred P]
    (hcheck : (Coordinator.b58.all fun c => decide (P c)) = true) : ∀ c ∈ Coordinator.b58, P c :=
  fun c hc => of_decide_eq_true (List.all_eq_true.1 hcheck c hc)

theorem mem_knownPrefixes_iff : ∀ c ∈ Coordinator.b58,
    c ∈ knownPrefixes ↔ Coordinator.b58.idxOf c ∈ prefixDigits := forall_b58 (by decide +kernel)

/-- A leading digit of a number of 256 bits is one of a prefix only at the forty-third place. -/
theorem leading_digit_iff {n v places : Nat} (hv : v < 58) (hlow : v * 58 ^ places ≤ n)
    (hhigh : n < (v + 1) * 58 ^ places) (hlt : n < 256 ^ 32) (hzero : v = 0 ↔ n < 256 ^ 31) :
    (v ∈ prefixDigits ↔ n / 58 ^ 42 ∈ prefixDigits) ∧ (v ∈ prefixDigits → places = 42) := by
  have hrange : ∀ d ∈ prefixDigits, 34 ≤ d ∧ d < 58 := by decide
  have hout : ∀ {d : Nat}, d < 34 ∨ 58 ≤ d → d ∉ prefixDigits := by
    intro d hd hmem
    have := hrange d hmem
    omega
  by_cases hv0 : v = 0
  · have hsmall : n / 58 ^ 42 < 4 := by
      refine Nat.div_lt_of_lt_mul ((hzero.1 hv0).trans_le ?_)
      norm_num
    have hnot := hout (d := v) (.inl (by omega))
    exact ⟨iff_of_false hnot (hout (.inl (by omega))), fun h => absurd h hnot⟩
  · have hlarge : 256 ^ 31 ≤ n := Nat.le_of_not_lt fun h => hv0 (hzero.2 h)
    rcases Nat.lt_trichotomy places 42 with hfew | rfl | hmany
    · -- too few digits for a key without a leading zero
      have hpow : 58 ^ places ≤ 58 ^ 41 := Nat.pow_le_pow_right (by decide) (by omega)
      have hbound : (v + 1) * 58 ^ places ≤ 58 * 58 ^ 41 := Nat.mul_le_mul hv hpow
      norm_num at hbound hlarge
      omega
    · have hdiv : n / 58 ^ 42 = v := Nat.div_eq_of_lt_le hlow hhigh
      rw [hdiv]
      exact ⟨Iff.rfl, fun _ => rfl⟩
    · -- with more digits the first one is small
      have hpow : 58 ^ 43 ≤ 58 ^ places := Nat.pow_le_pow_right (by decide) hmany
      have hone : 58 ^ 43 ≤ n := hpow.trans ((Nat.le_mul_of_pos_left _ (by omega)).trans hlow)
      have hlead : v * 58 ^ 43 < 256 ^ 32 :=
        (Nat.mul_le_mul_left v hpow).trans_lt (hlow.trans_lt hlt)
      have hfirst : 58 ≤ n / 58 ^ 42 := by
        rw [Nat.le_div_iff_mul_le (by positivity), ← Nat.pow_succ']
        exact hone
      have hnot := hout (d := v) (.inl (by norm_num at hlead; omega))
      exact ⟨iff_of_false hnot (hout (.inr hfirst)), fun h => absurd h hnot⟩

/-- The text of a key begins with the letter of a prefix exactly if the forty-third digit of the
key is one of theirs; then it has forty-three characters. -/
theorem begins_with_prefix_iff (hk : k.length = 32) {c : Char} {payload : List Char}
    (htext : Coordinator.b58encode k = c :: payload) :
    (c ∈ knownPrefixes ↔ Coordinator.fromBytes k / 58 ^ 42 ∈ prefixDigits) ∧
      (c ∈ knownPrefixes → payload.length = 42) := by
  obtain ⟨c', payload', htext', -, hc, hlow, hhigh, hzero⟩ :=
    exists_b58encode_cons (k := k) (by rintro rfl; cases hk)
  obtain ⟨rfl, rfl⟩ := List.cons.inj (htext.symm.trans htext')
  have hlt := fromBytes_lt k
  rw [hk] at hlt
  rw [head_eq_zero_iff hk] at hzero
  rw [mem_knownPrefixes_iff c hc]
  exact leading_digit_iff (List.idxOf_lt_length_of_mem hc) hlow hhigh hlt hzero

/-- Forty-two characters of base58 hold less than a key in the other encodings. -/
theorem bytes_of_payload {cases : CaseTable} {payload : List Char}
    (hmem : ∀ x ∈ payload, x ∈ Coordinator.b58) (hlength : payload.length = 42) {b : List UInt8} :
    (urlsafeB64decode (payload ++ b64Padding payload.length) = .ok b → b.length < 32) ∧
      (b32decode (cases.upper payload ++ b32Padding (cases.upper payload).length) = .ok b →
        b.length < 32) ∧
      (fromHex payload = .ok b → b.length < 32) := by
  have hascii : ∀ x ∈ Coordinator.b58, x.toNat < 128 := forall_b58 (by decide +kernel)
  refine ⟨fun h => ?_, fun h => ?_, fun h => ?_⟩
  · have hle := length_of_urlsafeB64decode h
    have hdata : payload.countP (· ≠ '=') ≤ payload.length := List.countP_le_length
    have hpads : (b64Padding payload.length).countP (· ≠ '=') = 0 := by
      rw [List.countP_eq_zero]
      intro c hc
      simp [List.eq_of_mem_replicate hc]
    rw [List.countP_append, hpads] at hle
    omega
  · have hle := length_of_b32decode h
    have hupper : (cases.upper payload).length = 42 := by
      rw [cases.upper_ascii payload fun c hc => hascii c (hmem c hc), List.length_map, hlength]
    rw [hupper, List.length_append, hupper, b32Padding, List.length_replicate] at hle
    omega
  · have hle := length_of_fromHex h
    omega

/-- An identifier without a prefix, read as the decoder reads it, is the key it was made from
exactly if the forty-third digit of the key is none of a prefix. -/
theorem decode_legacy_iff {repr : Json → String} {cases : CaseTable} (hk : k.length = 32) :
    (decode cases repr ("did:wcp:" ++ String.ofList (Coordinator.b58encode k)) :
        Except (PyErr ε) (List UInt8)) = .ok k ↔
      Coordinator.fromBytes k / 58 ^ 42 ∉ prefixDigits := by
  obtain ⟨c, payload, htext, hmem, -⟩ := exists_b58encode_cons (k := k) (by rintro rfl; cases hk)
  obtain ⟨hiff, hlength⟩ := begins_with_prefix_iff hk htext
  have hdecode := Coordinator.b58decode_b58encode k
  rw [htext] at hdecode
  have htext' : ("did:wcp:" ++ String.ofList (Coordinator.b58encode k)).toList =
      "did:wcp:".toList ++ c :: payload := by
    rw [htext]
    exact String.toList_append.trans (congrArg _ String.toList_ofList)
  rw [← hiff, decode_of_toList htext']
  by_cases hz : c = 'z'
  · -- the text without its first letter is that of another key
    rw [if_pos hz, decodeBase58_eq_ok_iff]
    refine iff_of_false (fun h => ?_) (not_not.2 (by rw [hz]; decide))
    exact absurd (congrArg List.length (Coordinator.b58decode_inj hdecode h)) (by simp)
  · rw [if_neg hz]
    by_cases hknown : c ∈ knownPrefixes
    · -- forty-two characters hold too few bytes in the other encodings
      refine iff_of_false ?_ (not_not.2 hknown)
      have hshort := @bytes_of_payload cases payload hmem (hlength hknown)
      split
      · split
        · exact nofun
        · next b hb =>
            intro h
            have := (@hshort b).1 hb
            rw [Except.ok.inj h, hk] at this
            omega
      · split
        · split
          · exact nofun
          · next b hb =>
              intro h
              have := (@hshort b).2.1 hb
              rw [Except.ok.inj h, hk] at this
              omega
        · split
          · split
            · exact nofun
            · next b hb =>
                intro h
                have := (@hshort b).2.2 hb
                rw [Except.ok.inj h, hk] at this
                omega
          · next hu hb hf =>
              simp only [knownPrefixes, List.mem_cons, List.not_mem_nil, or_false] at hknown
              tauto
    · rw [if_neg fun hu => hknown (by rw [hu]; decide),
        if_neg fun hb => hknown (by rw [hb]; decide),
        if_neg fun hf => hknown (by rw [hf]; decide), decodeBase58_eq_ok_iff]
      exact iff_of_true hdecode hknown

/-- The two forms of one key have one canonical form, and decode to the key, exactly if the
forty-third base58 digit of the key is none of a prefix. -/
theorem legacy_valid_iff (ε : Type) (cases : CaseTable) (repr : Json → String) (k : List UInt8)
    (hk : k.length = 32) :
    ∃ d z, (didFromPubkey k : Except (PyErr ε) String) = .ok d ∧
      (encode repr k "base58btc" : Except (PyErr ε) String) = .ok z ∧
      ((decode cases repr d : Except (PyErr ε) (List UInt8)) = .ok k ↔
        Coordinator.fromBytes k / 58 ^ 42 ∉ prefixDigits) ∧
      ((canonicalize cases repr d : Except (PyErr ε) String) = .ok z ↔
        Coordinator.fromBytes k / 58 ^ 42 ∉ prefixDigits) ∧
      ((canonicalize cases repr d : Except (PyErr ε) String) = canonicalize cases repr z ↔
        Coordinator.fromBytes k / 58 ^ 42 ∉ prefixDigits) := by
  have hdecode := @decode_legacy_iff ε k repr cases hk
  have hcanonical : (canonicalize cases repr ("did:wcp:" ++
      String.ofList (Coordinator.b58encode k)) : Except (PyErr ε) String) =
        .ok ("did:wcp:z" ++ String.ofList (b58btcEncode k)) ↔
      Coordinator.fromBytes k / 58 ^ 42 ∉ prefixDigits := by
    rw [canonicalize_eq_ok_iff, ← hdecode]
    constructor
    · rintro ⟨b, hb, hsame⟩
      rwa [canonical_inj hsame cases repr] at hb
    · intro hk
      exact ⟨k, hk, rfl⟩
  refine ⟨_, _, ?_, rfl, hdecode, hcanonical, ?_⟩
  · rw [didFromPubkey, if_neg (not_not.2 hk)]
    rfl
  · rw [(canonicalize_eq_ok_iff cases repr).2 ⟨k, decode_base58 cases repr k, rfl⟩]
    exact hcanonical

end Legacy

/-- The older identifier of the zero key is read as that key. -/
theorem legacy_valid_iff_zero :
    ∃ d z, (didFromPubkey (List.replicate 32 0) : Except (PyErr Unit) String) = .ok d ∧
      (encode (fun _ => "") (List.replicate 32 0) "base58btc" : Except (PyErr Unit) String) =
        .ok z ∧
      (decode asciiCases (fun _ => "") d : Except (PyErr Unit) _) = .ok (List.replicate 32 0) := by
  obtain ⟨d, z, hd, hz, hdecode, -⟩ :=
    legacy_valid_iff Unit asciiCases (fun _ => "") (List.replicate 32 0) (by decide)
  exact ⟨d, z, hd, hz, hdecode.2 (by decide)⟩

/-- The smallest key whose base58 text begins with `z`: forty-two ones follow. -/
def prefixedKey : List UInt8 := [
  14, 154, 27, 42, 128, 123, 177, 187, 112, 8, 207, 150, 151, 211, 114, 1,
  71, 186, 137, 114, 99, 48, 56, 218, 239, 17, 132, 0, 0, 0, 0, 0]

/-- The older identifier of this key is taken for a multibase one and decodes to something else. -/
theorem prefixedKey_not_decoded :
    ¬ ∀ k : List UInt8, k.length = 32 →
      ∃ d, (didFromPubkey k : Except (PyErr Unit) String) = .ok d ∧
        (decode asciiCases (fun _ => "") d : Except (PyErr Unit) _) = .ok k := by
  intro hall
  obtain ⟨d, hd, hdecode⟩ := hall prefixedKey (by decide)
  have hlength : prefixedKey.length = 32 := by decide
  rw [didFromPubkey, if_neg (not_not.2 hlength)] at hd
  obtain rfl := Except.ok.inj hd
  exact (decode_legacy_iff hlength).1 hdecode (by decide +kernel)

end Multibase

end Wcp.Sdk
