import Mathlib
import Wcp.Sdk.Dialects
import Wcp.Sdk.Multibase
/-!
# Signatures of coordinator descriptors

A descriptor is signed by the key it carries.  The registry reads that key with a
base58 decoder of its own, which forgets leading zeros, so it knows the signer of a
correctly signed descriptor exactly if the key does not begin with a zero byte
(`signed_accepted_iff`).
-/

namespace Wcp.Registry

open Wcp.Base

/-- What the registry raises beside the interpreter's own exceptions. -/
inductive Fault where
  | httpException (statusCode : Nat) (detail : String)
  /-- What the driver or the database refuses. -/
  | dataError
deriving DecidableEq

abbrev RErr := PyErr Fault

/-- The PyNaCl library. -/
structure Nacl where
  installed : Bool
  /-- Whether a key of 32 bytes verifies a signature of 64 over a message. -/
  verifies : List UInt8 → List UInt8 → ByteArray → Bool

/-- `json.dumps` with sorted keys, no blanks and `ensure_ascii=False`. -/
def dumpsDialect : Dialect := ⟨Sdk.minimalEscape, fun c => [c.toNat]⟩

def canonicaliseForSigning (descriptor : List (String × Json)) : ByteArray :=
  (String.ofList (dumpsDialect.text (.obj (descriptor.filter fun m => m.1 ≠ "signature")))).toUTF8

/-! ## The key -/

def alphabet : List UInt8 := Coordinator.b58.flatMap String.utf8EncodeChar

/-- The number that bytes of the alphabet stand for, or the first byte outside it. -/
def alphabetValue : Nat → List UInt8 → Except UInt8 Nat
  | n, [] => .ok n
  | n, ch :: rest =>
      if ch ∈ alphabet then alphabetValue (n * 58 + alphabet.idxOf ch) rest else .error ch

variable (repr : Json → String)

def decodeMultibasePubkey (multibase : String) : Except RErr (List UInt8) :=
  match multibase.toList with
  | 'z' :: body =>
      match alphabetValue 0 (body.flatMap String.utf8EncodeChar) with
      | .error ch =>
          .error (.valueError ("invalid base58 char " ++
            repr (.str (String.singleton (Char.ofNat ch.toNat)))))
      | .ok n => .ok (Coordinator.toBytes n)
  | cs =>
      .error (.valueError ("only base58btc multibase ('z' prefix) supported in preview; got " ++
        repr (.str (String.ofList (cs.take 1)))))

/-! ## The signature -/

variable (nacl : Nacl)

/-- `VerifyKey.verify`, with `False` for a bad signature. -/
def verifyKey (pubkey sig : List UInt8) (message : ByteArray) : Except RErr Bool :=
  if sig.length ≠ 64 then .error (.valueError "The signature must be exactly 64 bytes long")
  else .ok (nacl.verifies pubkey sig message)

def descriptorKey (descriptor : List (String × Json)) : Except RErr (List UInt8) := do
  let multibase ← (Json.obj descriptor).item "public_key_multibase"
  let text ← multibase.asStr
  decodeMultibasePubkey repr text

def verifyDescriptorSignature (descriptor : List (String × Json)) : Except RErr Bool :=
  if nacl.installed = false then .ok true
  else
    match descriptorKey repr descriptor with
    | .error .keyError => .ok false
    | .error (.valueError _) => .ok false
    | .error e => .error e
    | .ok pubkey =>
        if pubkey.length ≠ 32 then .ok false
        else
          match (descriptor.lookup "signature").getD (.str "") with
          | .str sig =>
              match urlsafeB64decode (sig.toList ++ ['=', '=']) with
              | .error _ => .ok false
              | .ok bytes => verifyKey nacl pubkey bytes (canonicaliseForSigning descriptor)
          -- a text cannot be added to anything else
          | _ => .ok false

/-! ## What the decoder makes of a key -/

theorem alphabet_idxOf : ∀ c ∈ Coordinator.b58, ∃ ch, String.utf8EncodeChar c = [ch] ∧
    ch ∈ alphabet ∧ alphabet.idxOf ch = Coordinator.b58.idxOf c := by
  have hcheck : ∀ c ∈ Coordinator.b58, String.utf8EncodeChar c = [c.toNat.toUInt8] ∧
      c.toNat.toUInt8 ∈ alphabet ∧
      alphabet.idxOf c.toNat.toUInt8 = Coordinator.b58.idxOf c :=
    Sdk.Multibase.forall_b58 (by decide +kernel)
  exact fun c hc => ⟨_, hcheck c hc⟩

theorem alphabetValue_eq {s : List Char} (h : ∀ c ∈ s, c ∈ Coordinator.b58) (n : Nat) :
    alphabetValue n (s.flatMap String.utf8EncodeChar) =
      .ok ((s.map Coordinator.b58.idxOf).foldl (fun n d => n * 58 + d) n) := by
  induction s generalizing n with
  | nil => rfl
  | cons c s ih =>
      obtain ⟨ch, hbytes, hmem, hidx⟩ := alphabet_idxOf c (h c List.mem_cons_self)
      rw [List.flatMap_cons, hbytes, List.singleton_append, alphabetValue, if_pos hmem, hidx,
        ih fun x hx => h x (List.mem_cons_of_mem c hx)]
      rfl

theorem decodeMultibasePubkey_encoded (k : List UInt8) :
    decodeMultibasePubkey repr ("z" ++ String.ofList (Sdk.Multibase.b58btcEncode k)) =
      .ok (Coordinator.toBytes (Coordinator.fromBytes k)) := by
  have htext : ("z" ++ String.ofList (Sdk.Multibase.b58btcEncode k)).toList =
      'z' :: Coordinator.b58encode k := by
    rw [Sdk.Multibase.b58btcEncode_eq]
    exact String.toList_append.trans (congrArg _ String.toList_ofList)
  have hvalue := alphabetValue_eq (Coordinator.b58encode_mem k) 0
  have hnumber : ((Coordinator.b58encode k).map Coordinator.b58.idxOf).foldl
      (fun n d => n * 58 + d) 0 = Coordinator.fromBytes k := by
    rw [Coordinator.b58encode_eq,
      Coordinator.map_idxOf_getD (Coordinator.numeral_lt (by decide) _ _),
      Coordinator.fromBytes_eq]
    exact bigEndian_numeral 58 _ _
  rw [hnumber] at hvalue
  rw [decodeMultibasePubkey, htext]
  simp only [hvalue]

theorem toBytes_eq (n : Nat) : Coordinator.toBytes n = ofOctets (numeral 256 0 n) := by
  rw [Coordinator.toBytes, numeral, ofOctets, List.replicate_zero, List.nil_append,
    List.map_reverse]

theorem eq_zeros_append_toBytes (k : List UInt8) :
    k = List.replicate (leadingZeros (octets k)) 0 ++
      Coordinator.toBytes (Coordinator.fromBytes k) := by
  have hnumeral := numeral_leadingZeros (b := 256) (by decide) (octets_lt k)
  have hnumber : Coordinator.fromBytes k = bigEndian 256 (octets k) := Coordinator.fromBytes_eq k
  calc k = ofOctets (octets k) := (ofOctets_octets k).symm
    _ = ofOctets (numeral 256 (leadingZeros (octets k)) (bigEndian 256 (octets k))) := by
        rw [hnumeral]
    _ = _ := by
        rw [toBytes_eq, hnumber, numeral, numeral, ofOctets, ofOctets, List.map_append,
          List.map_append, List.map_replicate]
        rfl

theorem leadingZeros_octets (k : List UInt8) : leadingZeros (octets k) = 0 ↔ k.head? ≠ some 0 := by
  rw [leadingZeros_eq_zero_iff, octets, List.head?_map]
  cases k.head? with
  | none => simp
  | some x => simp [← UInt8.toNat_inj]

/-- Bytes without a leading zero are those of their number, and only they. -/
theorem toBytes_fromBytes_iff (k : List UInt8) :
    Coordinator.toBytes (Coordinator.fromBytes k) = k ↔ k.head? ≠ some 0 := by
  have hk := eq_zeros_append_toBytes k
  rw [← leadingZeros_octets]
  constructor
  · intro heq
    have hlength := congrArg List.length hk
    rw [heq, List.length_append, List.length_replicate] at hlength
    omega
  · intro hzero
    rw [hzero, List.replicate_zero, List.nil_append] at hk
    exact hk.symm

theorem length_toBytes_fromBytes {k : List UInt8} (hk : k.length = 32) :
    (Coordinator.toBytes (Coordinator.fromBytes k)).length = 32 ↔ k.head? ≠ some 0 := by
  have hlength := congrArg List.length (eq_zeros_append_toBytes k)
  rw [List.length_append, List.length_replicate, hk] at hlength
  rw [← leadingZeros_octets]
  omega

/-! ## Correctly signed descriptors -/

/-- The descriptor names the key in the text of the SDK's encoder and carries a signature of
it, in base64 with or without its padding. -/
structure SignedBy (nacl : Nacl) (k sig : List UInt8) (descriptor : List (String × Json)) :
    Prop where
  key : descriptor.lookup "public_key_multibase" =
    some (.str ("z" ++ String.ofList (Sdk.Multibase.b58btcEncode k)))
  text : descriptor.lookup "signature" = some (.str (String.ofList (stripPadding
      (urlsafeB64encode sig)))) ∨
    descriptor.lookup "signature" = some (.str (String.ofList (urlsafeB64encode sig)))
  length : sig.length = 64
  verifies : nacl.verifies k sig (canonicaliseForSigning descriptor) = true

variable {repr nacl} {k sig : List UInt8} {descriptor : List (String × Json)}

theorem descriptorKey_signed (h : SignedBy nacl k sig descriptor) :
    descriptorKey repr descriptor = .ok (Coordinator.toBytes (Coordinator.fromBytes k)) := by
  have hitem : (Json.obj descriptor).item "public_key_multibase" =
      (.ok (.str ("z" ++ String.ofList (Sdk.Multibase.b58btcEncode k))) : Except RErr Json) := by
    rw [Json.item, h.key]
  rw [descriptorKey, hitem]
  exact decodeMultibasePubkey_encoded repr k

/-- The padding that the registry adds suits both forms of a signature. -/
theorem SignedBy.decodes (h : SignedBy nacl k sig descriptor) :
    ∃ text, (descriptor.lookup "signature").getD (.str "") = .str text ∧
      urlsafeB64decode (text.toList ++ ['=', '=']) = .ok sig := by
  rcases h.text with htext | htext
  · refine ⟨_, by rw [htext]; rfl, ?_⟩
    rw [String.toList_ofList]
    exact urlsafeB64decode_two_pads (by rw [h.length])
  · refine ⟨_, by rw [htext]; rfl, ?_⟩
    rw [String.toList_ofList]
    exact urlsafeB64decode_more_pads sig 2

theorem verifyDescriptorSignature_signed (hinstalled : nacl.installed = true)
    (hk : k.length = 32) (h : SignedBy nacl k sig descriptor) :
    verifyDescriptorSignature repr nacl descriptor = .ok (decide (k.head? ≠ some 0)) := by
  have hlength := length_toBytes_fromBytes hk
  rw [verifyDescriptorSignature, if_neg (by simp [hinstalled])]
  simp only [descriptorKey_signed h]
  by_cases hzero : k.head? = some 0
  · rw [if_pos fun hsame => hlength.1 hsame hzero]
    simp [hzero]
  · obtain ⟨text, htext, hdecode⟩ := h.decodes
    rw [if_neg (not_not.2 (hlength.2 hzero)), htext]
    simp only [hdecode, (toBytes_fromBytes_iff k).2 hzero]
    rw [verifyKey, if_neg (not_not.2 h.length), h.verifies]
    simp [hzero]

/-- The registry accepts a correctly signed descriptor, and reads its key, exactly if the key
does not begin with a zero byte. -/
theorem signed_accepted_iff (repr : Json → String) (nacl : Nacl) (k sig : List UInt8)
    (descriptor : List (String × Json)) (hinstalled : nacl.installed = true)
    (hk : k.length = 32) (hsigned : SignedBy nacl k sig descriptor) :
    (verifyDescriptorSignature repr nacl descriptor = .ok true ↔ k.head? ≠ some 0) ∧
    (decodeMultibasePubkey repr ("z" ++ String.ofList (Sdk.Multibase.b58btcEncode k)) = .ok k ↔
      k.head? ≠ some 0) := by
  constructor
  · rw [verifyDescriptorSignature_signed hinstalled hk hsigned, Except.ok.injEq,
      decide_eq_true_eq]
  · rw [decodeMultibasePubkey_encoded, Except.ok.injEq]
    exact toBytes_fromBytes_iff k

/-- The smallest descriptor: a key and its signature. -/
def keyDescriptor (k sig : List UInt8) : List (String × Json) := [
  ("public_key_multibase", .str ("z" ++ String.ofList (Sdk.Multibase.b58btcEncode k))),
  ("signature", .str (String.ofList (stripPadding (urlsafeB64encode sig))))]

/-- The library, as far as it is asked about one signature of the smallest descriptor. -/
def recordedNacl (k sig : List UInt8) : Nacl :=
  ⟨true, fun key s message =>
    decide (key = k ∧ s = sig ∧ message = canonicaliseForSigning (keyDescriptor k sig))⟩

theorem signedBy_keyDescriptor {k sig : List UInt8} (h : sig.length = 64) :
    SignedBy (recordedNacl k sig) k sig (keyDescriptor k sig) where
  key := rfl
  text := Or.inl rfl
  length := h
  verifies := decide_eq_true ⟨rfl, rfl, rfl⟩

/-- The Ed25519 key whose seed is zero. -/
def firstKey : List UInt8 := [
  59, 106, 39, 188, 206, 182, 164, 45, 98, 163, 168, 208, 42, 111, 13, 115, 101, 50, 21, 119, 29,
  226, 67, 166, 58, 192, 72, 161, 139, 89, 218, 41]

/-- Its signature of the smallest descriptor. -/
def firstSignature : List UInt8 := [
  61, 145, 207, 12, 216, 63, 154, 164, 229, 78, 48, 66, 75, 140, 70, 130, 190, 208, 47, 14, 32,
  11, 32, 79, 175, 36, 0, 73, 94, 138, 243, 99, 80, 252, 144, 111, 248, 101, 99, 99, 43, 224, 93,
  83, 35, 97, 48, 253, 59, 21, 79, 2, 172, 150, 123, 153, 67, 92, 169, 25, 207, 112, 163, 7]

theorem signed_accepted_firstKey :
    verifyDescriptorSignature (fun _ => "") (recordedNacl firstKey firstSignature)
      (keyDescriptor firstKey firstSignature) = .ok true :=
  (signed_accepted_iff (fun _ => "") (recordedNacl firstKey firstSignature) firstKey
    firstSignature (keyDescriptor firstKey firstSignature) rfl (by decide)
    (signedBy_keyDescriptor (by decide))).1.2 (by decide)

/-- The Ed25519 key whose seed is thirty-six. -/
def zeroKey : List UInt8 := [
  0, 0, 31, 139, 234, 66, 179, 199, 76, 80, 170, 53, 137, 177, 170, 6, 95, 25, 104, 87, 219, 151,
  167, 94, 74, 84, 149, 63, 9, 62, 103, 114]

/-- Its signature of the smallest descriptor. -/
def zeroSignature : List UInt8 := [
  59, 218, 137, 175, 20, 101, 20, 240, 243, 96, 24, 211, 26, 191, 181, 83, 187, 78, 39, 200, 123,
  27, 172, 14, 168, 152, 118, 31, 34, 155, 54, 120, 160, 151, 99, 180, 92, 52, 70, 82, 68, 166,
  14, 74, 205, 167, 169, 28, 209, 163, 6, 118, 76, 37, 250, 84, 128, 173, 254, 171, 194, 101,
  154, 5]

/-- A correctly signed descriptor of this key is refused: its key is read without its zeros. -/
theorem signed_refused_zeroKey :
    zeroKey.length = 32 ∧
    SignedBy (recordedNacl zeroKey zeroSignature) zeroKey zeroSignature
      (keyDescriptor zeroKey zeroSignature) ∧
    verifyDescriptorSignature (fun _ => "") (recordedNacl zeroKey zeroSignature)
      (keyDescriptor zeroKey zeroSignature) = .ok false ∧
    decodeMultibasePubkey (fun _ => "")
      ("z" ++ String.ofList (Sdk.Multibase.b58btcEncode zeroKey)) ≠ .ok zeroKey := by
  have hlength : zeroKey.length = 32 := by decide
  have hsigned : SignedBy (recordedNacl zeroKey zeroSignature) zeroKey zeroSignature
      (keyDescriptor zeroKey zeroSignature) := signedBy_keyDescriptor (by decide)
  refine ⟨hlength, hsigned, ?_, ?_⟩
  · rw [verifyDescriptorSignature_signed rfl hlength hsigned]
    rfl
  · rw [decodeMultibasePubkey_encoded, Ne, Except.ok.injEq, toBytes_fromBytes_iff]
    decide

end Wcp.Registry
