import Wcp.Base.Collation
import Wcp.Coordinator.Identifiers
import Wcp.Coordinator.Operations
import Wcp.Sdk.Dialects
import Wcp.Sdk.Session
/-!
# Signatures of the other SDKs

The TypeScript, Go and Rust SDKs sign the canonical text that they write themselves, and the
coordinator checks a signature against the text that Python writes.  So what they sign verifies
exactly where both texts are the same, which depends on the characters alone
(`foreign_signature_verifies_iff`), and so do the requests of the TypeScript worker and of the web
app (`typescript_requests_verify_iff`).
-/

namespace Wcp.Sdk

open Wcp.Base
open Wcp.Coordinator (Env Err ResolvedDID claimVerifyAcceptance claimBody eventVerify eventBody
  EvidenceHeader evidenceBody AttestPlan attestPlan WcpClaim Db)

variable {env : Env} (identity : WorkerIdentity env)

/-! ## Signing -/

/-- `sign` of an SDK that writes its canonical JSON in a dialect. -/
def signAs (d : Dialect) (payload : Json) : Json :=
  .str ("ed25519:" ++
    String.ofList (urlsafeB64nopad (identity.key.sign (String.ofList (d.text payload)))))

/-- `WorkerIdentity.sign` of the TypeScript SDK and of the web app. -/
def typescriptSign (payload : Json) : Json := signAs identity typescriptDialect payload

/-- `Identity.Sign` of the Go SDK. -/
def goSign (payload : Json) : Json := signAs identity goDialect payload

/-- `WorkerIdentity::sign` of the Rust SDK. -/
def rustSign (payload : Json) : Json := signAs identity rustDialect payload

/-- What an identity signs of a text verifies for no other text. -/
def WorkerIdentity.Binds (text : String) : Prop :=
  ∀ m, env.ed25519Verify identity.key.publicKey (identity.key.sign text) m = true → m = text

theorem verify_signAs {resolved : ResolvedDID}
    (hkey : resolved.publicKey = identity.key.publicKey) (d : Dialect) (payload : Json)
    (text : String) :
    Coordinator.verify env resolved text (signAs identity d payload) = .ok () ↔
      env.ed25519Verify identity.key.publicKey
        (identity.key.sign (String.ofList (d.text payload))) text = true := by
  have hlength : (identity.key.sign (String.ofList (d.text payload))).length % 3 = 1 := by
    rw [identity.key.length_sign]
  have hdecode := urlsafeB64decode_two_pads hlength
  have htext : ("ed25519:" ++ String.ofList
      (urlsafeB64nopad (identity.key.sign (String.ofList (d.text payload))))).toList =
      "ed25519:".toList ++
        urlsafeB64nopad (identity.key.sign (String.ofList (d.text payload))) :=
    String.toList_append.trans (congrArg _ String.toList_ofList)
  have hdrop : ("ed25519:".toList ++
      urlsafeB64nopad (identity.key.sign (String.ofList (d.text payload)))).drop 8 =
        urlsafeB64nopad (identity.key.sign (String.ofList (d.text payload))) := rfl
  rw [Coordinator.verify, signAs, bind_eq_ok]
  constructor
  · rintro ⟨s, hs, hchecked⟩
    obtain rfl := Except.ok.inj hs
    rw [htext, if_neg (by simp), hdrop, urlsafeB64nopad, hdecode, hkey] at hchecked
    dsimp only at hchecked
    by_contra hnot
    rw [if_neg hnot] at hchecked
    cases hchecked
  · intro hverifies
    refine ⟨_, rfl, ?_⟩
    rw [htext, if_neg (by simp), hdrop, urlsafeB64nopad, hdecode, hkey]
    exact if_pos hverifies

/-- A signature verifies for a value if the SDK writes the text that Python writes. -/
theorem verify_signAs_iff {resolved : ResolvedDID}
    (hkey : resolved.publicKey = identity.key.publicKey) {d : Dialect} {payload : Json}
    (hbinds : identity.Binds (String.ofList (d.text payload))) :
    Coordinator.verify env resolved (canonical payload) (signAs identity d payload) = .ok () ↔
      d.text payload = pythonDialect.text payload := by
  rw [verify_signAs identity hkey, canonical_eq_text]
  constructor
  · intro hverifies
    exact (String.ofList_inj.1 (hbinds _ hverifies)).symm
  · intro htext
    rw [htext]
    exact identity.key.sign_verifies _

/-! ## Texts -/

/-- A dialect with the minimal escapes that orders ASCII as Python does writes what Python writes
exactly where every character is ASCII up to the tilde. -/
theorem minimal_text_iff {units : Char → List Nat}
    (hunits : ∀ c : Char, c.toNat ≤ 126 → units c = [c.toNat]) (v : Json) :
    (Dialect.mk minimalEscape units).text v = pythonDialect.text v ↔
      ∀ c ∈ v.chars, c.toNat ≤ 126 := by
  constructor
  · intro htext c hc
    by_contra hgt
    have hraw : c ∈ minimalEscape c := by
      rw [minimalEscape_of_gt (not_le.1 hgt)]
      exact List.mem_singleton_self c
    have hmem : c ∈ (Dialect.mk minimalEscape units).text v := mem_text v hc hraw
    rw [htext] at hmem
    exact hgt (le_of_mem_pythonText v c hmem)
  · intro hplain
    exact text_congr v fun c hc => ⟨minimalEscape_of_le (hplain c hc), hunits c (hplain c hc)⟩

theorem typescript_text_iff (v : Json) :
    typescriptDialect.text v = pythonDialect.text v ↔ ∀ c ∈ v.chars, c.toNat ≤ 126 :=
  minimal_text_iff (fun _ => utf16Units_of_le) v

theorem rust_text_iff (v : Json) :
    rustDialect.text v = pythonDialect.text v ↔ ∀ c ∈ v.chars, c.toNat ≤ 126 :=
  minimal_text_iff (fun _ => utf8Units_of_le) v

/-- The bytes of a character, by its code point. -/
def utf8Bytes (n : Nat) : List Nat :=
  if n ≤ 127 then [n]
  else if n ≤ 2047 then [192 + n / 64, 128 + n % 64]
  else if n ≤ 65535 then [224 + n / 4096, 128 + n / 64 % 64, 128 + n % 64]
  else [240 + n / 262144, 128 + n / 4096 % 64, 128 + n / 64 % 64, 128 + n % 64]

theorem codePoint_lt (c : Char) : c.toNat < 1114112 := by
  have hvalid := c.valid
  have hnat : c.toNat = c.val.toNat := rfl
  simp only [UInt32.isValidChar, Nat.isValidChar] at hvalid
  omega

theorem utf8Units_eq (c : Char) : utf8Units c = utf8Bytes c.toNat := by
  have hlt := codePoint_lt c
  have hnat : c.val.toNat = c.toNat := rfl
  rw [utf8Units, String.utf8EncodeChar, hnat, utf8Bytes]
  split_ifs
  · simp; omega
  · simp; omega
  · simp; omega
  · simp; omega

theorem utf8Bytes_lt {m n : Nat} (h : m < n) (hn : n < 1114112) (r r' : List Nat) :
    utf8Bytes m ++ r < utf8Bytes n ++ r' := by
  unfold utf8Bytes
  split_ifs <;> simp [List.cons_lt_cons_iff] <;> omega

theorem utf8_collates : Collates utf8Units where
  ne_nil c := by
    rw [utf8Units_eq, utf8Bytes]
    split_ifs <;> simp
  lt c d hlt r r' := by
    rw [utf8Units_eq, utf8Units_eq]
    exact utf8Bytes_lt hlt (codePoint_lt d) r r'

/-- The characters that Go writes as Python does: also the two line separators, which both
escape. -/
def GoPlain (c : Char) : Prop := Plain c ∨ c.toNat = 8232 ∨ c.toNat = 8233

theorem marshalEscape_of_goPlain {c : Char} (h : GoPlain c) :
    marshalEscape c = escapeChar c := by
  rcases h with hplain | hseparator
  · exact marshalEscape_of_plain hplain
  · have hgo : goEscaped c = true := by
      rcases hseparator with hn | hn <;> simp [goEscaped, hn]
    have hne : ∀ d : Char, d.toNat ≤ 126 → c ≠ d := by
      rintro d hd rfl
      omega
    rw [marshalEscape, if_pos hgo]
    unfold escapeChar
    rw [if_neg (hne _ (by decide)), if_neg (hne _ (by decide)), if_neg (hne _ (by decide)),
      if_neg (hne _ (by decide)), if_neg (hne _ (by decide)), if_neg (by omega), if_neg (by omega),
      if_neg (by omega), if_pos (by omega)]

theorem go_text_iff (v : Json) :
    goDialect.text v = pythonDialect.text v ↔ ∀ c ∈ v.chars, GoPlain c := by
  constructor
  · intro htext c hc
    by_contra hnot
    unfold GoPlain at hnot
    push Not at hnot
    obtain ⟨hplain, h8232, h8233⟩ := hnot
    by_cases hle : c.toNat ≤ 126
    · -- a character of HTML, which Python writes and Go does not
      have hhtml : c = '<' ∨ c = '>' ∨ c = '&' := by
        by_contra hnone
        push Not at hnone
        exact hplain ⟨hle, hnone⟩
      have hpython : pythonDialect.escape c = [c] := by
        rcases hhtml with rfl | rfl | rfl <;> rfl
      have hmem : c ∈ goDialect.text v := by
        rw [htext]
        exact mem_text v hc (hpython ▸ List.mem_singleton_self c)
      obtain ⟨hlt, hgt, hamp⟩ := not_mem_goText v c hmem
      rcases hhtml with rfl | rfl | rfl
      · exact hlt rfl
      · exact hgt rfl
      · exact hamp rfl
    · have hne : ∀ d : Char, d.toNat ≤ 126 → c ≠ d := by
        rintro d hd rfl
        exact hle hd
      have hgo : goEscaped c = false := by
        simp [goEscaped, h8232, h8233, hne '<' (by decide), hne '>' (by decide),
          hne '&' (by decide)]
      have hmem : c ∈ goDialect.text v := by
        refine mem_text v hc ?_
        show c ∈ marshalEscape c
        rw [marshalEscape, hgo, if_neg Bool.false_ne_true, minimalEscape_of_gt (not_le.1 hle)]
        exact List.mem_singleton_self c
      rw [htext] at hmem
      exact hle (le_of_mem_pythonText v c hmem)
  · intro hplain
    have hordered : goDialect.text v = (Dialect.mk marshalEscape fun c => [c.toNat]).text v :=
      text_collated utf8_collates codePoints_collate marshalEscape v
    rw [hordered]
    exact text_congr v fun c hc => ⟨marshalEscape_of_goPlain (hplain c hc), rfl⟩

/-! ## An environment that tells two texts apart -/

section Marked

open Wcp.Coordinator (localEnv zeroDid)

/-- A signature of 64 bytes that marks one text. -/
def mark (t text : String) : List UInt8 := List.replicate 64 (if text = t then 0 else 1)

/-- The local environment with digests of one character, where the signatures of the all-zero key
are marks of a text. -/
def markedEnv (t : String) : Env := { localEnv with
  sha256Hex := fun _ => "#"
  ed25519Verify := fun key sig text =>
    decide (sig = if key = List.replicate 32 0 then mark t text else key)
  auditSign_verifies := fun _ => decide_eq_true (if_neg (by decide)).symm }

theorem length_zeroPublicKey : (List.replicate 32 (0 : UInt8)).length = 32 := List.length_replicate

theorem length_mark (t m : String) : (mark t m).length = 64 := List.length_replicate

theorem mark_verifies (t m : String) :
    (markedEnv t).ed25519Verify (List.replicate 32 0) (mark t m) m = true :=
  decide_eq_true (if_pos rfl).symm

def markedIdentity (t : String) : WorkerIdentity (markedEnv t) where
  key := {
    publicKey := List.replicate 32 0
    sign := mark t
    length_publicKey := length_zeroPublicKey
    length_sign := length_mark t
    sign_verifies := mark_verifies t }
  did := zeroDid
  did_eq := zeroIdentity.did_eq

theorem marked_binds (t : String) : (markedIdentity t).Binds t := by
  intro m hm
  have hmark : mark t t = mark t m := (of_decide_eq_true hm).trans (if_pos rfl)
  by_contra hne
  rw [mark, mark, if_pos rfl, if_neg hne] at hmark
  exact absurd hmark (by decide)

end Marked

/-! ## Verification -/

/-- What the other SDKs sign verifies at the coordinator exactly where all characters are ASCII up
to the tilde; of the Go SDK, where besides none is of HTML, and the line separators may occur. -/
theorem foreign_signature_verifies_iff (v : PortableJson)
    (htypescript : identity.Binds (canonicalJsonStringify v.1))
    (hgo : identity.Binds (String.ofList (goDialect.text v.1)))
    (hrust : identity.Binds (canonicalJson v.1)) :
    ∃ resolved, Coordinator.resolve env (.str identity.did) = .ok resolved ∧
      (Coordinator.verify env resolved (canonical v.1) (typescriptSign identity v.1) = .ok () ↔
        ∀ c ∈ v.1.chars, c.toNat ≤ 126) ∧
      (Coordinator.verify env resolved (canonical v.1) (rustSign identity v.1) = .ok () ↔
        ∀ c ∈ v.1.chars, c.toNat ≤ 126) ∧
      (Coordinator.verify env resolved (canonical v.1) (goSign identity v.1) = .ok () ↔
        ∀ c ∈ v.1.chars, GoPlain c) := by
  obtain ⟨resolved, hresolve, hkey⟩ := resolve_did identity
  refine ⟨resolved, hresolve, ?_, ?_, ?_⟩
  · exact (verify_signAs_iff identity hkey htypescript).trans (typescript_text_iff v.1)
  · exact (verify_signAs_iff identity hkey hrust).trans (rust_text_iff v.1)
  · exact (verify_signAs_iff identity hkey hgo).trans (go_text_iff v.1)

/-- A reason with an accent: TypeScript, Go and Rust write the same text, and Python another. -/
theorem foreign_signature_rejected_accented :
    ∃ resolved, Coordinator.resolve (markedEnv (canonicalJsonStringify accented.1))
        (.str (markedIdentity (canonicalJsonStringify accented.1)).did) = .ok resolved ∧
      Coordinator.verify (markedEnv (canonicalJsonStringify accented.1)) resolved
        (canonical accented.1)
        (typescriptSign (markedIdentity (canonicalJsonStringify accented.1)) accented.1) ≠
          .ok () := by
  have hgo : String.ofList (goDialect.text accented.1) = canonicalJsonStringify accented.1 := by
    decide +kernel
  have hrust : canonicalJson accented.1 = canonicalJsonStringify accented.1 := by decide +kernel
  obtain ⟨resolved, hresolve, htypescript, -, -⟩ :=
    foreign_signature_verifies_iff (markedIdentity (canonicalJsonStringify accented.1)) accented
      (marked_binds _) (hgo ▸ marked_binds _) (hrust ▸ marked_binds _)
  refine ⟨resolved, hresolve, fun hverifies => ?_⟩
  have haccent : 'é' ∈ accented.1.chars := by decide +kernel
  exact absurd (htypescript.1 hverifies 'é' haccent) (by decide)

/-! ## Requests of the TypeScript worker and the web app -/

/-- `date.toISOString()` of a date in UTC. -/
def toISOString (d : DateTime) : String :=
  let t := d.wall % microsPerDay
  String.ofList (dateText (d.wall / microsPerDay) ++ 'T' :: (padded 2 (t / 3600000000) ++
    ':' :: (padded 2 (t / 60000000 % 60) ++ ':' :: (padded 2 (t / 1000000 % 60) ++
      '.' :: (padded 3 (t / 1000 % 1000) ++ ['Z'])))))

/-- The `payload_hash` of an acceptance. -/
def typescriptHash (env : Env) (taskId : Json) : Json :=
  .str (env.sha256Hex (canonicalJsonStringify (.obj [("task_id", taskId)])))

/-- What is signed to claim a task. -/
def typescriptBody (taskId eta : Json) (signedAt : DateTime) : Json :=
  .obj [
    ("task_id", taskId),
    ("worker_id", .str identity.did),
    ("eta", eta),
    ("bid", .null),
    ("payload_hash", typescriptHash env taskId),
    ("signed_at", .str (toISOString signedAt))]

/-- The acceptance of `executeFullLifecycle` and of `TaskListener`. -/
def typescriptAcceptance (taskId eta : Json) (signedAt : DateTime) : Json :=
  .obj [
    ("sig", typescriptSign identity (typescriptBody identity taskId eta signedAt)),
    ("alg", .str "Ed25519"),
    ("payload_hash", typescriptHash env taskId),
    ("signed_at", .str (toISOString signedAt))]

def heartbeatPayload (claimId : Json) : Json := .obj [("claim_id", claimId)]

/-- What `sendHeartbeat` signs. -/
def heartbeatBody (claimId : Json) (ts : DateTime) : Json :=
  .obj [
    ("claim_id", claimId),
    ("event_type", .str "heartbeat"),
    ("timestamp", .str (toISOString ts)),
    ("payload", heartbeatPayload claimId)]

/-- What `executeFullLifecycle` and `makeEvidence` sign of an evidence item. -/
def typescriptEvidenceBody (mode : Coordinator.AttestationMode) (kind payload claimId : Json)
    (now : DateTime) : Json :=
  .obj [
    ("mode", .str mode.value),
    ("kind", kind),
    ("payload_hash", .str (env.sha256Hex (canonicalJsonStringify payload))),
    ("worker_id", .str identity.did),
    ("claim_id", claimId),
    ("collected_at", .str (toISOString now))]

/-- The evidence item of `executeFullLifecycle`, or of `makeEvidence` with its own version of the
schema. -/
def typescriptEvidence (schemaVersion : String) (mode : Coordinator.AttestationMode)
    (kind payload claimId : Json) (now : DateTime) : Json :=
  .obj [
    ("schema_version", .str schemaVersion),
    ("mode", .str mode.value),
    ("kind", kind),
    ("payload", payload),
    ("payload_hash", .str (env.sha256Hex (canonicalJsonStringify payload))),
    ("sig", typescriptSign identity
      (typescriptEvidenceBody identity mode kind payload claimId now)),
    ("worker_id", .str identity.did),
    ("claim_id", claimId),
    ("collected_at", .str (toISOString now))]

/-- The header that the coordinator reads in it. -/
def typescriptHeader (mode : Coordinator.AttestationMode) (kind payload claimId : Json)
    (now : DateTime) : EvidenceHeader :=
  ⟨.str mode.value, kind, .str (env.sha256Hex (canonicalJsonStringify payload)),
    .str (toISOString now),
    typescriptSign identity (typescriptEvidenceBody identity mode kind payload claimId now)⟩

/-- A text of ASCII up to the tilde. -/
def Ascii (cs : List Char) : Prop := ∀ c ∈ cs, c.toNat ≤ 126

instance (cs : List Char) : Decidable (Ascii cs) :=
  List.decidableBAll (fun c : Char => c.toNat ≤ 126) cs

@[simp] theorem ascii_nil : Ascii [] := fun _ h => absurd h List.not_mem_nil

@[simp] theorem ascii_append {cs ds : List Char} : Ascii (cs ++ ds) ↔ Ascii cs ∧ Ascii ds :=
  List.forall_mem_append

@[simp] theorem ascii_cons {c : Char} {cs : List Char} :
    Ascii (c :: cs) ↔ c.toNat ≤ 126 ∧ Ascii cs := List.forall_mem_cons

theorem padded_ascii (width n : Nat) : Ascii (padded width n) := by
  intro c hc
  have hdigit := padded_isDigit hc
  simp only [Char.isDigit, Bool.and_eq_true, decide_eq_true_eq] at hdigit
  have hle : c.val.toNat ≤ 57 := UInt32.le_iff_toNat_le.1 hdigit.2
  have hnat : c.val.toNat = c.toNat := rfl
  omega

theorem toISOString_ascii (d : DateTime) : Ascii (toISOString d).toList := by
  rw [toISOString, String.toList_ofList]
  simp [dateText, padded_ascii]

theorem did_ascii : Ascii identity.did.toList := by
  have halphabet : (Coordinator.b58.all fun c => decide (c.toNat ≤ 126)) = true := by decide
  have hdid : "did:wcp:" ++ String.ofList (b58encode identity.key.publicKey) = identity.did := by
    have hok := identity.did_eq
    rw [didFromPubkey, if_neg (not_not.2 identity.key.length_publicKey)] at hok
    exact Except.ok.inj hok
  rw [← hdid, String.toList_append, ascii_append]
  refine ⟨by decide, fun c hc => ?_⟩
  rw [String.toList_ofList] at hc
  exact of_decide_eq_true (List.all_eq_true.1 halphabet c (Coordinator.b58encode_mem _ c hc))

/-- Digests are non-empty texts of ASCII. -/
def AsciiDigests (env : Env) : Prop :=
  ∀ s, env.sha256Hex s ≠ "" ∧ Ascii (env.sha256Hex s).toList

theorem typescriptBody_ascii (hdigests : AsciiDigests env) (taskId eta : String)
    (signedAt : DateTime) :
    Ascii (typescriptBody identity (.str taskId) (.str eta) signedAt).chars ↔
      Ascii (taskId.toList ++ eta.toList) := by
  have hkeys : Ascii "task_id".toList ∧ Ascii "worker_id".toList ∧ Ascii "eta".toList ∧
      Ascii "bid".toList ∧ Ascii "payload_hash".toList ∧ Ascii "signed_at".toList := by
    decide
  obtain ⟨htask, hworker, heta, hbid, hhash, hsigned⟩ := hkeys
  simp only [typescriptBody, typescriptHash, Json.chars, charsMembers, ascii_append, ascii_nil,
    htask, hworker, heta, hbid, hhash, hsigned, did_ascii identity, (hdigests _).2,
    toISOString_ascii, and_true, true_and]

theorem heartbeatBody_ascii (claimId : String) (ts : DateTime) :
    Ascii (heartbeatBody (.str claimId) ts).chars ↔ Ascii claimId.toList := by
  have hkeys : Ascii "claim_id".toList ∧ Ascii "event_type".toList ∧ Ascii "heartbeat".toList ∧
      Ascii "timestamp".toList ∧ Ascii "payload".toList := by
    decide
  obtain ⟨hclaim, htype, hheartbeat, htime, hpayload⟩ := hkeys
  simp only [heartbeatBody, heartbeatPayload, Json.chars, charsMembers, ascii_append, ascii_nil,
    hclaim, htype, hheartbeat, htime, hpayload, toISOString_ascii, and_true, true_and, and_self]

theorem typescriptEvidenceBody_ascii (hdigests : AsciiDigests env)
    (mode : Coordinator.AttestationMode) (kind : String) (payload : Json) (claimId : String)
    (now : DateTime) :
    Ascii (typescriptEvidenceBody identity mode (.str kind) payload (.str claimId) now).chars ↔
      Ascii (kind.toList ++ claimId.toList) := by
  have hkeys : Ascii "mode".toList ∧ Ascii "kind".toList ∧ Ascii "payload_hash".toList ∧
      Ascii "worker_id".toList ∧ Ascii "claim_id".toList ∧ Ascii "collected_at".toList := by
    decide
  have hmode : Ascii mode.value.toList := by cases mode <;> decide
  obtain ⟨hm, hkind, hhash, hworker, hclaim, hcollected⟩ := hkeys
  simp only [typescriptEvidenceBody, Json.chars, charsMembers, ascii_append, ascii_nil, hm, hkind,
    hhash, hworker, hclaim, hcollected, hmode, did_ascii identity, (hdigests _).2,
    toISOString_ascii, and_true, true_and]

theorem claimVerifyAcceptance_iff
    {taskId workerId eta attestation bid sig payloadHash signedAt : Json}
    {resolved : ResolvedDID}
    (hsig : attestation.get "sig" = (.ok sig : Except Err Json))
    (hhash : attestation.get "payload_hash" = (.ok payloadHash : Except Err Json))
    (hsigned : attestation.get "signed_at" = (.ok signedAt : Except Err Json))
    (hcomplete : sig.truthy = true ∧ payloadHash.truthy = true ∧ signedAt.truthy = true)
    (hresolve : Coordinator.resolve env workerId = .ok resolved) :
    (∃ r, claimVerifyAcceptance env taskId workerId eta attestation bid = .ok r) ↔
      Coordinator.verify env resolved (claimBody taskId workerId eta bid payloadHash signedAt) sig =
        .ok () := by
  constructor
  · rintro ⟨r, hr⟩
    obtain ⟨sig', payloadHash', signedAt', hsig', hhash', hsigned', hresolve', hverify⟩ :=
      Coordinator.claimVerifyAcceptance_eq_ok hr
    cases hsig.symm.trans hsig'
    cases hhash.symm.trans hhash'
    cases hsigned.symm.trans hsigned'
    cases hresolve.symm.trans hresolve'
    exact hverify
  · intro hverify
    exact ⟨resolved, claimVerifyAcceptance_ok hsig hhash hsigned hcomplete hresolve hverify⟩

theorem typescriptAcceptance_passes_iff (hdigests : AsciiDigests env) (taskId eta : String)
    (signedAt : DateTime) (hbinds : identity.Binds
      (canonicalJsonStringify (typescriptBody identity (.str taskId) (.str eta) signedAt))) :
    (∃ resolved, claimVerifyAcceptance env (.str taskId) (.str identity.did) (.str eta)
      (typescriptAcceptance identity (.str taskId) (.str eta) signedAt) .null = .ok resolved) ↔
      Ascii (taskId.toList ++ eta.toList) := by
  obtain ⟨resolved, hresolve, hkey⟩ := resolve_did identity
  have htruthy : ∀ s : String, s ≠ "" → (Json.str s).truthy = true := fun s hs => bne_iff_ne.2 hs
  have hsig : (typescriptSign identity
      (typescriptBody identity (.str taskId) (.str eta) signedAt)).truthy = true := by
    refine htruthy _ fun hempty => ?_
    have hlength := congrArg (fun s => s.toList.length) hempty
    simp at hlength
  have hsigned : toISOString signedAt ≠ "" := by
    intro hempty
    have hmem : 'T' ∈ (toISOString signedAt).toList := by
      rw [toISOString, String.toList_ofList]
      exact List.mem_append_right _ List.mem_cons_self
    rw [hempty] at hmem
    cases hmem
  have hcomplete : (typescriptSign identity
        (typescriptBody identity (.str taskId) (.str eta) signedAt)).truthy = true ∧
      (typescriptHash env (.str taskId)).truthy = true ∧
      (Json.str (toISOString signedAt)).truthy = true :=
    ⟨hsig, htruthy _ (hdigests _).1, htruthy _ hsigned⟩
  calc (∃ resolved, claimVerifyAcceptance env (.str taskId) (.str identity.did) (.str eta)
        (typescriptAcceptance identity (.str taskId) (.str eta) signedAt) .null = .ok resolved)
      ↔ Coordinator.verify env resolved
          (canonical (typescriptBody identity (.str taskId) (.str eta) signedAt))
          (typescriptSign identity (typescriptBody identity (.str taskId) (.str eta) signedAt)) =
            .ok () := claimVerifyAcceptance_iff rfl rfl rfl hcomplete hresolve
    _ ↔ typescriptDialect.text (typescriptBody identity (.str taskId) (.str eta) signedAt) =
          pythonDialect.text (typescriptBody identity (.str taskId) (.str eta) signedAt) :=
        verify_signAs_iff identity hkey hbinds
    _ ↔ Ascii (typescriptBody identity (.str taskId) (.str eta) signedAt).chars :=
        typescript_text_iff _
    _ ↔ Ascii (taskId.toList ++ eta.toList) := typescriptBody_ascii identity hdigests taskId eta _

theorem heartbeat_passes_iff {c : WcpClaim} (hworker : c.workerId = identity.did)
    (claimId : String) (ts : DateTime) (hbinds : identity.Binds
      (canonicalJsonStringify (heartbeatBody (.str claimId) ts))) :
    eventVerify env c (.str claimId) (.str "heartbeat") (.str (toISOString ts))
      (heartbeatPayload (.str claimId))
      (typescriptSign identity (heartbeatBody (.str claimId) ts)) = .ok () ↔
        Ascii claimId.toList := by
  obtain ⟨resolved, hresolve, hkey⟩ := resolve_did identity
  have hverifies : eventVerify env c (.str claimId) (.str "heartbeat") (.str (toISOString ts))
      (heartbeatPayload (.str claimId))
      (typescriptSign identity (heartbeatBody (.str claimId) ts)) = .ok () ↔
        Coordinator.verify env resolved (canonical (heartbeatBody (.str claimId) ts))
          (typescriptSign identity (heartbeatBody (.str claimId) ts)) = .ok () := by
    constructor
    · intro hpasses
      obtain ⟨r, hr, hverify⟩ := Coordinator.eventVerify_eq_ok hpasses
      rw [hworker] at hr
      cases hresolve.symm.trans hr
      exact hverify
    · intro hverify
      rw [eventVerify, bind_eq_ok]
      refine ⟨resolved, hworker ▸ hresolve, ?_⟩
      have hbody : Coordinator.verify env resolved (eventBody (.str claimId) (.str "heartbeat")
          (.str (toISOString ts)) (heartbeatPayload (.str claimId)))
          (typescriptSign identity (heartbeatBody (.str claimId) ts)) = .ok () := hverify
      rw [hbody]
  rw [hverifies, typescriptSign, verify_signAs_iff identity hkey hbinds, typescript_text_iff]
  exact heartbeatBody_ascii claimId ts

theorem typescriptHeader_signed_iff (hdigests : AsciiDigests env)
    (mode : Coordinator.AttestationMode) (kind : String) (payload : Json) (claimId : String)
    (now : DateTime) (hbinds : identity.Binds (canonicalJsonStringify
      (typescriptEvidenceBody identity mode (.str kind) payload (.str claimId) now)))
    {db : Db} {attestations : Json} {plan : AttestPlan}
    (hplan : attestPlan env db (.str claimId) attestations = .ok plan)
    (hworker : plan.claim.workerId = identity.did) :
    (typescriptHeader identity mode (.str kind) payload (.str claimId) now).Signed env plan
      (.str claimId) ↔ Ascii (kind.toList ++ claimId.toList) := by
  obtain ⟨resolved, hresolve, hkey⟩ := resolve_did identity
  obtain ⟨-, -, -, -, -, hresolved, -⟩ := Coordinator.attestPlan_eq_ok.1 hplan
  rw [hworker] at hresolved
  cases hresolve.symm.trans hresolved
  rw [EvidenceHeader.Signed, hworker]
  have hsigned := verify_signAs_iff identity hkey hbinds
  rw [typescript_text_iff] at hsigned
  exact hsigned.trans (typescriptEvidenceBody_ascii identity hdigests mode kind payload claimId now)

/-- What the TypeScript worker and the web app send passes the checks of the coordinator exactly
where the texts that they are given are ASCII up to the tilde: an acceptance, where the id of the
task and the time to be met are; a heartbeat, where the id of the claim is; an evidence item, where
its kind and the id of the claim are, whatever its payload. -/
theorem typescript_requests_verify_iff (hdigests : AsciiDigests env) :
    (∀ (taskId eta : String) (signedAt : DateTime), identity.Binds
        (canonicalJsonStringify (typescriptBody identity (.str taskId) (.str eta) signedAt)) →
      ((∃ resolved, claimVerifyAcceptance env (.str taskId) (.str identity.did) (.str eta)
        (typescriptAcceptance identity (.str taskId) (.str eta) signedAt) .null = .ok resolved) ↔
        Ascii (taskId.toList ++ eta.toList))) ∧
    (∀ (c : WcpClaim) (claimId : String) (ts : DateTime), c.workerId = identity.did →
      identity.Binds (canonicalJsonStringify (heartbeatBody (.str claimId) ts)) →
      (eventVerify env c (.str claimId) (.str "heartbeat") (.str (toISOString ts))
        (heartbeatPayload (.str claimId))
        (typescriptSign identity (heartbeatBody (.str claimId) ts)) = .ok () ↔
        Ascii claimId.toList)) ∧
    ∀ (schemaVersion : String) (mode : Coordinator.AttestationMode) (kind : String)
      (payload : Json) (claimId : String) (now : DateTime), identity.Binds (canonicalJsonStringify
        (typescriptEvidenceBody identity mode (.str kind) payload (.str claimId) now)) →
      (typescriptHeader identity mode (.str kind) payload (.str claimId) now).Carries
        (typescriptEvidence identity schemaVersion mode (.str kind) payload (.str claimId) now)
        payload ∧
      ∀ db attestations plan, attestPlan env db (.str claimId) attestations = .ok plan →
        plan.claim.workerId = identity.did →
        ((typescriptHeader identity mode (.str kind) payload (.str claimId) now).Signed env plan
          (.str claimId) ↔ Ascii (kind.toList ++ claimId.toList)) := by
  refine ⟨fun taskId eta signedAt => ?_, fun c claimId ts hworker => ?_, ?_⟩
  · exact typescriptAcceptance_passes_iff identity hdigests taskId eta signedAt
  · exact heartbeat_passes_iff identity hworker claimId ts
  · intro schemaVersion mode kind payload claimId now hbinds
    refine ⟨⟨rfl, rfl, rfl, rfl, rfl, rfl⟩, fun db attestations plan hplan hworker => ?_⟩
    exact typescriptHeader_signed_iff identity hdigests mode kind payload claimId now hbinds hplan
      hworker

section Accented

open Wcp.Coordinator (newYear2026)

/-- What the TypeScript worker signs to claim the task with the id `café`. -/
def accentedText : String :=
  canonicalJsonStringify (typescriptBody (markedIdentity "") (.str "café") (.str "soon")
    (.utc newYear2026))

theorem typescriptBody_marked (t t' : String) (taskId eta : Json) (signedAt : DateTime) :
    typescriptBody (markedIdentity t) taskId eta signedAt =
      typescriptBody (markedIdentity t') taskId eta signedAt := rfl

/-- No acceptance of this task passes. -/
theorem typescript_requests_rejected_accented :
    ¬ ∃ resolved, claimVerifyAcceptance (markedEnv accentedText) (.str "café")
      (.str (markedIdentity accentedText).did) (.str "soon")
      (typescriptAcceptance (markedIdentity accentedText) (.str "café") (.str "soon")
        (.utc newYear2026)) .null = .ok resolved := by
  have hdigests : AsciiDigests (markedEnv accentedText) :=
    fun _ => ⟨(by decide : "#" ≠ ""), (by decide : Ascii "#".toList)⟩
  have hbinds : (markedIdentity accentedText).Binds (canonicalJsonStringify
      (typescriptBody (markedIdentity accentedText) (.str "café") (.str "soon")
        (.utc newYear2026))) := by
    rw [typescriptBody_marked accentedText "", ← accentedText]
    exact marked_binds accentedText
  rw [(typescript_requests_verify_iff (markedIdentity accentedText) hdigests).1 "café" "soon"
    (.utc newYear2026) hbinds]
  decide +kernel

end Accented

end Wcp.Sdk
