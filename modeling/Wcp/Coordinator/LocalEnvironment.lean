import Wcp.Coordinator.Calls
/-!
# An environment that evaluates

Stand-ins for everything outside the coordinator, so that a run can be computed:
the hash marks its text, a signature is accepted when it shows the signer's key,
the driver stores strings as they are and sorts stably, and the date parser
knows one date.
-/

namespace Wcp.Coordinator

open Wcp.Base

def localCrypto : Crypto where
  sha256Hex s := "#" ++ s
  ed25519Verify key sig _ := decide (sig = key)
  auditPublicKey := List.replicate 32 7
  auditSign _ := List.replicate 32 7
  auditSign_verifies _ := decide_eq_true rfl

/-- The first of January 2030, in microseconds. -/
def newYear2030 : Nat := 64029052800000000

def localInterpreter : Interpreter where
  unicode := ⟨fun c => c = ' ', fun c => if c.isDigit then some (c.toNat - 48) else none⟩
  repr := canonical
  fromisoformat s :=
    if s = "2030-01-01T00:00:00+00:00" then .ok (.utc newYear2030)
    else .error ("Invalid isoformat string: " ++ canonical (.str s))

def localDriver : Driver where
  bindText
    | .str s => some s
    | _ => none
  bindText_spec v t h := by
    cases v with
    | str s =>
        cases h
        exact .inl rfl
    | _ => cases h
  bindText_hashable v t h := by
    cases v with
    | str s => rfl
    | _ => cases h
  refusesUnsent _ := true
  bindsInt v := v.asInt.isSome
  storeTime := id
  acceptsLabel _ := false
  ascending _ rows := rows.insertionSort fun a b => a.timestamp ≤ b.timestamp
  ascending_perm _ rows := List.perm_insertionSort _ rows
  ascending_sorted _ rows :=
    haveI : IsTrans WcpAudit fun a b => a.timestamp ≤ b.timestamp := ⟨fun _ _ _ => Nat.le_trans⟩
    haveI : Std.Total fun a b : WcpAudit => a.timestamp ≤ b.timestamp :=
      ⟨fun _ _ => Nat.le_total _ _⟩
    List.pairwise_insertionSort _ rows
  descending _ rows := rows.insertionSort fun a b => b.timestamp ≤ a.timestamp
  descending_perm _ rows := List.perm_insertionSort _ rows
  descending_sorted _ rows :=
    haveI : IsTrans WcpAudit fun a b => b.timestamp ≤ a.timestamp :=
      ⟨fun _ _ _ h h' => Nat.le_trans h' h⟩
    haveI : Std.Total fun a b : WcpAudit => b.timestamp ≤ a.timestamp :=
      ⟨fun _ _ => Nat.le_total _ _⟩
    List.pairwise_insertionSort _ rows

/-- The first of January 2026, in microseconds. -/
def newYear2026 : Nat := 63902822400000000

theorem newYear2026_isText : isFloatText "1767225600.0".toList = true := by decide

def localEnv : Env where
  toCrypto := localCrypto
  toInterpreter := localInterpreter
  toDriver := localDriver
  clock n := newYear2026 + n % microsPerDay
  clock_lt n := by
    have h := Nat.mod_lt n (show 0 < microsPerDay by decide)
    unfold newYear2026 maxMicros
    unfold microsPerDay at h ⊢
    omega
  uuid n := "id-" ++ Nat.repr n
  uuid_ne_empty n h := by simpa using congrArg String.length h
  registry := defaultRegistry

theorem localEnv_sha256Hex_injective : Function.Injective localEnv.sha256Hex := by
  intro s t h
  have htext : ("#" ++ s).toList = ("#" ++ t).toList := congrArg String.toList h
  rw [String.toList_append, String.toList_append] at htext
  exact String.toList_injective (List.append_cancel_left htext)

theorem localEnv_bindText_spec (v : Json) (t : String) (h : localEnv.bindText v = some t) :
    v = .str t ∨ ((∀ s, v ≠ .str s) ∧ '_' ∉ t.toList) :=
  localEnv.bindText_spec v t h

theorem localEnv_bindText_hashable (v : Json) (t : String) (h : localEnv.bindText v = some t) :
    v.hashable = true :=
  localEnv.bindText_hashable v t h

theorem localEnv_descending_perm (n : Nat) (rows : List WcpAudit) :
    (localEnv.descending n rows).Perm rows :=
  localEnv.descending_perm n rows

theorem localEnv_descending_sorted (n : Nat) (rows : List WcpAudit) :
    (localEnv.descending n rows).Pairwise fun a b => b.timestamp ≤ a.timestamp :=
  localEnv.descending_sorted n rows

theorem localEnv_sha256Hex_ne_empty (s : String) : localEnv.sha256Hex s ≠ "" := by
  intro h
  have hlength : ("#" ++ s).toList.length = 0 := by
    rw [show ("#" ++ s) = "" from h]
    rfl
  simp at hlength

def zeroDid : String := "did:wcp:11111111111111111111111111111111"

/-- The DID of the key whose last byte is one. -/
def oneDid : String := "did:wcp:11111111111111111111111111111112"

/-- The signature of the all-zero key. -/
def zeroSig : Json := .str "ed25519:AAAAAAAAAAAAAAAAAAAAAAAAAAAAAAAAAAAAAAAAAAA"

/-- The signature of the key whose last byte is one. -/
def oneSig : Json := .str "ed25519:AAAAAAAAAAAAAAAAAAAAAAAAAAAAAAAAAAAAAAAAAAE"

def zeroWorker : WcpWorker where
  workerId := zeroDid
  principalId := zeroDid
  workerClass := .human
  capabilitiesJson := .obj []
  revision := 1
  ttlSeconds := .int 3600
  asOf := .utc newYear2026

/-! ## A task from post to attestation -/

def localDate : Json := .str "2030-01-01T00:00:00Z"

/-- A task with a given attestation requirement. -/
def localTask (requirement : List (String × Json)) : Json := .obj [
  ("task_id", .str "t1"),
  ("posted_by", .str oneDid),
  ("attestation_requirement", .obj requirement)]

/-- One passing item of sensor evidence is enough. -/
def anySensor : List (String × Json) := [
  ("modes", .arr [.str "sensor-witness"]),
  ("threshold", .str "any")]

/-- An acceptance signed with some signature. -/
def localAcceptance (sig : Json) : Json := .obj [
  ("sig", sig),
  ("payload_hash", .str "h"),
  ("signed_at", .str "now")]

def localClaimId : Json := .str "id-6"

/-- Post a task, claim it and start executing. -/
def localStart (requirement : List (String × Json)) : List Call := [
  .post (localTask requirement) localDate .null,
  .claim (.str "t1") (.str zeroDid) localDate (localAcceptance zeroSig) .null,
  .executeOpen localClaimId]

/-- The calls of the local run up to its claim. -/
def localClaim : List Call := (localStart anySensor).take 2

/-- An evidence item of a mode and a kind. -/
def localEvidence (mode kind : String) (payload : List (String × Json)) : Json := .obj [
  ("mode", .str mode),
  ("kind", .str kind),
  ("payload", .obj payload),
  ("payload_hash", .str "h"),
  ("collected_at", localDate),
  ("sig", zeroSig)]

def coverageEvidence : Json :=
  localEvidence "sensor-witness" "coverage_map" [("covered_polygon", .arr [])]

/-- Evidence of another coverage map, which passes too. -/
def otherCoverage : Json :=
  localEvidence "sensor-witness" "coverage_map" [("covered_polygon", .arr [.int 1])]

/-- Post, claim and execute a task, and complete it at the first attempt. -/
def localCompleted : List Call :=
  localStart anySensor ++ [.attest localClaimId (.arr [coverageEvidence])]

end Wcp.Coordinator
