import Wcp.Coordinator.Identifiers
import Wcp.Coordinator.LocalEnvironment
/-!
# Identities of the Python SDK

The SDK carries its own copy of the base58 functions and its own reading of a DID.
Identifiers and keys correspond one to one, and the SDK and the coordinator agree
on every text (`did_key_correspondence`).
-/

namespace Wcp.Sdk

open Wcp.Base

/-- `_b58encode` of the SDK, the text of the coordinator's. -/
def b58encode (b : List UInt8) : List Char := Coordinator.b58encode b

/-- `_b58decode` of the SDK, the text of the coordinator's. -/
def b58decode (s : List Char) : Except Char (List UInt8) := Coordinator.b58decode s

section Did

variable {ε : Type}

def didFromPubkey (pubkey : List UInt8) : Except (PyErr ε) String :=
  if pubkey.length ≠ 32 then throw (.valueError "Ed25519 public key must be 32 bytes")
  else return "did:wcp:" ++ String.ofList (b58encode pubkey)

/-- `pubkey_from_did`; `repr` is the interpreter's. -/
def pubkeyFromDid (repr : Json → String) (did : String) : Except (PyErr ε) (List UInt8) :=
  if "did:wcp:".toList.isPrefixOf did.toList = false then
    throw (.valueError ("not a did:wcp: " ++ repr (.str did)))
  else
    match Coordinator.splitColon 3 did.toList with
    | _ :: _ :: body :: _ =>
        match b58decode body with
        | .error c =>
            throw (.valueError ("invalid base58 character: " ++ repr (.str (String.singleton c))))
        | .ok pk =>
            if pk.length ≠ 32 then
              throw (.valueError
                ("did:wcp identifier must decode to 32-byte Ed25519 pubkey, got " ++
                Nat.repr pk.length ++ " bytes"))
            else return pk
    | _ => throw (.valueError ("malformed DID: " ++ repr (.str did)))

end Did

/-- An encoder and a decoder of base58 that undo each other. -/
structure Base58 (encode : List UInt8 → List Char)
    (decode : List Char → Except Char (List UInt8)) : Prop where
  decode_encode : ∀ b, decode (encode b) = .ok b
  encode_decode : ∀ s, (∀ c ∈ s, c ∈ Coordinator.b58) → ∃ b, decode s = .ok b ∧ encode b = s
  raises_iff : ∀ s, (∃ c, decode s = .error c) ↔ ∃ c ∈ s, c ∉ Coordinator.b58

theorem base58_coordinator : Base58 Coordinator.b58encode Coordinator.b58decode where
  decode_encode := Coordinator.b58decode_b58encode
  encode_decode _ := Coordinator.b58encode_b58decode
  raises_iff := Coordinator.b58decode_error_iff

theorem base58_sdk : Base58 b58encode b58decode := base58_coordinator

variable {ε : Type} {env : Coordinator.Env}

theorem pubkeyFromDid_eq_ok_iff {repr : Json → String} {s : String} {pk : List UInt8} :
    (pubkeyFromDid repr s : Except (PyErr ε) _) = .ok pk ↔
      ∃ path, Coordinator.NamesKey s.toList pk path := by
  constructor
  · intro h
    unfold pubkeyFromDid at h
    split at h
    · cases h
    next hprefix =>
    rw [Bool.not_eq_false, List.isPrefixOf_iff_prefix] at hprefix
    obtain ⟨t, ht⟩ := hprefix
    rw [← ht, Coordinator.splitColon_wcp] at h
    cases hsplit : Coordinator.splitColon 1 t with
    | nil =>
        rw [hsplit] at h
        cases h
    | cons id rest =>
        rw [hsplit] at h
        dsimp only at h
        split at h
        · cases h
        next key hkey =>
        split at h
        · cases h
        next hlength =>
        cases h
        exact ⟨rest.head?, t, id, rest, ht.symm, hsplit, hkey, not_not.1 hlength, rfl⟩
  · rintro ⟨path, t, id, rest, hs, ht, hkey, hlength, -⟩
    have hdecode : b58decode id = .ok pk := hkey
    simp only [pubkeyFromDid, hs, Coordinator.splitColon_wcp, ht, hdecode, hlength]
    rfl

theorem resolve_didFromPubkey {k : List UInt8} (hk : k.length = 32) :
    ∃ d r, Coordinator.didFromPubkey k = .ok d ∧ (didFromPubkey k : Except (PyErr ε) _) = .ok d ∧
      Coordinator.resolve env (.str d) = .ok r ∧ r.publicKey = k ∧ r.path = none := by
  have hcolon : ':' ∉ Coordinator.b58encode k := by
    intro h
    exact absurd (Coordinator.b58encode_mem k ':' h) (by decide)
  have hsplit : Coordinator.splitColon 1 (Coordinator.b58encode k) = [Coordinator.b58encode k] := by
    rcases Coordinator.splitColon_cases 0 (Coordinator.b58encode k) with ⟨-, h⟩ | ⟨t, r, h, -⟩
    · exact h
    · exact absurd (by rw [h]; simp) hcolon
  refine ⟨"did:wcp:" ++ String.ofList (Coordinator.b58encode k),
    ⟨"did:wcp:" ++ String.ofList (Coordinator.b58encode k), k, none⟩, ?_, ?_, ?_, rfl, rfl⟩
  · rw [Coordinator.didFromPubkey, if_neg (not_not.2 hk)]
    rfl
  · rw [didFromPubkey, if_neg (not_not.2 hk)]
    rfl
  · rw [Coordinator.resolve_eq_ok_iff]
    refine ⟨none, ⟨Coordinator.b58encode k, _, [], ?_, hsplit, ?_, hk, rfl⟩, rfl, rfl⟩
    · exact String.toList_append.trans (congrArg _ String.toList_ofList)
    · exact Coordinator.b58decode_b58encode k

/-- Two identifiers of one key, neither with a path, are the same text. -/
theorem did_unique {d d' : String} {r r' : Coordinator.ResolvedDID}
    (hd : Coordinator.resolve env (.str d) = .ok r)
    (hd' : Coordinator.resolve env (.str d') = .ok r') (hpath : r.path = none)
    (hpath' : r'.path = none) (hkey : r.publicKey = r'.publicKey) : d = d' := by
  have htext : ∀ {s : String} {r : Coordinator.ResolvedDID},
      Coordinator.resolve env (.str s) = .ok r → r.path = none →
      ∃ id, s.toList = "did:wcp:".toList ++ id ∧ Coordinator.b58decode id = .ok r.publicKey := by
    intro s r hs hnone
    obtain ⟨path, ⟨t, id, rest, hs, ht, hkey, -, rfl⟩, -, hpath⟩ :=
      Coordinator.resolve_eq_ok_iff.1 hs
    rw [hnone, eq_comm, Option.map_eq_none_iff, List.head?_eq_none_iff] at hpath
    subst hpath
    rcases Coordinator.splitColon_cases 0 t with ⟨-, hone⟩ | ⟨u, v, -, -, htwo⟩
    · obtain ⟨rfl, -⟩ := List.cons.inj (hone.symm.trans ht)
      exact ⟨t, hs, hkey⟩
    · cases (List.cons.inj (htwo.symm.trans ht)).2
  obtain ⟨id, hs, hid⟩ := htext hd hpath
  obtain ⟨id', hs', hid'⟩ := htext hd' hpath'
  rw [hkey] at hid
  rw [← String.toList_inj, hs, hs', Coordinator.b58decode_inj hid hid']

/-- On every text the SDK and the coordinator both reject or find the same key. -/
theorem pubkeyFromDid_agrees (repr : Json → String) (s : String) :
    (∃ r, Coordinator.resolve env (.str s) = .ok r ∧
        (pubkeyFromDid repr s : Except (PyErr ε) _) = .ok r.publicKey) ∨
      (∃ e, Coordinator.resolve env (.str s) = .error e) ∧
        ∃ e, (pubkeyFromDid repr s : Except (PyErr ε) _) = .error e := by
  cases hr : Coordinator.resolve env (.str s) with
  | ok r =>
      obtain ⟨path, hnames, -, -⟩ := Coordinator.resolve_eq_ok_iff.1 hr
      exact .inl ⟨r, rfl, pubkeyFromDid_eq_ok_iff.2 ⟨path, hnames⟩⟩
  | error e =>
      right
      refine ⟨⟨e, rfl⟩, ?_⟩
      cases hk : (pubkeyFromDid repr s : Except (PyErr ε) _) with
      | error e => exact ⟨e, rfl⟩
      | ok pk =>
          obtain ⟨path, hnames⟩ := pubkeyFromDid_eq_ok_iff.1 hk
          have hok : Coordinator.resolve env (.str s) = .ok ⟨s, pk, path.map String.ofList⟩ :=
            Coordinator.resolve_eq_ok_iff.2 ⟨path, hnames, rfl, rfl⟩
          cases hok.symm.trans hr

/-- Identifiers and keys correspond one to one, for the SDK as for the coordinator. -/
theorem did_key_correspondence (env : Coordinator.Env) :
    Base58 Coordinator.b58encode Coordinator.b58decode ∧ Base58 b58encode b58decode ∧
      (∀ k : List UInt8, k.length = 32 → ∃ d r, Coordinator.didFromPubkey k = .ok d ∧
        (didFromPubkey k : Except Coordinator.Err String) = .ok d ∧
        Coordinator.resolve env (.str d) = .ok r ∧ r.publicKey = k ∧ r.path = none) ∧
      (∀ d d' r r', Coordinator.resolve env (.str d) = .ok r →
        Coordinator.resolve env (.str d') = .ok r' → r.path = none → r'.path = none →
        r.publicKey = r'.publicKey → d = d') ∧
      ∀ s, (∃ r, Coordinator.resolve env (.str s) = .ok r ∧
          (pubkeyFromDid env.repr s : Except Coordinator.Err _) = .ok r.publicKey) ∨
        (∃ e, Coordinator.resolve env (.str s) = .error e) ∧
          ∃ e, (pubkeyFromDid env.repr s : Except Coordinator.Err _) = .error e := by
  refine ⟨base58_coordinator, base58_sdk, fun k hk => ?_, fun d d' r r' hd hd' => ?_, fun s => ?_⟩
  · exact resolve_didFromPubkey hk
  · exact did_unique hd hd'
  · exact pubkeyFromDid_agrees env.repr s

/-- A key with leading zeros, and an identifier compared with itself. -/
theorem did_key_correspondence_zeros :
    (∃ d r, Coordinator.didFromPubkey (List.replicate 31 0 ++ [1]) = .ok d ∧
      (didFromPubkey (List.replicate 31 0 ++ [1]) : Except Coordinator.Err String) = .ok d ∧
      Coordinator.resolve Coordinator.localEnv (.str d) = .ok r ∧
      r.publicKey = List.replicate 31 0 ++ [1] ∧ r.path = none) ∧
    ∃ r, Coordinator.resolve Coordinator.localEnv (.str Coordinator.zeroDid) = .ok r ∧
      ∀ d r', Coordinator.resolve Coordinator.localEnv (.str d) = .ok r' → r'.path = none →
        r'.publicKey = r.publicKey → d = Coordinator.zeroDid := by
  obtain ⟨-, -, hkey, hunique, -⟩ := did_key_correspondence Coordinator.localEnv
  have hzero : Coordinator.resolve Coordinator.localEnv (.str Coordinator.zeroDid) =
      .ok ⟨Coordinator.zeroDid, List.replicate 32 0, none⟩ := by decide +kernel
  refine ⟨hkey _ (by decide), _, hzero, fun d r' hd hpath hpk => ?_⟩
  exact hunique d _ r' _ hd hzero hpath rfl hpk

end Wcp.Sdk
