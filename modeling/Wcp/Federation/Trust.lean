import Wcp.Base.Runs
import Wcp.Coordinator.DidResolver
import Wcp.Federation.Imports
import Wcp.Federation.Steps
/-!
# Trust over time

Anchors are added and removed, time passes, peers are picked and tasks are
forwarded, in any order.  `forward_task` asks only whether the store holds some
anchor for the peer, so a call out of it is licensed exactly where that anchor is
live and has the endpoint of the anchor handed in (`forwards_licensed_iff`).
`add` checks a signature against the key that the anchor carries, so the store
holds the peer's own word where that key is the one of the peer's DID
(`stored_signed_by_peer`).
-/

namespace Wcp.Federation

open Wcp.Base
open Wcp.Base.Exec
open Wcp.Coordinator

/-! ## Runs -/

/-- The calls of the federation layer that read or change the store, and the passing of time. -/
inductive FederationCall where
  | wait
  | add (anchor : TrustAnchor)
  | remove (audited : Bool) (peerDid reason : String)
  | pickPeer (descriptorType : String) (allowed : Option (List (String × List String)))
  | forwardTask (forwarder : Option Forwarder) (peer : TrustAnchor) (task : List (String × Json))
      (expiry : String) (informational : List (String × Json))

variable (env : FederationEnv)

/-- The state after a call. -/
def advance (f : FederationState) : FederationCall → FederationState
  | .wait => f.ticked
  | .add anchor => (add env anchor f).2
  | .remove audited peerDid reason => (remove env audited peerDid reason f).2
  | .pickPeer descriptorType allowed => (pickPeer env descriptorType allowed f).2
  | .forwardTask forwarder peer task expiry informational =>
      (forwardTask env forwarder peer task expiry informational f).2

/-- The state after a sequence of calls, from an empty store. -/
def federated (w : World) (calls : List FederationCall) : FederationState :=
  run (advance env) ⟨w, .empty, []⟩ calls

variable {env} {f : FederationState} {w : World}

/-- What a call does to the store: it stores a verified anchor, drops one or leaves the store
alone. -/
theorem advance_anchors (call : FederationCall) :
    (advance env f call).anchors = f.anchors ∨
      (∃ anchor, call = .add anchor ∧ anchor.verifySignature env.toEnv = true ∧
        (advance env f call).anchors = f.anchors.set anchor.peerCoordinatorDid anchor) ∨
      ∃ peerDid, (advance env f call).anchors = f.anchors.pop peerDid := by
  cases call with
  | wait => exact .inl rfl
  | add anchor =>
      rcases (@add_ends env f anchor).2 with hsame | ⟨hset, hverify⟩
      · exact .inl hsame
      · exact .inr (.inl ⟨anchor, rfl, hverify, hset⟩)
  | remove audited peerDid reason =>
      rcases (@remove_ends env f audited peerDid reason).2 with hsame | hpop
      · exact .inl hsame
      · exact .inr (.inr ⟨peerDid, hpop⟩)
  | pickPeer descriptorType allowed =>
      exact .inl (@pickPeer_ends env f descriptorType allowed).1.2
  | forwardTask forwarder peer task expiry informational =>
      exact .inl (@forwardTask_ends env f forwarder peer task expiry informational).1

theorem advance_get {call : FederationCall} {did : String} {a : TrustAnchor}
    (h : (advance env f call).anchors.get did = some a) :
    f.anchors.get did = some a ∨
      (call = .add a ∧ did = a.peerCoordinatorDid ∧ a.verifySignature env.toEnv = true) := by
  rcases @advance_anchors env f call with hsame | ⟨anchor, rfl, hverify, hset⟩ | ⟨peerDid, hpop⟩
  · exact .inl (hsame ▸ h)
  · rw [hset] at h
    rcases Dict.get_set h with ⟨hdid, rfl⟩ | ⟨-, hbefore⟩
    · exact .inr ⟨rfl, hdid, hverify⟩
    · exact .inl hbefore
  · rw [hpop] at h
    exact .inl (Dict.get_pop h).2

/-- Every anchor that a run leaves in the store was added by one of its calls, under its own DID
and with a signature that verifies under its own key. -/
theorem federated_get {calls : List FederationCall} {did : String} {a : TrustAnchor}
    (h : (federated env w calls).anchors.get did = some a) :
    .add a ∈ calls ∧ did = a.peerCoordinatorDid ∧ a.verifySignature env.toEnv = true := by
  have hinv : ∀ did a, (federated env w calls).anchors.get did = some a →
      .add a ∈ calls ∧ did = a.peerCoordinatorDid ∧ a.verifySignature env.toEnv = true := by
    refine @run_invariant _ _ (advance env) (fun f => ∀ did a, f.anchors.get did = some a →
      .add a ∈ calls ∧ did = a.peerCoordinatorDid ∧ a.verifySignature env.toEnv = true)
      (· ∈ calls) ?_ _ calls ?_ fun call hcall => hcall
    · intro f call hf hcall did a ha
      rcases advance_get ha with hbefore | ⟨rfl, hdid, hverify⟩
      · exact hf did a hbefore
      · exact ⟨hcall, hdid, hverify⟩
    · intro did a ha
      cases ha
  exact hinv did a h

/-! ## Forwarding -/

/-- The anchor handed to a call that may go out. -/
def FederationCall.outbound : FederationCall → Option TrustAnchor
  | .forwardTask (some _) peer _ _ _ => some peer
  | _ => none

/-- Whatever the call sends goes to the endpoint of an anchor that is stored for the peer and
allows capability discovery at that moment. -/
def Licensed (env : FederationEnv) (f : FederationState) (call : FederationCall) : Prop :=
  ∀ sent ∈ (advance env f call).sent.drop f.sent.length, ∃ peer stored,
    call.outbound = some peer ∧ f.anchors.get peer.peerCoordinatorDid = some stored ∧
      stored.allows "capability_discovery" (env.time f.world.tick) = true ∧
      sent.url = stored.peerEndpointUrl

/-- The anchor stored for the peer, if any, is live and has the endpoint of the one handed in. -/
def Current (env : FederationEnv) (f : FederationState) (call : FederationCall) : Prop :=
  ∀ peer stored, call.outbound = some peer → f.anchors.get peer.peerCoordinatorDid = some stored →
    stored.allows "capability_discovery" (env.time f.world.tick) = true ∧
      stored.peerEndpointUrl = peer.peerEndpointUrl

theorem advance_sent (call : FederationCall) :
    (∃ peer stored params, call.outbound = some peer ∧
      f.anchors.get peer.peerCoordinatorDid = some stored ∧
      (advance env f call).sent.drop f.sent.length =
        [⟨peer.peerEndpointUrl, "tasks/post", params⟩]) ∨
    ((∀ peer, call.outbound = some peer → f.anchors.get peer.peerCoordinatorDid = none) ∧
      (advance env f call).sent.drop f.sent.length = []) := by
  have hquiet : ∀ {g : FederationState}, g.sent = f.sent → g.sent.drop f.sent.length = [] := by
    intro g hg
    rw [hg, List.drop_length]
  cases call with
  | wait => exact .inr ⟨nofun, hquiet rfl⟩
  | add anchor => exact .inr ⟨nofun, hquiet (@add_ends env f anchor).1⟩
  | remove audited peerDid reason =>
      exact .inr ⟨nofun, hquiet (@remove_ends env f audited peerDid reason).1⟩
  | pickPeer descriptorType allowed =>
      exact .inr ⟨nofun, hquiet (@pickPeer_ends env f descriptorType allowed).1.1⟩
  | forwardTask forwarder peer task expiry informational =>
      have hsent : (advance env f
          (.forwardTask forwarder peer task expiry informational)).sent = _ :=
        (@forwardTask_ends env f forwarder peer task expiry informational).2
      rw [hsent, List.drop_left]
      cases forwarder with
      | none => exact .inr ⟨nofun, rfl⟩
      | some forwarder =>
          cases hstored : f.anchors.get peer.peerCoordinatorDid with
          | none =>
              refine .inr ⟨?_, rfl⟩
              intro peer' hpeer
              cases hpeer
              exact hstored
          | some stored => exact .inl ⟨peer, stored, _, rfl, hstored, rfl⟩

theorem licensed_iff_current (call : FederationCall) :
    Licensed env f call ↔ Current env f call := by
  unfold Licensed
  rcases @advance_sent env f call with
    ⟨peer, stored, params, hpeer, hstored, hsent⟩ | ⟨hnone, hsent⟩
  · rw [hsent, List.forall_mem_singleton]
    constructor
    · rintro ⟨peer', stored', hpeer', hstored', hallows, hurl⟩ peer'' stored'' hpeer'' hstored''
      cases hpeer.symm.trans hpeer'
      cases hpeer.symm.trans hpeer''
      cases hstored'.symm.trans hstored''
      exact ⟨hallows, hurl.symm⟩
    · intro h
      obtain ⟨hallows, hurl⟩ := h peer stored hpeer hstored
      exact ⟨peer, stored, hpeer, hstored, hallows, hurl.symm⟩
  · rw [hsent]
    refine ⟨fun _ peer stored hpeer hstored => ?_, fun _ => nofun⟩
    cases (hnone peer hpeer).symm.trans hstored

/-- An anchor that was stored for a peer still is, or none is, while no other one is added for
the peer. -/
theorem run_keeps_anchor {calls : List FederationCall} {peer : TrustAnchor}
    (hadds : ∀ a, .add a ∈ calls → a.peerCoordinatorDid ≠ peer.peerCoordinatorDid)
    (h : f.anchors.get peer.peerCoordinatorDid = some peer) {a : TrustAnchor}
    (ha : (run (advance env) f calls).anchors.get peer.peerCoordinatorDid = some a) : a = peer := by
  have hinv : ∀ a, (run (advance env) f calls).anchors.get peer.peerCoordinatorDid = some a →
      a = peer := by
    refine @run_invariant _ _ (advance env)
      (fun f => ∀ a, f.anchors.get peer.peerCoordinatorDid = some a → a = peer)
      (· ∈ calls) ?_ _ calls ?_ fun call hcall => hcall
    · intro f call hf hcall a ha
      rcases advance_get ha with hbefore | ⟨rfl, hdid, -⟩
      · exact hf a hbefore
      · exact absurd hdid.symm (hadds a hcall)
    · intro a ha
      exact Option.some.inj (ha.symm.trans h)
  exact hinv a ha

/-- In every run, what a call sends is licensed exactly if the stored anchor is current; and it is
where the anchor was picked, no other one was added for the peer since and it is not expired. -/
theorem forwards_licensed_iff (env : FederationEnv) (w : World) :
    (∀ (before : List FederationCall) (call : FederationCall),
      Licensed env (federated env w before) call ↔ Current env (federated env w before) call) ∧
    ∀ (before between : List FederationCall) (descriptorType : String)
      (allowed : Option (List (String × List String))) (peer : TrustAnchor)
      (forwarder : Option Forwarder) (task : List (String × Json)) (expiry : String)
      (informational : List (String × Json)),
      (pickPeer env descriptorType allowed (federated env w before)).1 = .ok (some peer) →
      (∀ a, .add a ∈ between → a.peerCoordinatorDid ≠ peer.peerCoordinatorDid) →
      peer.isExpired (env.time (federated env w
        (before ++ .pickPeer descriptorType allowed :: between)).world.tick) = false →
      Licensed env (federated env w (before ++ .pickPeer descriptorType allowed :: between))
        (.forwardTask forwarder peer task expiry informational) := by
  refine ⟨fun before call => licensed_iff_current call, ?_⟩
  intro before between descriptorType allowed peer forwarder task expiry informational hpick hadds
    hlive
  rw [licensed_iff_current]
  intro peer' stored hpeer hstored
  have hpicked := (@pickPeer_ends env (federated env w before) descriptorType allowed).2 peer hpick
  have hsame := (@pickPeer_ends env (federated env w before) descriptorType allowed).1.2
  -- the picked anchor is stored under its own DID
  obtain ⟨did, hget⟩ := Dict.mem_values_iff.1 hpicked.1
  have hdid := (federated_get hget).2.1
  have heq : peer' = peer := by
    cases forwarder with
    | none => cases hpeer
    | some forwarder => exact (Option.some.inj hpeer).symm
  subst heq
  have hkept : stored = peer' := by
    refine @run_keeps_anchor env (advance env (federated env w before)
      (.pickPeer descriptorType allowed)) between peer' hadds ?_ stored ?_
    · show (pickPeer env descriptorType allowed (federated env w before)).2.anchors.get _ = _
      rw [hsame, ← hdid, hget]
    · rw [federated, run_append] at hstored
      exact hstored
  subst hkept
  have hallows : stored.allows "capability_discovery" (env.time (federated env w
      (before ++ .pickPeer descriptorType allowed :: between)).world.tick) = true := by
    simp [TrustAnchor.allows, hpicked.2, hlive]
  exact ⟨hallows, rfl⟩

/-! ### A peer that moves -/

/-- A forwarder whose peer accepts everything. -/
def acceptAll : Forwarder := fun _ _ _ => .ok (.obj [])

theorem forwards_licensed_iff_picked :
    Licensed localFederation
      (federated localFederation (initial [zeroWorker]) [.add localPeer, .pickPeer "" none])
      (.forwardTask (some acceptAll) localPeer [] "2030-01-01T00:00:00Z" []) :=
  (forwards_licensed_iff localFederation (initial [zeroWorker])).2 [.add localPeer] [] "" none
    localPeer (some acceptAll) [] "2030-01-01T00:00:00Z" [] (by decide +kernel) nofun
    (by decide +kernel)

/-- The same peer at another endpoint. -/
def movedPeer : TrustAnchor := { localPeer with peerEndpointUrl := "https://moved.example" }

/-- The peer is picked and replaced, and the task still goes to its old endpoint. -/
theorem forward_to_replaced_endpoint :
    ¬Licensed localFederation
      (federated localFederation (initial [zeroWorker])
        [.add localPeer, .pickPeer "" none, .add movedPeer])
      (.forwardTask (some acceptAll) localPeer [] "2030-01-01T00:00:00Z" []) := by
  intro h
  have hsent : ((advance localFederation (federated localFederation (initial [zeroWorker])
      [.add localPeer, .pickPeer "" none, .add movedPeer])
      (.forwardTask (some acceptAll) localPeer [] "2030-01-01T00:00:00Z" [])).sent.drop
        (federated localFederation (initial [zeroWorker])
          [.add localPeer, .pickPeer "" none, .add movedPeer]).sent.length).map (·.url) =
        ["https://peer.example"] := by decide +kernel
  have hstored : (federated localFederation (initial [zeroWorker])
      [.add localPeer, .pickPeer "" none, .add movedPeer]).anchors.get zeroDid =
        some movedPeer := by decide +kernel
  obtain ⟨sent, hmem, hurl⟩ := List.map_eq_singleton_iff.1 hsent
  obtain ⟨peer, stored, hpeer, hget, -, hlicensed⟩ := h sent (by rw [hmem]; simp)
  cases hpeer
  cases hget.symm.trans hstored
  rw [hurl] at hlicensed
  exact absurd hlicensed (by decide)

/-! ## Signatures -/

/-- The signature of the anchor is one by the key that its DID resolves to: it verifies under the
key, and the key's holder signed the anchor. -/
def SignedByPeer (env : FederationEnv) (signed : List UInt8 → String → Prop) (a : TrustAnchor) :
    Prop :=
  ∀ r, resolve env.toEnv (.str a.peerCoordinatorDid) = .ok r →
    ed25519VerifyText env.toEnv r.publicKey a.signedBody a.signature = true ∧
      signed r.publicKey a.signedBody

/-- An anchor that is added carries the key that its DID resolves to. -/
def KeyOfDid (env : FederationEnv) : FederationCall → Prop
  | .add a => ∀ r, resolve env.toEnv (.str a.peerCoordinatorDid) = .ok r →
      a.peerPublicKey = r.publicKey
  | _ => True

theorem verify_of_ed25519VerifyText {env : Env} {key : List UInt8} {data signature : String}
    (h : ed25519VerifyText env key data signature = true) :
    ∃ sig, env.ed25519Verify key sig data = true := by
  unfold ed25519VerifyText at h
  split at h
  · dsimp only at h
    split at h
    · next sig _ => exact ⟨sig, (Bool.and_eq_true_iff.1 h).2⟩
    · cases h
  · cases h

/-- Where signatures cannot be forged, in every state that a run reaches whose added anchors carry
the keys of their DIDs, every stored anchor is signed by the peer it names. -/
theorem stored_signed_by_peer (env : FederationEnv) (signed : List UInt8 → String → Prop)
    (hunforgeable : ∀ key sig data, env.ed25519Verify key sig data = true → signed key data)
    (w : World) (calls : List FederationCall) (hkeys : ∀ call ∈ calls, KeyOfDid env call)
    (did : String) (a : TrustAnchor) (h : (federated env w calls).anchors.get did = some a) :
    SignedByPeer env signed a := by
  obtain ⟨hadd, -, hverify⟩ := federated_get h
  intro r hr
  have hkey : a.peerPublicKey = r.publicKey := hkeys _ hadd r hr
  have hpeer : ed25519VerifyText env.toEnv r.publicKey a.signedBody a.signature = true := by
    rw [← hkey]
    exact hverify
  obtain ⟨sig, hsig⟩ := verify_of_ed25519VerifyText hpeer
  exact ⟨hpeer, hunforgeable _ sig _ hsig⟩

/-! ### A key of one's own -/

theorem stored_signed_by_peer_local :
    (federated localFederation (initial [zeroWorker]) [.add localPeer]).anchors.get zeroDid =
        some localPeer ∧
      SignedByPeer localFederation
        (fun key data => ∃ sig, localFederation.ed25519Verify key sig data = true) localPeer := by
  have hstored : (federated localFederation (initial [zeroWorker])
      [.add localPeer]).anchors.get zeroDid = some localPeer := by decide +kernel
  refine ⟨hstored, ?_⟩
  refine stored_signed_by_peer localFederation _ (fun key sig data h => ⟨sig, h⟩)
    (initial [zeroWorker]) [.add localPeer] ?_ zeroDid localPeer hstored
  intro call hcall
  obtain rfl := List.mem_singleton.1 hcall
  intro r hr
  have hzero : (resolve localEnv (.str zeroDid)).map (·.publicKey) = .ok (List.replicate 32 0) := by
    decide +kernel
  have hkey : (resolve localEnv (.str zeroDid)).map (·.publicKey) = .ok r.publicKey :=
    congrArg (Except.map (·.publicKey)) hr
  exact Except.ok.inj (hzero.symm.trans hkey)

/-- Signatures of a world in which the holder of the all-zero key never signed anything. -/
def silentCrypto : Crypto where
  sha256Hex := localCrypto.sha256Hex
  ed25519Verify key sig _ := decide (key ≠ List.replicate 32 0) && decide (sig = key)
  auditPublicKey := localCrypto.auditPublicKey
  auditSign := localCrypto.auditSign
  auditSign_verifies _ := rfl

def silentFederation : FederationEnv where
  toEnv := { localEnv with toCrypto := silentCrypto }
  time := localFederation.time

/-- An anchor for the all-zero key's DID under another key. -/
def forgedPeer : TrustAnchor :=
  { localPeer with
    peerPublicKey := List.replicate 31 0 ++ [1]
    signature := "ed25519:AAAAAAAAAAAAAAAAAAAAAAAAAAAAAAAAAAAAAAAAAAE" }

/-- It is stored although the peer never signed anything. -/
theorem forged_anchor_stored :
    (∀ key sig data, silentFederation.ed25519Verify key sig data = true →
      key ≠ List.replicate 32 0) ∧
    (federated silentFederation (initial [zeroWorker]) [.add forgedPeer]).anchors.get zeroDid =
      some forgedPeer ∧
    ¬SignedByPeer silentFederation (fun key _ => key ≠ List.replicate 32 0) forgedPeer := by
  refine ⟨?_, by decide +kernel, ?_⟩
  · intro key sig data h
    exact of_decide_eq_true (Bool.and_eq_true_iff.1 h).1
  · intro h
    have hzero : (resolve silentFederation.toEnv (.str zeroDid)).map (·.publicKey) =
        .ok (List.replicate 32 0) := by decide +kernel
    cases hr : resolve silentFederation.toEnv (.str zeroDid) with
    | error e =>
        rw [hr] at hzero
        cases hzero
    | ok r =>
        rw [hr] at hzero
        exact (h r hr).2 (Except.ok.inj hzero)

end Wcp.Federation
