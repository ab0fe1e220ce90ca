import Wcp.Federation.Commitment
import Wcp.Federation.Steps
/-!
# What an import proves

`import_peer_chain` reports whatever the walk of the fetched list says, and names
the event that ends the task before it looks at the verdict.  Its report is right
(`Proven`) exactly when the list is not of a kind that the import does not tell
apart from an honest one (`Misleading`).
-/

namespace Wcp.Federation

open Wcp.Base
open Wcp.Base.Exec
open Wcp.Coordinator

variable {env : FederationEnv} {peer : TrustAnchor} {claimId : String}

/-- The entry belongs to the claim and its `sig` is the peer's, over the link. -/
def SignedFor (env : FederationEnv) (peer : TrustAnchor) (claimId : String) (e : Entry) : Prop :=
  field e "claim_id" = .str claimId ∧
    ∃ sig, field e "sig" = .str sig ∧
      ed25519VerifyText env.toEnv peer.peerPublicKey (segmentLink e) sig = true

/-- What the report of an import says is so, and so does what it records. -/
structure Proven (env : FederationEnv) (peer : TrustAnchor) (claimId : String)
    (entries : List Json) (r : ImportResult) (recorded : List WcpAudit) : Prop where
  /-- A report of success is about a chain of the claim that the peer signed. -/
  chain : r.ok = true → ∃ e es, entries = (e :: es).map Json.obj ∧ predecessorOf e = none ∧
    ∀ x ∈ e :: es, SignedFor env peer claimId x
  /-- The end of the task is reported with success only. -/
  reported : r.completionEvent ≠ .null → r.ok = true
  /-- And recorded with success only. -/
  recorded : ∀ row ∈ recorded, ∀ members, row.payloadJson = .obj members →
    field members "completion_event" ≠ .null → field members "ok" = .bool true

/-- The fetched lists about which an import misreports. -/
inductive Misleading (env : FederationEnv) (peer : TrustAnchor) (claimId : String) :
    List Json → Prop where
  | empty : Misleading env peer claimId []
  /-- A chain that holds together, of another claim or without the peer's signatures. -/
  | foreign (es : List Entry) (e : Entry)
      (haccept : verifyChainSegment env (es.map .obj) = .ok true) (he : e ∈ es)
      (hforeign : ¬SignedFor env peer claimId e) :
      Misleading env peer claimId (es.map .obj)
  /-- A chain that does not, with an entry that ends the task. -/
  | broken (entries : List Json) (e : Entry) (hreject : verifyChainSegment env entries = .ok false)
      (he : .obj e ∈ entries) (hends : field e "event_type" ∈ completionEvents) :
      Misleading env peer claimId entries

theorem completionEvent_ne_null {entries : List Json} {completion : Json}
    (h : completionEvent entries = .ok completion) :
    completion ≠ .null ↔
      ∃ e : Entry, .obj e ∈ entries ∧ field e "event_type" ∈ completionEvents := by
  induction entries with
  | nil =>
      cases h
      simp
  | cons x entries ih =>
      rw [completionEvent] at h
      cases x with
      | obj e =>
          by_cases hends : field e "event_type" ∈ completionEvents
          · have hevent : completion = field e "event_type" := by
              have heq : completionEvent (.obj e :: entries) = .ok (field e "event_type") :=
                if_pos hends
              rw [completionEvent] at heq
              exact Except.ok.inj (h.symm.trans heq)
            have hne : completion ≠ .null := by
              rintro rfl
              rw [← hevent] at hends
              exact absurd hends (by decide)
            exact ⟨fun _ => ⟨e, List.mem_cons_self, hends⟩, fun _ => hne⟩
          · have hrest : completionEvent entries = .ok completion := by
              have heq : (completionEvent (.obj e :: entries) : Except FErr Json) =
                completionEvent entries := if_neg hends
              rw [completionEvent] at heq
              exact heq.symm.trans h
            rw [ih hrest]
            constructor
            · rintro ⟨x, hx, hx'⟩
              exact ⟨x, List.mem_cons_of_mem _ hx, hx'⟩
            · rintro ⟨x, hx, hx'⟩
              rcases List.mem_cons.1 hx with heq | hx
              · cases heq
                exact absurd hx' hends
              · exact ⟨x, hx, hx'⟩
      | _ => cases h

/-- The report of a fetched list is right exactly if the list is not misleading. -/
theorem proven_iff {entries : List Json} {ok : Bool} {terminal completion : Json} {entry : WcpAudit}
    (hverify : verifyChainSegment env entries = .ok ok)
    (hcompletion : completionEvent entries.reverse = .ok completion)
    (hpayload : entry.payloadJson =
      importPayload peer claimId ⟨ok, none, entries.length, terminal, completion⟩) :
    Proven env peer claimId entries ⟨ok, none, entries.length, terminal, completion⟩ [entry] ↔
      ¬Misleading env peer claimId entries := by
  have hevent := completionEvent_ne_null hcompletion
  simp only [List.mem_reverse] at hevent
  constructor
  · intro h hmisleading
    cases hmisleading with
    | empty =>
        cases hverify
        obtain ⟨e, es, hentries, -⟩ := h.chain rfl
        cases hentries
    | foreign es e haccept he hforeign =>
        cases hverify.symm.trans haccept
        obtain ⟨e', es', hentries, -, hsigned⟩ := h.chain rfl
        have hsame : es = e' :: es' :=
          List.map_injective_iff.2 (fun _ _ => Json.obj.inj) hentries
        exact hforeign (hsigned e (hsame ▸ he))
    | broken _ e hreject he hends =>
        cases hverify.symm.trans hreject
        cases h.reported (hevent.2 ⟨e, he, hends⟩)
  · intro hnot
    have honly : completion ≠ .null → ok = true := by
      intro hne
      obtain ⟨e, he, hends⟩ := hevent.1 hne
      cases ok with
      | true => rfl
      | false => exact absurd (.broken entries e hverify he hends) hnot
    refine ⟨?_, honly, ?_⟩
    · rintro rfl
      obtain ⟨es, rfl⟩ := walkSegment_objects hverify
      cases es with
      | nil => exact absurd .empty hnot
      | cons e es =>
          refine ⟨e, es, rfl, (verifyChainSegment_iff.1 hverify).1.1, ?_⟩
          intro x hx
          by_contra hforeign
          exact hnot (.foreign (e :: es) x hverify hx hforeign)
    · intro row hrow members hmembers hne
      obtain rfl := List.mem_singleton.1 hrow
      rw [hpayload] at hmembers
      obtain rfl := Json.obj.inj hmembers
      exact congrArg Json.bool (honly hne)

/-- Of every fetched list, an import that returns reports and records what is so exactly if the
anchor refuses the export or the list is not misleading. -/
theorem import_proves_iff (env : FederationEnv) (fetch : String → String → List Json)
    (peer : TrustAnchor) (claimId : String) (f f' : FederationState) (r : ImportResult)
    (h : importPeerChain env (some fetch) peer claimId f = (.ok r, f')) :
    Proven env peer claimId (fetch peer.peerEndpointUrl claimId) r
        (f'.world.db.audit.drop f.world.db.audit.length) ↔
      ¬(peer.allows "audit_chain_export" (env.time f.world.tick) = true ∧
        Misleading env peer claimId (fetch peer.peerEndpointUrl claimId)) := by
  have hends : Ends (importPeerChain env (some fetch) peer claimId) f fun out f' =>
      ∀ r, out = .ok r →
        (Proven env peer claimId (fetch peer.peerEndpointUrl claimId) r
            (f'.world.db.audit.drop f.world.db.audit.length) ↔
          ¬(peer.allows "audit_chain_export" (env.time f.world.tick) = true ∧
            Misleading env peer claimId (fetch peer.peerEndpointUrl claimId))) := by
    refine importPeerChain_ends ?_ ?_ ?_
    · intro reason f' hallows hdb r hr
      cases hr
      rw [hallows, hdb, List.drop_length]
      refine ⟨by simp, fun _ => ⟨nofun, ?_, nofun⟩⟩
      intro hne
      exact absurd rfl hne
    · intro ok terminal completion entry f' hallows hverify hterminal hcompletion haudit hpayload
        r hr
      cases hr
      rw [haudit, List.drop_left, proven_iff hverify hcompletion hpayload, hallows]
      simp
    · intro e f' _ r hr
      cases hr
  unfold Ends at hends
  rw [h] at hends
  exact hends r rfl

/-! ### Two fetched lists -/

/-- The text of the signature of the all-zero key. -/
def zeroSigText : String := "ed25519:AAAAAAAAAAAAAAAAAAAAAAAAAAAAAAAAAAAAAAAAAAA"

theorem zeroSigText_verifies (data : String) :
    ed25519VerifyText localEnv (List.replicate 32 0) data zeroSigText = true := by
  have hbody : urlsafeB64decode (zeroSigText.toList.drop sigPrefix.toList.length ++
      b64Padding (zeroSigText.toList.drop sigPrefix.toList.length).length) =
        .ok (List.replicate 32 0) := by decide +kernel
  unfold ed25519VerifyText
  rw [if_pos (by decide +kernel)]
  dsimp only
  rw [hbody]
  rfl

/-- A peer with the all-zero key that exports audit chains until the year 2096. -/
def localPeer : TrustAnchor where
  peerCoordinatorDid := zeroDid
  peerPublicKey := List.replicate 32 0
  peerEndpointUrl := "https://peer.example"
  scope := ["audit_chain_export", "capability_discovery"]
  scope_nodup := by decide
  establishedAt := ⟨"1767225600.0", newYear2026_isText⟩
  expiresAt := ⟨"3976214400.0", by decide⟩
  signature := zeroSigText

/-- A federation that has just started. -/
def localFederated : FederationState := ⟨initial [zeroWorker], .empty, []⟩

theorem localPeer_allows :
    localPeer.allows "audit_chain_export" (localFederation.time 0) = true := by
  decide +kernel

/-- The entry that ends the task, signed by the peer. -/
def signedBody : Entry := completedBody (.obj []) ++ [("sig", .str zeroSigText)]

theorem signedBody_accepted :
    verifyChainSegment localFederation ([sealEntry localFederation signedBody].map Json.obj) =
      .ok true :=
  verifyChainSegment_sealEntry rfl rfl

theorem import_proves_iff_signed : ∃ r f',
    importPeerChain localFederation
        (some fun _ _ => [.obj (sealEntry localFederation signedBody)]) localPeer "id-6"
        localFederated = (.ok r, f') ∧
      r.ok = true ∧
      Proven localFederation localPeer "id-6" [.obj (sealEntry localFederation signedBody)] r
        (f'.world.db.audit.drop 0) := by
  obtain ⟨f', hr⟩ := @importPeerChain_returns localFederation localFederated
    (fun _ _ => [.obj (sealEntry localFederation signedBody)]) localPeer "id-6" true _ _
    localPeer_allows rfl rfl signedBody_accepted rfl rfl
  refine ⟨_, f', hr, rfl, ?_⟩
  refine (import_proves_iff localFederation _ localPeer "id-6" localFederated f' _ hr).2 ?_
  rintro ⟨-, hmisleading⟩
  generalize hentries : [Json.obj (sealEntry localFederation signedBody)] = entries at hmisleading
  cases hmisleading with
  | empty => cases hentries
  | foreign es e haccept he hforeign =>
      have hes : [sealEntry localFederation signedBody] = es :=
        List.map_injective_iff.2 (fun _ _ => Json.obj.inj) hentries
      obtain rfl := List.mem_singleton.1 (hes ▸ he)
      exact hforeign ⟨rfl, zeroSigText, rfl, zeroSigText_verifies _⟩
  | broken _ e hreject he hends =>
      rw [← hentries] at hreject
      cases signedBody_accepted.symm.trans hreject

/-- An unsigned chain, which anyone can make up, is reported as verified. -/
theorem import_reports_unsigned : ∃ r f',
    importPeerChain localFederation
        (some fun _ _ => [.obj (sealEntry localFederation (completedBody (.obj [])))]) localPeer
        "id-6" localFederated = (.ok r, f') ∧
      r.ok = true ∧ r.completionEvent = .str "task_completed" ∧
      ¬Proven localFederation localPeer "id-6"
        [.obj (sealEntry localFederation (completedBody (.obj [])))] r
        (f'.world.db.audit.drop 0) := by
  obtain ⟨f', hr⟩ := @importPeerChain_returns localFederation localFederated
    (fun _ _ => [.obj (sealEntry localFederation (completedBody (.obj [])))]) localPeer "id-6" true
    _ _ localPeer_allows rfl rfl (completedBody_accepted rfl) rfl rfl
  refine ⟨_, f', hr, rfl, rfl, ?_⟩
  intro hproven
  obtain ⟨e, es, hentries, -, hsigned⟩ := hproven.chain rfl
  have hentry := Json.obj.inj (List.cons.inj hentries).1
  obtain ⟨-, sig, hsig, -⟩ := hsigned e List.mem_cons_self
  rw [← hentry] at hsig
  cases hsig

end Wcp.Federation
