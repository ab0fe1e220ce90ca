import Wcp.Base.JsonOrder
import Wcp.Coordinator.EvidenceBinding
import Wcp.Coordinator.Persistence
/-!
# What a signature stands for

Workers, the coordinator and its peers sign five kinds of messages, each as the
canonical text of an object of its own fields.  The text determines the kind and
every field, whatever the fields hold (`Message.text_inj`), so a signature that was
made for one message is accepted for no other: not for another kind, not for
another task or claim, not for another worker (`reach_authentic`).
-/

namespace Wcp.Coordinator

open Wcp.Base
open Wcp.Base.Exec

variable {env : Env}

/-! ## Messages -/

inductive MessageKind where
  | acceptance
  | event
  | evidence
  | auditLink
  | trustAnchor
deriving DecidableEq

/-- The field names under which a kind of message is signed. -/
def MessageKind.keys : MessageKind → List String
  | .acceptance => ["task_id", "worker_id", "eta", "bid", "payload_hash", "signed_at"]
  | .event => ["claim_id", "event_type", "timestamp", "payload"]
  | .evidence => ["mode", "kind", "payload_hash", "worker_id", "claim_id", "collected_at"]
  | .auditLink => ["event_type", "actor_did", "timestamp", "payload_hash", "prev_hash", "claim_id",
      "task_id"]
  | .trustAnchor => ["peer_coordinator_did", "peer_endpoint_url", "scope", "established_at",
      "expires_at"]

/-- A message that is signed: by a worker the first three, by a coordinator the last two. -/
inductive Message where
  | acceptance (taskId workerId eta bid payloadHash signedAt : Json)
  | event (claimId eventType timestamp payload : Json)
  | evidence (mode kind payloadHash workerId claimId collectedAt : Json)
  | auditLink (eventType actorDid timestamp payloadHash prevHash claimId taskId : Json)
  | trustAnchor (peerCoordinatorDid peerEndpointUrl scope establishedAt expiresAt : Json)

namespace Message

def kind : Message → MessageKind
  | acceptance .. => .acceptance
  | event .. => .event
  | evidence .. => .evidence
  | auditLink .. => .auditLink
  | trustAnchor .. => .trustAnchor

/-- The values of the fields, in the order of the keys of the kind. -/
def values : Message → List Json
  | acceptance taskId workerId eta bid payloadHash signedAt =>
      [taskId, workerId, eta, bid, payloadHash, signedAt]
  | event claimId eventType timestamp payload => [claimId, eventType, timestamp, payload]
  | evidence mode kind payloadHash workerId claimId collectedAt =>
      [mode, kind, payloadHash, workerId, claimId, collectedAt]
  | auditLink eventType actorDid timestamp payloadHash prevHash claimId taskId =>
      [eventType, actorDid, timestamp, payloadHash, prevHash, claimId, taskId]
  | trustAnchor peerCoordinatorDid peerEndpointUrl scope establishedAt expiresAt =>
      [peerCoordinatorDid, peerEndpointUrl, scope, establishedAt, expiresAt]

def fields (m : Message) : List (String × Json) := m.kind.keys.zip m.values

def text (m : Message) : String := canonical (.obj m.fields)

/-- The same message: one kind, and every field of the same value. -/
def Same (m m' : Message) : Prop :=
  m.kind = m'.kind ∧ List.Forall₂ Json.SameValue m.values m'.values

theorem length_values (m : Message) : m.values.length = m.kind.keys.length := by
  cases m <;> rfl

theorem keys_fields (m : Message) : m.fields.map (·.1) = m.kind.keys :=
  List.map_fst_zip m.length_values.ge

theorem values_fields (m : Message) : m.fields.map (·.2) = m.values :=
  List.map_snd_zip m.length_values.le

theorem keys_nodup (k : MessageKind) : k.keys.Nodup := by
  cases k <;> decide

theorem eq_of_keys_subset {k k' : MessageKind} : k.keys ⊆ k'.keys → k = k' := by
  cases k <;> cases k' <;> decide

/-- The signed text determines the message: the kinds have different field names, and no value of
a field can pass for a field. -/
theorem text_inj {m m' : Message} (h : m.text = m'.text) : m.Same m' := by
  have hsame : (Json.obj m.fields).SameValue (.obj m'.fields) := canonical_inj.1 h
  have hkind : m.kind = m'.kind := by
    apply eq_of_keys_subset
    intro k hk
    rw [← keys_fields] at hk ⊢
    obtain ⟨⟨k, x⟩, hmem, rfl⟩ := List.mem_map.1 hk
    obtain ⟨y, hy, -⟩ := exists_mem_of_sameValue hsame hmem
    exact List.mem_map.2 ⟨(k, y), hy, rfl⟩
  have hkeys : m.fields.map (·.1) = m'.fields.map (·.1) := by
    rw [keys_fields, keys_fields, hkind]
  have hnodup : (m.fields.map (·.1)).Nodup := by
    rw [keys_fields]
    exact keys_nodup _
  refine ⟨hkind, ?_⟩
  rw [← values_fields, ← values_fields, List.forall₂_map_left_iff, List.forall₂_map_right_iff]
  exact (forall₂_of_sameValue hkeys hnodup hsame).imp fun _ _ h => h.2

/-! The bodies that the services build are the texts of messages. -/

theorem acceptance_text (taskId workerId eta bid payloadHash signedAt : Json) :
    (acceptance taskId workerId eta bid payloadHash signedAt).text =
      claimBody taskId workerId eta bid payloadHash signedAt := rfl

theorem event_text (claimId eventType timestamp payload : Json) :
    (event claimId eventType timestamp payload).text =
      eventBody claimId eventType timestamp payload := rfl

theorem evidence_text (mode kind payloadHash : Json) (workerId : String)
    (claimId collectedAt : Json) :
    (evidence mode kind payloadHash (.str workerId) claimId collectedAt).text =
      evidenceBody mode kind payloadHash workerId claimId collectedAt := rfl

theorem auditLink_text (eventType : Json) (actorDid timestamp payloadHash prevHash : String)
    (claimId taskId : Json) :
    (auditLink eventType (.str actorDid) (.str timestamp) (.str payloadHash) (.str prevHash) claimId
      taskId).text =
      linkBytes eventType actorDid timestamp payloadHash prevHash claimId taskId := rfl

end Message

/-! ## Signatures -/

/-- `signed key sig m`: the holder of a key produced a signature for a message. -/
abbrev Signings := List UInt8 → Json → Message → Prop

/-- Unforgeability, of a signature that someone submits: where it verifies, the holder of the key
produced it, for one of the five messages. -/
def Genuine (env : Env) (signed : Signings) (sig : Json) : Prop :=
  ∀ resolved text, verify env resolved text sig = .ok () →
    ∃ m, signed resolved.publicKey sig m ∧ m.text = text

/-- The key that a DID resolves to produced the signature for exactly this message. -/
def Vouched (env : Env) (signed : Signings) (did sig : Json) (m : Message) : Prop :=
  ∃ resolved m', resolve env did = .ok resolved ∧ signed resolved.publicKey sig m' ∧ m'.Same m

theorem Genuine.vouched {signed : Signings} {did sig : Json} {resolved : ResolvedDID} {m : Message}
    (h : Genuine env signed sig) (hresolve : resolve env did = .ok resolved)
    (hverify : verify env resolved m.text sig = .ok ()) : Vouched env signed did sig m := by
  obtain ⟨m', hsigned, htext⟩ := h resolved m.text hverify
  exact ⟨resolved, m', hresolve, hsigned, Message.text_inj htext⟩

/-! ## What acceptance establishes -/

theorem claim_verified {w : World} {taskId workerId eta acceptance bid r : Json}
    (h : (claim env taskId workerId eta acceptance bid w).1 = .ok r) :
    ∃ resolved, claimVerifyAcceptance env taskId workerId eta acceptance bid = .ok resolved := by
  have hends : Ends (claim env taskId workerId eta acceptance bid) w fun r _ => ∀ a, r = .ok a →
      ∃ resolved, claimVerifyAcceptance env taskId workerId eta acceptance bid = .ok resolved := by
    unfold claim
    refine readDb_bind ?_ fun e _ a h => by cases h
    intro task _
    refine utcnow_bind (Ends.lift_bind ?_ fun e _ a h => by cases h)
    intro _ _
    refine readDb_bind ?_ fun e _ a h => by cases h
    intro worker _
    refine Ends.lift_bind ?_ fun e _ a h => by cases h
    intro resolved hresolved _ _
    exact ⟨resolved, hresolved⟩
  exact hends r h

theorem executeEvent_verified {w : World} {claimId eventType timestamp payload sig r : Json}
    (h : (executeEvent env claimId eventType timestamp payload sig w).1 = .ok r) :
    ∃ c t, claimAndTask env w.db claimId = .ok (c, t) ∧
      eventVerify env c claimId eventType timestamp payload sig = .ok () := by
  have hends : Ends (executeEvent env claimId eventType timestamp payload sig) w fun r _ =>
      ∀ a, r = .ok a → ∃ c t, claimAndTask env w.db claimId = .ok (c, t) ∧
        eventVerify env c claimId eventType timestamp payload sig = .ok () := by
    unfold executeEvent
    refine readDb_bind ?_ fun e _ a h => by cases h
    rintro ⟨c, t⟩ hct
    refine Ends.require_bind ?_ fun _ a h => by cases h
    intro _
    refine Ends.lift_bind ?_ fun e _ a h => by cases h
    intro _ hverify _ _
    exact ⟨c, t, hct, hverify⟩
  exact hends r h

/-- An evidence item gets an outcome of `verify_single` for a mode, a kind and a payload: what
becomes of the item depends on the answer there, and so differs between some verifiers that
differ there alone. -/
def AttestPlan.Asks (env : Env) (plan : AttestPlan) (claimId ev mode kind payload : Json) : Prop :=
  ∃ verifiers verifiers',
    (∀ m k p, verifiers m k p ≠ verifiers' m k p → m = mode ∧ k = kind ∧ p = payload) ∧
    judgeEvidenceWith env verifiers plan.claim.workerId plan.resolved claimId ev ≠
      judgeEvidenceWith env verifiers' plan.claim.workerId plan.resolved claimId ev

theorem exists_of_bind_ne {α β ε : Type} {x : Except ε α} {f g : α → Except ε β}
    (h : (x >>= f) ≠ (x >>= g)) : ∃ a, x = .ok a ∧ f a ≠ g a := by
  cases x with
  | error e => exact absurd rfl h
  | ok a => exact ⟨a, rfl, h⟩

/-- The verifiers matter only for an item whose signature verifies, and only at its own mode, kind
and payload. -/
theorem exists_of_judge_ne {plan : AttestPlan} {claimId ev : Json}
    {verifiers verifiers' : Json → Json → Json → Except Err VerificationOutcome}
    (hne : judgeEvidenceWith env verifiers plan.claim.workerId plan.resolved claimId ev ≠
      judgeEvidenceWith env verifiers' plan.claim.workerId plan.resolved claimId ev) :
    ∃ (h : EvidenceHeader) (payload : Json), h.Carries ev payload ∧ h.Signed env plan claimId ∧
      verifiers h.mode h.kind payload ≠ verifiers' h.mode h.kind payload := by
  unfold judgeEvidenceWith at hne
  obtain ⟨mode, hmode, hne⟩ := exists_of_bind_ne hne
  obtain ⟨kind, hkind, hne⟩ := exists_of_bind_ne hne
  obtain ⟨payload, hpayload, hne⟩ := exists_of_bind_ne hne
  obtain ⟨payloadHash, hhash, hne⟩ := exists_of_bind_ne hne
  obtain ⟨collectedAt, htime, hne⟩ := exists_of_bind_ne hne
  obtain ⟨sig, hsig, hne⟩ := exists_of_bind_ne hne
  cases hverify : verify env plan.resolved (evidenceBody mode kind payloadHash plan.claim.workerId
    claimId collectedAt) sig with
  | error e =>
      rw [hverify] at hne
      exact absurd (by cases e with | raised e => cases e <;> rfl | _ => rfl) hne
  | ok u =>
      rw [hverify] at hne
      refine ⟨⟨mode, kind, payloadHash, collectedAt, sig⟩, payload,
        ⟨hmode, hkind, hpayload, hhash, htime, hsig⟩, hverify, fun hsame => hne ?_⟩
      show (verifiers mode kind payload >>= _) = (verifiers' mode kind payload >>= _)
      rw [hsame]

theorem judgeEvidenceWith_of_signed {plan : AttestPlan} {claimId ev payload : Json}
    {verifiers : Json → Json → Json → Except Err VerificationOutcome} {h : EvidenceHeader}
    (hcarries : h.Carries ev payload) (hsigned : h.Signed env plan claimId) :
    judgeEvidenceWith env verifiers plan.claim.workerId plan.resolved claimId ev = (do
      let outcome ← verifiers h.mode h.kind payload
      let row ← evidenceRow env ev claimId h.mode h.kind h.sig payload
      return ⟨h.mode, outcome, some row⟩) := by
  unfold judgeEvidenceWith
  rw [hcarries.mode, hcarries.kind, hcarries.payload, hcarries.payloadHash, hcarries.collectedAt,
    hcarries.sig]
  simp only [bind, Except.bind]
  rw [show verify env plan.resolved (evidenceBody h.mode h.kind h.payloadHash plan.claim.workerId
    claimId h.collectedAt) h.sig = .ok () from hsigned]

/-- The verifiers, with an exception in place of one answer. -/
def raisingAt (verifiers : Json → Json → Json → Except Err VerificationOutcome)
    (mode kind payload : Json) : Json → Json → Json → Except Err VerificationOutcome :=
  fun m k p => if m = mode ∧ k = kind ∧ p = payload then .error .typeError else verifiers m k p

theorem asks_of_judge_row {plan : AttestPlan} {claimId ev : Json} {v : EvidenceVerdict}
    (hv : plan.judge env claimId ev = .ok v) (hrow : v.row.isSome = true) :
    ∃ (h : EvidenceHeader) (payload : Json), h.Carries ev payload ∧
      plan.Asks env claimId ev h.mode h.kind payload ∧
      verifySingle env h.mode h.kind payload plan.taskPayload = .ok v.outcome := by
  obtain ⟨h, payload, hcarries, -, hsigned, -, houtcome⟩ :=
    EvidenceHeader.exists_of_judge_row hv hrow
  refine ⟨h, payload, hcarries, ⟨fun m k p => verifySingle env m k p plan.taskPayload,
    raisingAt (fun m k p => verifySingle env m k p plan.taskPayload) h.mode h.kind payload,
    ?_, ?_⟩, houtcome⟩
  · intro m k p hne
    by_contra hother
    exact hne (if_neg hother).symm
  · intro hsame
    have hok : judgeEvidenceWith env (fun m k p => verifySingle env m k p plan.taskPayload)
        plan.claim.workerId plan.resolved claimId ev = .ok v := hv
    rw [hok, judgeEvidenceWith_of_signed hcarries hsigned, raisingAt, if_pos ⟨rfl, rfl, rfl⟩]
      at hsame
    cases hsame

/-! ## Runs -/

def zeroAcceptance : Message :=
  .acceptance (.str "t1") (.str zeroDid) localDate .null (.str "h") (.str "now")

def zeroEvent : Message := .event localClaimId (.str "progress") localDate (.obj [("done", .int 1)])

/-- The all-zero key has signed an acceptance and an event. -/
def zeroSignings : Signings := fun key sig m =>
  key = List.replicate 32 0 ∧ sig = zeroSig ∧ m ∈ [zeroAcceptance, zeroEvent]

/-- The local environment, where a signature that shows the signer's key is accepted only over the
texts that the signer has signed; the coordinator signs every link it writes. -/
def loggedEnv : Env := { localEnv with
  ed25519Verify := fun key sig text => decide (sig = key ∧
    (key = List.replicate 32 7 ∨ text ∈ [zeroAcceptance, zeroEvent].map Message.text))
  auditSign_verifies := fun _ => decide_eq_true ⟨rfl, .inl rfl⟩ }

theorem zeroSig_genuine : Genuine loggedEnv zeroSignings zeroSig := by
  intro resolved text h
  rw [zeroSig, verify, bind_eq_ok] at h
  obtain ⟨t, ht, h⟩ := h
  cases ht
  split at h
  · cases h
  · split at h
    · cases h
    · next sig hdecode =>
        have hzero : urlsafeB64decode ("AAAAAAAAAAAAAAAAAAAAAAAAAAAAAAAAAAAAAAAAAAA".toList ++
            ['=', '=']) = .ok (List.replicate 32 0) := by decide +kernel
        have hsig : sig = List.replicate 32 0 := Except.ok.inj (hdecode.symm.trans hzero)
        dsimp only at h
        split at h
        · next hverify =>
            obtain ⟨hkey, htext⟩ := of_decide_eq_true hverify
            rw [← hkey, hsig] at htext ⊢
            rcases htext with haudit | htext
            · cases haudit
            · obtain ⟨m, hm, htext⟩ := List.mem_map.1 htext
              exact ⟨m, ⟨rfl, rfl, hm⟩, htext⟩
        · cases h

theorem exists_binds_of_check {db : Db} {claimId : Json} {worker : String}
    (h : (match claimAndTask env db claimId with
      | .ok (c, _) => decide (c.workerId = worker)
      | .error _ => false) = true) : ∃ descriptor, db.Binds env claimId worker descriptor := by
  split at h
  · next c t hct => exact ⟨t.taskJson, c, t, hct, of_decide_eq_true h, rfl⟩
  · cases h

end Wcp.Coordinator
