import Wcp.Federation.Segments
/-!
# What the last hash of a segment fixes

The hash that an import records is the digest of the last entry.  Two accepted
segments with the same one are read backwards along their predecessors: they have
the same length and, position by position, entries with the same link and the same
payload, as the walk reads them (`SameReading`).  The walk reads every falsy value
as an absent one, so the entries themselves agree where falsy values other than
null and the empty one coincide (`terminalHash_commits`).
-/

namespace Wcp.Federation

open Wcp.Base
open Wcp.Coordinator

variable {env : FederationEnv} {e e' : Entry} {es es' : List Entry}

/-- Two entries that the walk cannot tell apart. -/
structure SameReading (e e' : Entry) : Prop where
  eventType : (field e "event_type").SameValue (field e' "event_type")
  actorDid : (field e "actor_did").SameValue (field e' "actor_did")
  timestamp : (field e "timestamp").SameValue (field e' "timestamp")
  payloadHash : (field e "payload_hash").SameValue (field e' "payload_hash")
  prevHash : ((field e "prev_hash").or (.str "")).SameValue ((field e' "prev_hash").or (.str ""))
  claimId : ((field e "claim_id").or (.str "")).SameValue ((field e' "claim_id").or (.str ""))
  taskId : ((field e "task_id").or (.str "")).SameValue ((field e' "task_id").or (.str ""))
  payload : ((field e "payload_json").or (.obj [])).SameValue
    ((field e' "payload_json").or (.obj []))

/-- Entries with the same digest read the same, where hashes do not collide. -/
theorem sameReading_of_digest (hsha : Function.Injective env.sha256Hex) (h : Bound env e)
    (h' : Bound env e') (hdigest : digestOf e = digestOf e') : SameReading e e' := by
  have hlink : segmentLink e = segmentLink e' := by
    refine hsha (Json.str.inj ?_)
    rw [← h.link, ← h'.link]
    exact hdigest
  have hmembers := mem_of_sameValue (canonical_inj.1 hlink)
  simp only [sortKeysMembers, List.cons_subset, List.nil_subset, and_true,
    List.mem_cons, Prod.mk.injEq, String.reduceEq, false_and, true_and, false_or, or_false,
    List.not_mem_nil] at hmembers
  obtain ⟨htype, hactor, htime, hhash, hprev, hclaim, htask⟩ := hmembers
  have hpayload : env.sha256Hex (canonical ((field e "payload_json").or (.obj []))) =
      env.sha256Hex (canonical ((field e' "payload_json").or (.obj []))) := by
    rw [h.payload, h'.payload] at hhash
    exact Json.str.inj (Json.sameValue_str_iff.1 hhash)
  exact ⟨htype, hactor, htime, hhash, hprev, hclaim, htask, canonical_inj.1 (hsha hpayload)⟩

theorem predecessorOf_text (hes : Continues none es) (hbound : ∀ e ∈ es, Bound env e)
    (he : e ∈ es) (htruthy : (field e "prev_hash").truthy = true) :
    ∃ s, field e "prev_hash" = .str s := by
  have hsome : predecessorOf e = some (field e "prev_hash") := if_pos htruthy
  rcases hes.prev_eq he with hnone | ⟨x, hx, hdigest⟩
  · rw [hsome] at hnone
    cases hnone
  · rw [hsome, Option.some.injEq] at hdigest
    exact ⟨_, hdigest.trans (hbound x hx).link⟩

theorem SameReading.predecessorOf_eq (h : SameReading e e') (hes' : Continues none es')
    (hbound' : ∀ e ∈ es', Bound env e) (he' : e' ∈ es') : predecessorOf e = predecessorOf e' := by
  have hprev := h.prevHash
  have hblank : ∀ {v : Json}, v.truthy = true → ¬v.SameValue (.str "") := by
    intro v hv hsame
    rw [Json.sameValue_str_iff.1 hsame] at hv
    cases hv
  unfold predecessorOf
  cases htruthy : (field e "prev_hash").truthy with
  | true =>
      rw [Json.or_truthy htruthy] at hprev
      cases htruthy' : (field e' "prev_hash").truthy with
      | true =>
          obtain ⟨s, hs⟩ := predecessorOf_text hes' hbound' he' htruthy'
          rw [Json.or_truthy htruthy', hs] at hprev
          rw [hs, Json.sameValue_str_iff.1 hprev]
      | false =>
          rw [Json.or_falsy htruthy'] at hprev
          exact absurd hprev (hblank htruthy)
  | false =>
      rw [Json.or_falsy htruthy] at hprev
      cases htruthy' : (field e' "prev_hash").truthy with
      | true =>
          rw [Json.or_truthy htruthy'] at hprev
          exact absurd hprev.symm (hblank htruthy')
      | false => rfl

theorem sameReading_of_tip (hsha : Function.Injective env.sha256Hex)
    (haccept : verifyChainSegment env (es.map Json.obj) = .ok true)
    (haccept' : verifyChainSegment env (es'.map Json.obj) = .ok true)
    (htip : es.getLast?.map digestOf = es'.getLast?.map digestOf) :
    List.Forall₂ SameReading es es' := by
  obtain ⟨hes, hbound⟩ := verifyChainSegment_iff.1 haccept
  obtain ⟨hes', hbound'⟩ := verifyChainSegment_iff.1 haccept'
  refine hes.forall₂_of_tip hes' ?_ (by rw [tip, tip, htip])
  intro x hx y hy hdigest
  have hreading := sameReading_of_digest hsha (hbound x hx) (hbound' y hy) hdigest
  exact ⟨hreading, hreading.predecessorOf_eq hes' hbound' hy⟩

/-- What an entry says of an event, up to null, absent and empty. -/
structure EntriesAgree (e e' : Entry) : Prop where
  eventType : (field e "event_type").SameValue (field e' "event_type")
  actorDid : (field e "actor_did").SameValue (field e' "actor_did")
  timestamp : (field e "timestamp").SameValue (field e' "timestamp")
  payloadHash : (field e "payload_hash").SameValue (field e' "payload_hash")
  prevHash : Json.SameUpTo (.str "") (field e "prev_hash") (field e' "prev_hash")
  claimId : Json.SameUpTo (.str "") (field e "claim_id") (field e' "claim_id")
  taskId : Json.SameUpTo (.str "") (field e "task_id") (field e' "task_id")
  payload : Json.SameUpTo (.obj []) (field e "payload_json") (field e' "payload_json")

/-- Where one entry has an odd value in a field that has a default, the other has it too. -/
structure OddFieldsCoincide (e e' : Entry) : Prop where
  prevHash : Json.OddCoincide (.str "") (field e "prev_hash") (field e' "prev_hash")
  claimId : Json.OddCoincide (.str "") (field e "claim_id") (field e' "claim_id")
  taskId : Json.OddCoincide (.str "") (field e "task_id") (field e' "task_id")
  payload : Json.OddCoincide (.obj []) (field e "payload_json") (field e' "payload_json")

theorem SameReading.agrees_iff (h : SameReading e e') :
    EntriesAgree e e' ↔ OddFieldsCoincide e e' := by
  have hprev := Json.sameUpTo_iff rfl h.prevHash
  have hclaim := Json.sameUpTo_iff rfl h.claimId
  have htask := Json.sameUpTo_iff rfl h.taskId
  have hpayload := Json.sameUpTo_iff rfl h.payload
  constructor
  · intro ha
    exact ⟨hprev.1 ha.prevHash, hclaim.1 ha.claimId, htask.1 ha.taskId, hpayload.1 ha.payload⟩
  · intro ho
    exact ⟨h.eventType, h.actorDid, h.timestamp, h.payloadHash, hprev.2 ho.prevHash,
      hclaim.2 ho.claimId, htask.2 ho.taskId, hpayload.2 ho.payload⟩

theorem forall₂_entriesAgree_iff (h : List.Forall₂ SameReading es es') :
    List.Forall₂ EntriesAgree es es' ↔ ∀ p ∈ es.zip es', OddFieldsCoincide p.1 p.2 := by
  induction h with
  | nil => simp
  | cons he _ ih =>
      rw [List.forall₂_cons, List.zip_cons_cons, List.forall_mem_cons, he.agrees_iff, ih]

/-- The hash that an import of an accepted segment records is the digest of the last entry. -/
theorem terminalHash_of_accepted (hne : es ≠ [])
    (haccept : verifyChainSegment env (es.map Json.obj) = .ok true) :
    terminalHash (es.map Json.obj) = .ok (digestOf (es.getLast hne)) := by
  have hbound := (verifyChainSegment_iff.1 haccept).2 _ (List.getLast_mem hne)
  have hlink : ((es.getLast hne).lookup "this_hash").getD .null =
      .str (env.sha256Hex (segmentLink (es.getLast hne))) := hbound.link
  unfold terminalHash
  rw [List.getLast?_map, List.getLast?_eq_some_getLast hne]
  show Json.item (.obj (es.getLast hne)) "this_hash" = _
  cases hlookup : (es.getLast hne).lookup "this_hash" with
  | none =>
      rw [hlookup] at hlink
      cases hlink
  | some v => simp [Json.item, digestOf, field, hlookup]

/-- Two accepted segments that are not empty and for which an import records the same hash agree
entry by entry exactly if, position by position, odd values of the fields with a default
coincide. -/
theorem terminalHash_commits (env : FederationEnv) (hsha : Function.Injective env.sha256Hex)
    (es es' : List Entry) (hne : es ≠ []) (hne' : es' ≠ [])
    (haccept : verifyChainSegment env (es.map Json.obj) = .ok true)
    (haccept' : verifyChainSegment env (es'.map Json.obj) = .ok true)
    (hterminal : (terminalHash (es.map Json.obj) : Except FErr Json) =
      terminalHash (es'.map Json.obj)) :
    List.Forall₂ EntriesAgree es es' ↔ ∀ p ∈ es.zip es', OddFieldsCoincide p.1 p.2 := by
  have htip : es.getLast?.map digestOf = es'.getLast?.map digestOf := by
    rw [terminalHash_of_accepted hne haccept, terminalHash_of_accepted hne' haccept',
      Except.ok.injEq] at hterminal
    rw [List.getLast?_eq_some_getLast hne, List.getLast?_eq_some_getLast hne', Option.map_some,
      Option.map_some, hterminal]
  have hreading := sameReading_of_tip hsha haccept haccept' htip
  exact forall₂_entriesAgree_iff hreading

/-! ### Segments of one entry -/

/-- An entry with the hash of its link. -/
def sealEntry (env : FederationEnv) (body : Entry) : Entry :=
  ("this_hash", .str (env.sha256Hex (segmentLink body))) :: body

theorem field_sealEntry {body : Entry} {key : String} (h : key ≠ "this_hash") :
    field (sealEntry env body) key = field body key := by
  have hkey : (key == "this_hash") = false := beq_eq_false_iff_ne.2 h
  rw [field, sealEntry, List.lookup_cons, hkey]
  rfl

theorem segmentLink_sealEntry (body : Entry) :
    segmentLink (sealEntry env body) = segmentLink body := by
  simp [segmentLink, field_sealEntry]

/-- A sealed entry without a predecessor is accepted when its payload hash is right. -/
theorem verifyChainSegment_sealEntry {body : Entry}
    (hprev : (field body "prev_hash").truthy = false)
    (hpayload : field body "payload_hash" =
      .str (env.sha256Hex (canonical ((field body "payload_json").or (.obj []))))) :
    verifyChainSegment env ([sealEntry env body].map Json.obj) = .ok true := by
  rw [verifyChainSegment_iff]
  refine ⟨⟨?_, trivial⟩, ?_⟩
  · rw [predecessorOf, field_sealEntry (by decide), hprev]
    rfl
  · rw [List.forall_mem_singleton]
    refine ⟨?_, ?_⟩
    · rw [field_sealEntry (by decide), field_sealEntry (by decide), hpayload]
    · rw [segmentLink_sealEntry]
      rfl

/-- The claim's only event, with some payload under the hash of the empty object. -/
def completedBody (payload : Json) : Entry := [
  ("event_type", .str "task_completed"),
  ("actor_did", .str zeroDid),
  ("timestamp", .str "2026-01-01T00:00:00"),
  ("payload_json", payload),
  ("payload_hash", .str (localFederation.sha256Hex (canonical (.obj [])))),
  ("claim_id", .str "id-6")]

theorem completedBody_accepted {payload : Json} (h : payload.truthy = false) :
    verifyChainSegment localFederation
      ([sealEntry localFederation (completedBody payload)].map Json.obj) = .ok true := by
  refine verifyChainSegment_sealEntry rfl ?_
  rw [show field (completedBody payload) "payload_json" = payload from rfl, Json.or_falsy h]
  rfl

theorem completedBody_terminalHash (payload payload' : Json) :
    (terminalHash ([sealEntry localFederation (completedBody payload)].map Json.obj) :
      Except FErr Json) =
    terminalHash ([sealEntry localFederation (completedBody payload')].map Json.obj) := by
  have hlink : segmentLink (completedBody payload) = segmentLink (completedBody payload') := rfl
  simp only [sealEntry, hlink]
  rfl

theorem terminalHash_commits_null :
    List.Forall₂ EntriesAgree [sealEntry localFederation (completedBody .null)]
      [sealEntry localFederation (completedBody (.obj []))] := by
  refine (terminalHash_commits localFederation localEnv_sha256Hex_injective _ _ (by simp) (by simp)
    (completedBody_accepted rfl) (completedBody_accepted rfl)
    (completedBody_terminalHash _ _)).2 ?_
  rw [List.zip_cons_cons, List.zip_nil_left, List.forall_mem_singleton]
  refine ⟨fun _ => rfl, fun _ => rfl, fun _ => rfl, ?_⟩
  intro hodd
  exact absurd hodd (by decide)

/-- An empty list and an empty object as the payload are recorded under one hash. -/
theorem terminalHash_commits_not_list :
    verifyChainSegment localFederation
      ([sealEntry localFederation (completedBody (.arr []))].map Json.obj) = .ok true ∧
    verifyChainSegment localFederation
      ([sealEntry localFederation (completedBody (.obj []))].map Json.obj) = .ok true ∧
    (terminalHash ([sealEntry localFederation (completedBody (.arr []))].map Json.obj) :
      Except FErr Json) =
      terminalHash ([sealEntry localFederation (completedBody (.obj []))].map Json.obj) ∧
    ¬List.Forall₂ EntriesAgree [sealEntry localFederation (completedBody (.arr []))]
      [sealEntry localFederation (completedBody (.obj []))] := by
  refine ⟨completedBody_accepted rfl, completedBody_accepted rfl,
    completedBody_terminalHash _ _, ?_⟩
  intro h
  rw [List.forall₂_cons] at h
  have hpayload := h.1.payload
  rw [field_sealEntry (by decide), field_sealEntry (by decide)] at hpayload
  rcases hpayload with hsame | ⟨hblank, -⟩
  · cases hsame
  · rcases hblank with hnull | hempty
    · cases hnull
    · cases hempty

end Wcp.Federation
