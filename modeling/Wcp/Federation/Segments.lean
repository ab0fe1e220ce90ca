import Wcp.Base.HashChain
import Wcp.Base.JsonAbsent
import Wcp.Coordinator.Chains
import Wcp.Coordinator.LocalEnvironment
import Wcp.Federation.AuditExport
/-!
# What an accepted segment says

`verify_chain_segment` accepts exactly the lists of objects that thread and carry
the hashes of their own content (`verifyChainSegment_iff`), where a falsy payload
counts as the empty object and a falsy reference as the empty string.  Two
consequences are drawn from it: when the importer agrees with the exporter's own
`verify_chain`, and how far the last hash fixes a segment.
-/

namespace Wcp.Federation

open Wcp.Base
open Wcp.Coordinator

variable {env : FederationEnv}

/-! ## The walk -/

abbrev Entry := List (String × Json)

/-- The predecessor that an entry names: a falsy value names none. -/
def predecessorOf (e : Entry) : Option Json :=
  if (field e "prev_hash").truthy then some (field e "prev_hash") else none

def digestOf (e : Entry) : Json := field e "this_hash"

/-- Every entry names the hash of the one before it. -/
abbrev Continues : Option Json → List Entry → Prop := Threads predecessorOf digestOf

/-- An entry carries the hashes of its payload and of its link. -/
structure Bound (env : FederationEnv) (e : Entry) : Prop where
  payload : field e "payload_hash" =
    .str (env.sha256Hex (canonical ((field e "payload_json").or (.obj []))))
  link : field e "this_hash" = .str (env.sha256Hex (segmentLink e))

theorem checkEntry_iff {prev : Option String} {e : Entry} :
    checkEntry env (textJson prev) e = true ↔
      predecessorOf e = prev.map Json.str ∧ Bound env e := by
  have hprev : ((field e "prev_hash").or .null).pyEq (textJson prev) = true ↔
      predecessorOf e = prev.map Json.str := by
    unfold predecessorOf
    cases htruthy : (field e "prev_hash").truthy with
    | true =>
        have hne : field e "prev_hash" ≠ .null := by
          rintro heq
          rw [heq] at htruthy
          cases htruthy
        rw [Json.or_truthy htruthy, if_pos rfl]
        cases prev with
        | none => simpa [textJson, Json.pyEq_null_iff] using hne
        | some h => simp [textJson, Json.pyEq_str_iff]
    | false =>
        rw [Json.or_falsy htruthy, if_neg (by simp)]
        cases prev with
        | none => simp [textJson, Json.pyEq_null_iff]
        | some h => simp [textJson, Json.pyEq_str_iff]
  unfold checkEntry
  rw [Bool.and_eq_true, Bool.and_eq_true, hprev, Json.str_pyEq_iff, Json.str_pyEq_iff, and_assoc]
  exact and_congr_right fun _ => ⟨fun h => ⟨h.1, h.2⟩, fun h => ⟨h.payload, h.link⟩⟩

theorem walkSegment_iff {prev : Option String} {es : List Entry} :
    walkSegment env (textJson prev) (es.map Json.obj) = .ok true ↔
      Continues (prev.map Json.str) es ∧ ∀ e ∈ es, Bound env e := by
  induction es generalizing prev with
  | nil => simp [walkSegment, Threads]
  | cons e es ih =>
      rw [List.map_cons, walkSegment, List.forall_mem_cons, Continues, threads_cons]
      by_cases hcheck : checkEntry env (textJson prev) e = true
      · obtain ⟨hprev, hbound⟩ := checkEntry_iff.1 hcheck
        have hrest := @ih (some (env.sha256Hex (segmentLink e)))
        rw [Option.map_some, ← hbound.link] at hrest
        rw [if_pos hcheck, hbound.link]
        refine hrest.trans ?_
        exact ⟨fun h => ⟨⟨hprev, h.1⟩, hbound, h.2⟩, fun h => ⟨h.1.2, h.2.2⟩⟩
      · rw [if_neg hcheck]
        refine ⟨by simp, ?_⟩
        rintro ⟨⟨hprev, -⟩, hbound, -⟩
        exact absurd (checkEntry_iff.2 ⟨hprev, hbound⟩) hcheck

theorem verifyChainSegment_iff {es : List Entry} :
    verifyChainSegment env (es.map Json.obj) = .ok true ↔
      Continues none es ∧ ∀ e ∈ es, Bound env e :=
  @walkSegment_iff env none es

theorem walkSegment_total (prev : Json) (es : List Entry) :
    ∃ b, walkSegment env prev (es.map Json.obj) = .ok b := by
  induction es generalizing prev with
  | nil => exact ⟨true, rfl⟩
  | cons e es ih =>
      rw [List.map_cons, walkSegment]
      split
      · exact ih _
      · exact ⟨false, rfl⟩

theorem walkSegment_objects {prev : Json} {entries : List Json}
    (h : walkSegment env prev entries = .ok true) :
    ∃ es : List Entry, entries = es.map Json.obj := by
  induction entries generalizing prev with
  | nil => exact ⟨[], rfl⟩
  | cons x entries ih =>
      cases x with
      | obj e =>
          rw [walkSegment] at h
          split at h
          · obtain ⟨es, rfl⟩ := ih h
            exact ⟨e :: es, rfl⟩
          · cases h
      | _ => cases h

/-! ## Exporter and importer -/

/-- A payload that the importer hashes as it is. -/
def Plain (payload : Json) : Prop := payload.truthy = true ∨ payload = .obj []

instance (payload : Json) : Decidable (Plain payload) :=
  inferInstanceAs (Decidable (_ = true ∨ payload = .obj []))

theorem plain_obj (ms : List (String × Json)) : Plain (.obj ms) := by
  cases ms with
  | nil => exact .inr rfl
  | cons m ms => exact .inl rfl

theorem Plain.or_eq {payload : Json} (h : Plain payload) : payload.or (.obj []) = payload := by
  rcases h with htruthy | rfl
  · exact Json.or_truthy htruthy
  · rfl

section Rows

variable {r : WcpAudit} {rows : List WcpAudit}

theorem textJson_or (t : Option String) : (textJson t).or (.str "") = .str (t.getD "") := by
  cases t with
  | none => rfl
  | some s =>
      by_cases hs : s = "" <;> simp [textJson, Json.or, Json.truthy, hs]

theorem segmentLink_exported (r : WcpAudit) : segmentLink (exportedMembers r) = r.linkBytes := by
  simp [segmentLink, textJson_or, WcpAudit.linkBytes, linkBytes]

theorem exported_eq_map (rows : List WcpAudit) :
    rows.map exportedEntry = (rows.map exportedMembers).map Json.obj := by
  rw [List.map_map]
  rfl

theorem bound_exported : Bound env (exportedMembers r) ↔
    env.sha256Hex (canonical (r.payloadJson.or (.obj []))) = r.payloadHash ∧
      env.sha256Hex r.linkBytes = r.thisHash := by
  constructor
  · intro h
    have hp := h.payload
    have hl := h.link
    simp only [field_payload_hash, field_payload_json, field_this_hash, segmentLink_exported,
      Json.str.injEq] at hp hl
    exact ⟨hp.symm, hl.symm⟩
  · rintro ⟨hp, hl⟩
    refine ⟨?_, ?_⟩
    · simp [hp]
    · simp [segmentLink_exported, hl]

theorem predecessorOf_exported : predecessorOf (exportedMembers r) =
    (r.prevHash.filter (· ≠ "")).map Json.str := by
  unfold predecessorOf
  rw [field_prev_hash]
  cases r.prevHash with
  | none => rfl
  | some s => by_cases hs : s = "" <;> simp [textJson, Json.truthy, Option.filter, hs]

/-- Past the first row, where no hash is empty, both sides read the same predecessors. -/
theorem continues_exported {prev : Option String} (hprev : prev ≠ some "")
    (hfirst : prev = none → ∀ r ∈ rows.head?, r.prevHash ≠ some "")
    (hhash : ∀ r ∈ rows, r.thisHash ≠ "") :
    Continues (prev.map Json.str) (rows.map exportedMembers) ↔ Linked prev rows := by
  induction rows generalizing prev with
  | nil => simp [Threads]
  | cons r rows ih =>
      have hdigest : digestOf (exportedMembers r) = .str r.thisHash := field_this_hash r
      have hrest := @ih (some r.thisHash) (by simpa using hhash r List.mem_cons_self) (by simp)
        fun r' hr' => hhash r' (List.mem_cons_of_mem _ hr')
      have hhead : predecessorOf (exportedMembers r) = prev.map Json.str ↔ r.prevHash = prev := by
        rw [predecessorOf_exported]
        have hinj : Function.Injective Json.str := fun _ _ h => Json.str.inj h
        rw [(Option.map_injective hinj).eq_iff]
        cases hp : r.prevHash with
        | none => simp [Option.filter]
        | some s =>
            by_cases hs : s = ""
            · have hne : prev ≠ none := fun hnone =>
                hfirst hnone r (by simp) (by rw [hp, hs])
              simp [Option.filter, hs, hne.symm, hprev.symm]
            · simp [Option.filter, hs]
      rw [List.map_cons, Continues, Linked, threads_cons, threads_cons, hdigest, hhead]
      exact and_congr_right fun _ => hrest

/-- On rows with plain payloads and valid signatures that start with no predecessor, the
importer's verdict is that of `verify_chain`. -/
theorem verifyChainSegment_exported (hempty : ∀ s, env.sha256Hex s ≠ "")
    (hplain : ∀ r ∈ rows, Plain r.payloadJson)
    (hsigs : ∀ r ∈ rows, signerVerify env.toEnv r.linkBytes r.sig = true)
    (hfirst : ∀ r ∈ rows.head?, r.prevHash = none) :
    verifyChainSegment env (rows.map exportedEntry) = .ok (walkChain env.toEnv none rows) := by
  have hverdict : verifyChainSegment env (rows.map exportedEntry) = .ok true ↔
      walkChain env.toEnv none rows = true := by
    rw [exported_eq_map, verifyChainSegment_iff, walkChain_iff]
    have hbound : (∀ e ∈ rows.map exportedMembers, Bound env e) ↔
        ∀ r ∈ rows, r.Sound env.toEnv := by
      rw [List.forall_mem_map]
      refine forall₂_congr fun r hr => ?_
      rw [bound_exported, (hplain r hr).or_eq]
      exact ⟨fun h => ⟨h.1, h.2, hsigs r hr⟩, fun h => ⟨h.payload, h.link⟩⟩
    rw [hbound]
    refine and_congr_left fun hsound => ?_
    refine @continues_exported rows none nofun ?_ ?_
    · intro _ r hr hprev
      rw [hfirst r hr] at hprev
      cases hprev
    · exact fun r hr hthis => hempty _ ((hsound r hr).link.trans hthis)
  obtain ⟨b, hb⟩ := @walkSegment_total env .null (rows.map exportedMembers)
  rw [← exported_eq_map] at hb
  rw [verifyChainSegment, hb] at hverdict ⊢
  rw [Except.ok.injEq]
  rw [Except.ok.injEq] at hverdict
  exact Bool.eq_iff_iff.2 hverdict

/-- Where `verify_chain` accepts, the importer does exactly if every payload is plain. -/
theorem verifyChainSegment_of_walkChain (hsha : Function.Injective env.sha256Hex)
    (hempty : ∀ s, env.sha256Hex s ≠ "") (hwalk : walkChain env.toEnv none rows = true) :
    verifyChainSegment env (rows.map exportedEntry) = .ok true ↔
      ∀ r ∈ rows, Plain r.payloadJson := by
  obtain ⟨hlinked, hsound⟩ := walkChain_iff.1 hwalk
  constructor
  · intro h r hr
    rw [exported_eq_map, verifyChainSegment_iff] at h
    have hbound := bound_exported.1 (h.2 _ (List.mem_map_of_mem hr))
    -- one payload hash for the payload and for its replacement
    have hsame := canonical_inj.1 (hsha (hbound.1.trans (hsound r hr).payload.symm))
    cases htruthy : r.payloadJson.truthy with
    | true => exact .inl htruthy
    | false =>
        rw [Json.or_falsy htruthy] at hsame
        right
        cases hp : r.payloadJson with
        | obj ms =>
            cases ms with
            | nil => rfl
            | cons m ms =>
                rw [hp] at htruthy
                cases htruthy
        | _ =>
            rw [hp] at hsame
            cases hsame
  · intro hplain
    rw [verifyChainSegment_exported hempty hplain (fun r hr => (hsound r hr).sig) ?_, hwalk]
    intro r hr
    cases rows with
    | nil => cases hr
    | cons r' rows =>
        cases hr
        exact hlinked.1

end Rows

/-- No event of the call carries a falsy payload other than the empty object. -/
def PlainCall : Call → Prop
  | .executeEvent _ _ _ payload _ => Plain payload
  | _ => True

theorem plain_of_built {env : Env} {call : Call} {e : WcpAudit} (hcall : PlainCall call)
    (h : call.Built env e) : Plain e.payloadJson := by
  obtain ⟨_, _, _, _, _, _, _, _, _, _, _, hwrites, -, -, -, rfl⟩ := h
  cases hwrites with
  | executeEvent => exact hcall
  | _ => exact plain_obj _

theorem finite_textJson (t : Option String) : (textJson t).finite = true := by
  cases t <;> rfl

theorem finiteList_exported (rows : List WcpAudit) :
    finiteList (rows.map exportedEntry) = rows.all (·.payloadJson.finite) := by
  induction rows with
  | nil => rfl
  | cons r rows ih =>
      rw [List.map_cons, finiteList, ih, List.all_cons]
      simp [exportedEntry, exportedMembers, Json.finite, finiteMembers, finite_textJson]

/-- The endpoint serves the rows of a claim when every payload is finite. -/
theorem federationAuditChain_served {db : Db} {c : String} (query : Nat)
    (h : ∀ r ∈ db.entriesOf c, r.payloadJson.finite = true) :
    federationAuditChain env query db c =
      .ok ((env.ascending query (db.entriesOf c)).map exportedEntry) := by
  unfold federationAuditChain
  refine if_pos ?_
  rw [finiteList_exported, List.all_eq_true]
  exact fun r hr => h r ((env.ascending_perm query (db.entriesOf c)).mem_iff.1 hr)

/-- The two queries read the rows of a claim in the same order and the response could be
written: what both sides look at. -/
theorem federationAuditChain_eq_ok {db : Db} {c : String} {query query' : Nat}
    {entries : List Json}
    (horder : env.ascending query' (db.entriesOf c) = env.ascending query (db.entriesOf c))
    (h : federationAuditChain env query' db c = .ok entries) :
    entries = (env.ascending query (db.entriesOf c)).map exportedEntry := by
  unfold federationAuditChain at h
  dsimp only at h
  split at h
  · rw [← horder]
    exact (Except.ok.inj h).symm
  · cases h

/-- Where the endpoint's query reads the rows of a claim in the order of `verify_chain`: in every
state that calls without odd payloads reach, what `verify_chain` accepts is accepted by the
importer; on every table whose rows of the claim have plain payloads and valid signatures and
start without a predecessor, the verdicts are equal; and on a chain that `verify_chain` accepts
the importer agrees exactly if every payload is plain. -/
theorem importer_agrees (env : FederationEnv) (hsha : Function.Injective env.sha256Hex)
    (hempty : ∀ s, env.sha256Hex s ≠ "") :
    (∀ (workers : List WcpWorker) (calls : List Call), (∀ call ∈ calls, PlainCall call) →
      ∀ (c : String) (query query' : Nat) (entries : List Json),
      env.ascending query' ((reach env.toEnv workers calls).db.entriesOf c) =
        env.ascending query ((reach env.toEnv workers calls).db.entriesOf c) →
      federationAuditChain env query' (reach env.toEnv workers calls).db c = .ok entries →
      verifyChain env.toEnv query (reach env.toEnv workers calls).db c = true →
      verifyChainSegment env entries = .ok true) ∧
    (∀ (db : Db) (c : String) (query query' : Nat) (entries : List Json),
      env.ascending query' (db.entriesOf c) = env.ascending query (db.entriesOf c) →
      federationAuditChain env query' db c = .ok entries →
      (∀ r ∈ db.entriesOf c, Plain r.payloadJson) →
      (∀ r ∈ db.entriesOf c, signerVerify env.toEnv r.linkBytes r.sig = true) →
      (∀ r ∈ (env.ascending query (db.entriesOf c)).head?, r.prevHash = none) →
      verifyChainSegment env entries = .ok (verifyChain env.toEnv query db c)) ∧
    (∀ (db : Db) (c : String) (query query' : Nat) (entries : List Json),
      env.ascending query' (db.entriesOf c) = env.ascending query (db.entriesOf c) →
      federationAuditChain env query' db c = .ok entries →
      verifyChain env.toEnv query db c = true →
      (verifyChainSegment env entries = .ok true ↔
        ∀ r ∈ db.entriesOf c, Plain r.payloadJson)) := by
  have hmem (db : Db) (c : String) (query : Nat) {r : WcpAudit} :
      r ∈ env.ascending query (db.entriesOf c) ↔ r ∈ db.entriesOf c :=
    (env.ascending_perm query (db.entriesOf c)).mem_iff
  have hiff : ∀ (db : Db) (c : String) (query query' : Nat) (entries : List Json),
      env.ascending query' (db.entriesOf c) = env.ascending query (db.entriesOf c) →
      federationAuditChain env query' db c = .ok entries →
      verifyChain env.toEnv query db c = true →
      (verifyChainSegment env entries = .ok true ↔
        ∀ r ∈ db.entriesOf c, Plain r.payloadJson) := by
    intro db c query query' entries horder hget hverify
    rw [federationAuditChain_eq_ok horder hget,
      verifyChainSegment_of_walkChain hsha hempty hverify]
    exact forall_congr' fun r => imp_congr_left (hmem db c query)
  refine ⟨?_, ?_, hiff⟩
  · intro workers calls hcalls c query query' entries horder hget hverify
    refine (hiff _ c query query' entries horder hget hverify).2 fun r hr => ?_
    exact reach_entries (fun _ _ hcall hbuilt => plain_of_built hcall hbuilt) workers hcalls r
      (List.mem_filter.1 hr).1
  · intro db c query query' entries horder hget hplain hsigs hfirst
    rw [federationAuditChain_eq_ok horder hget, verifyChain]
    refine verifyChainSegment_exported hempty ?_ ?_ hfirst
    · exact fun r hr => hplain r ((hmem db c query).1 hr)
    · exact fun r hr => hsigs r ((hmem db c query).1 hr)

/-! ### Two local chains -/

/-- The local environment, at the first of January 2026. -/
def localFederation : FederationEnv where
  toEnv := localEnv
  time _ := ⟨"1767225600.0", newYear2026_isText⟩

theorem localStart_chain :
    (reach localEnv [zeroWorker] (localStart anySensor)).db.Chain localEnv "id-6" := by
  obtain ⟨hfirst, hpast, htick⟩ :
      ((reach localEnv [zeroWorker] localClaim).db.entriesOf "id-6").map (·.prevHash) = [none] ∧
        (reach localEnv [zeroWorker] localClaim).db.Past localEnv "id-6"
          (reach localEnv [zeroWorker] localClaim).tick ∧
        (reach localEnv [zeroWorker] localClaim).tick + 3 < microsPerDay := by decide +kernel
  rw [show localStart anySensor = localClaim ++ [.executeOpen localClaimId] from rfl, reach_snoc]
  exact step_executeOpen_chain (localEnv_ticking htick) (by decide)
    ⟨reach_chain_single hfirst, hpast, Nat.le_refl _⟩ (Nat.le_refl _)

theorem localStart_named : ∀ call ∈ localStart anySensor, call.Named := by
  intro call hcall
  simp only [localStart, List.mem_cons, List.not_mem_nil, or_false] at hcall
  intro eventType payload claimId taskId hwrites hnull
  rcases hcall with rfl | rfl | rfl <;> cases hwrites
  · exact absurd rfl hnull
  · exact ⟨⟨_, rfl⟩, .inr ⟨_, rfl⟩, .inr ⟨_, rfl⟩⟩
  · exact ⟨⟨_, rfl⟩, .inr ⟨_, rfl⟩, .inr ⟨_, rfl⟩⟩

theorem importer_agrees_started :
    ∃ entries : List Json, entries ≠ [] ∧
      federationAuditChain localFederation 0
        (reach localEnv [zeroWorker] (localStart anySensor)).db "id-6" = .ok entries ∧
      verifyChainSegment localFederation entries = .ok true := by
  obtain ⟨hfinite, hsome⟩ :
      (∀ r ∈ (reach localEnv [zeroWorker] (localStart anySensor)).db.entriesOf "id-6",
        r.payloadJson.finite = true) ∧
      ((reach localEnv [zeroWorker] (localStart anySensor)).db.entriesOf "id-6").length = 2 := by
    decide +kernel
  have hget := @federationAuditChain_served localFederation _ _ 0 hfinite
  refine ⟨_, ?_, hget, ?_⟩
  · intro hnil
    have hlength := congrArg List.length hnil
    rw [List.length_map, (localFederation.ascending_perm 0 _).length_eq, hsome] at hlength
    cases hlength
  refine (importer_agrees localFederation localEnv_sha256Hex_injective
    localEnv_sha256Hex_ne_empty).1 [zeroWorker] (localStart anySensor) ?_ "id-6" 0 0 _ rfl
    hget ?_
  · intro call hcall
    simp only [localStart, List.mem_cons, List.not_mem_nil, or_false] at hcall
    rcases hcall with rfl | rfl | rfl <;> trivial
  · exact localStart_chain.verifies (reach_sound [zeroWorker] localStart_named "id-6") 0

/-- The worker sends an event whose payload is an empty list. -/
def localEmptyEvent : Call :=
  .executeEvent localClaimId (.str "progress") localDate (.arr []) zeroSig

/-- The chain with the event verifies, is served, and is rejected by the importer. -/
theorem empty_payload_disagrees :
    ∃ entries : List Json,
      verifyChain localEnv 0
        (reach localEnv [zeroWorker] (localStart anySensor ++ [localEmptyEvent])).db "id-6" = true ∧
      federationAuditChain localFederation 0
        (reach localEnv [zeroWorker] (localStart anySensor ++ [localEmptyEvent])).db "id-6" =
          .ok entries ∧
      verifyChainSegment localFederation entries = .ok false := by
  obtain ⟨hpast, htick⟩ : (reach localEnv [zeroWorker] (localStart anySensor)).db.Past localEnv
      "id-6" (reach localEnv [zeroWorker] (localStart anySensor)).tick ∧
      (reach localEnv [zeroWorker] (localStart anySensor)).tick + 2 < microsPerDay := by
    decide +kernel
  have hchain : (reach localEnv [zeroWorker] (localStart anySensor ++ [localEmptyEvent])).db.Chain
      localEnv "id-6" := by
    rw [reach_snoc]
    exact step_executeEvent_chain (localEnv_ticking htick) (by decide)
      ⟨localStart_chain, hpast, Nat.le_refl _⟩ (Nat.le_refl _)
  have hnamed : ∀ call ∈ localStart anySensor ++ [localEmptyEvent], call.Named := by
    rw [List.forall_mem_append, List.forall_mem_singleton]
    refine ⟨localStart_named, ?_⟩
    intro eventType payload claimId taskId hwrites _
    cases hwrites
    exact ⟨⟨_, rfl⟩, .inr ⟨_, rfl⟩, .inr ⟨_, rfl⟩⟩
  have hverify := hchain.verifies (reach_sound [zeroWorker] hnamed "id-6") 0
  obtain ⟨⟨r, hr, hodd⟩, hfinite⟩ : (∃ r ∈ (reach localEnv [zeroWorker] (localStart anySensor ++
      [localEmptyEvent])).db.entriesOf "id-6", ¬Plain r.payloadJson) ∧
      ∀ r ∈ (reach localEnv [zeroWorker] (localStart anySensor ++
        [localEmptyEvent])).db.entriesOf "id-6", r.payloadJson.finite = true := by decide +kernel
  refine ⟨_, hverify, federationAuditChain_served 0 hfinite, ?_⟩
  obtain ⟨b, hb⟩ := @walkSegment_total localFederation .null ((localEnv.ascending 0
    ((reach localEnv [zeroWorker] (localStart anySensor ++ [localEmptyEvent])).db.entriesOf
      "id-6")).map exportedMembers)
  rw [← exported_eq_map] at hb
  cases b with
  | false => exact hb
  | true =>
      have hplain := (@verifyChainSegment_of_walkChain localFederation _
        localEnv_sha256Hex_injective localEnv_sha256Hex_ne_empty hverify).1 hb
      exact absurd (hplain r ((localEnv.ascending_perm 0 _).mem_iff.2 hr)) hodd

end Wcp.Federation
