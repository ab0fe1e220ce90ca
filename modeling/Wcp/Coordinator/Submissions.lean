import Wcp.Coordinator.Operands
/-!
# What a submission of evidence must be

The verifiers raise nothing that the dispatcher knows, so an item has to be readable
wherever its signature verified.  The aggregation of valid requirements needs modes
that make a set, of which the missing ones can be sorted.
-/

namespace Wcp.Coordinator

open Wcp.Base
open Wcp.Base.Exec (ensure)

variable {env : Env}

/-! ## The verifiers -/

/-- An exception that the dispatcher does not know. -/
def Unmapped (e : Err) : Prop := ¬ Mapped e

theorem covers_unmapped : Json.Covers Unmapped := ⟨not_false, not_false, not_false⟩

section Verifiers

variable {payload taskPayload : Json}

theorem unmapped_firstMissing (fields : List String) :
    RaisesOnly Unmapped (firstMissing payload fields) := by
  induction fields with
  | nil => exact raisesOnly_ok _
  | cons r rs ih =>
      refine raisesOnly_bind.2 ⟨covers_unmapped.contains payload r, fun found _ => ?_⟩
      split
      · exact ih
      · exact raisesOnly_pure _

theorem unmapped_firstMissing_bind {fields : List String} {fail : String → VerificationOutcome}
    {next : Except Err VerificationOutcome} (h : RaisesOnly Unmapped next) :
    RaisesOnly Unmapped (do
      match ← firstMissing payload fields with
      | some r => return fail r
      | none => next) := by
  refine raisesOnly_bind.2 ⟨unmapped_firstMissing fields, fun missing _ => ?_⟩
  cases missing with
  | some r => exact raisesOnly_pure _
  | none => exact h

theorem unmapped_requireFields (label : String) (fields : List String) :
    RaisesOnly Unmapped (requireFields label payload fields) :=
  unmapped_firstMissing_bind (raisesOnly_pure _)

theorem unmapped_sensorWitnessVerify (kind : String) :
    RaisesOnly Unmapped (sensorWitnessVerify kind payload) := by
  unfold sensorWitnessVerify
  split
  · refine raisesOnly_bind.2 ⟨covers_unmapped.get payload "track", fun track _ => ?_⟩
    split
    · exact (returns_checkTrack _).raisesOnly
    · exact raisesOnly_pure _
  split
  · refine raisesOnly_bind.2 ⟨covers_unmapped.get payload "before_kg", fun before _ => ?_⟩
    refine raisesOnly_bind.2 ⟨covers_unmapped.get payload "after_kg", fun after _ => ?_⟩
    split
    · exact raisesOnly_pure _
    · split
      · exact raisesOnly_pure _
      · exact raisesOnly_pure _
  split
  · refine raisesOnly_bind.2 ⟨covers_unmapped.get payload "photo_hash", fun hash _ => ?_⟩
    refine raisesOnly_bind.2 ⟨covers_unmapped.get payload "exif", fun exif _ => ?_⟩
    split
    · exact raisesOnly_pure _
    · refine raisesOnly_bind.2 ⟨covers_unmapped.contains exif "datetime", fun found _ => ?_⟩
      split
      · exact raisesOnly_pure _
      · exact raisesOnly_pure _
  split
  · exact unmapped_firstMissing_bind (raisesOnly_pure _)
  split
  · refine raisesOnly_bind.2 ⟨covers_unmapped.contains payload "covered_polygon", fun found _ => ?_⟩
    split
    · exact raisesOnly_pure _
    · refine raisesOnly_bind.2 ⟨covers_unmapped.contains payload "checkpoints", fun found _ => ?_⟩
      split
      · exact raisesOnly_pure _
      · exact raisesOnly_pure _
  · exact raisesOnly_ok _

theorem unmapped_thirdPartyWitnessVerify (kind : String) :
    RaisesOnly Unmapped (thirdPartyWitnessVerify env kind payload) := by
  unfold thirdPartyWitnessVerify
  split
  · refine unmapped_firstMissing_bind ?_
    refine raisesOnly_bind.2 ⟨covers_unmapped.item payload "signed_text", fun v _ => ?_⟩
    refine raisesOnly_bind.2 ⟨?_, fun text _ => ?_⟩
    · cases v with
      | str s => exact raisesOnly_ok s
      | _ => exact raisesOnly_error.2 covers_unmapped.attributeError
    · split
      · exact raisesOnly_pure _
      · exact raisesOnly_pure _
  split
  · exact unmapped_requireFields _ _
  split
  · exact unmapped_requireFields _ _
  · exact raisesOnly_ok _

theorem unmapped_parsePresence : RaisesOnly Unmapped (parsePresence env payload) := by
  -- what the two conversions raise, caught or not
  let E : Err → Prop := fun e => Unmapped e ∨ ∃ message, e = .valueError message
  have hitem : ∀ key, RaisesOnly E (payload.item key) :=
    fun key e he => .inl (covers_unmapped.item payload key e he)
  have hparse : ∀ v, RaisesOnly E (parseIso env v) := by
    intro v e he
    rcases parseIso_cases env v with ⟨_, d, -, h⟩ | ⟨_, message, -, h⟩ | ⟨-, h⟩
    · cases he.symm.trans h
    · exact .inr ⟨message, Except.error.inj (he.symm.trans h)⟩
    · rw [Except.error.inj (he.symm.trans h)]
      exact .inl not_false
  have hparsed : RaisesOnly E (do
      let tIn ← parseIso env (← payload.item "check_in_at")
      let tOut ← parseIso env (← payload.item "check_out_at")
      return (tIn, tOut)) := by
    refine raisesOnly_bind.2 ⟨hitem _, fun checkIn _ => ?_⟩
    refine raisesOnly_bind.2 ⟨hparse checkIn, fun tIn _ => ?_⟩
    refine raisesOnly_bind.2 ⟨hitem _, fun checkOut _ => ?_⟩
    exact raisesOnly_bind.2 ⟨hparse checkOut, fun tOut _ => raisesOnly_pure _⟩
  unfold parsePresence
  dsimp only
  split
  · exact raisesOnly_ok _
  · exact raisesOnly_ok _
  · next e hne he =>
      refine raisesOnly_error.2 ((hparsed e he).resolve_right ?_)
      rintro ⟨message, rfl⟩
      exact hne message rfl

theorem unmapped_cryptographicPresenceVerify (kind : String) :
    RaisesOnly Unmapped (cryptographicPresenceVerify env kind payload taskPayload) := by
  unfold cryptographicPresenceVerify
  split
  · refine unmapped_firstMissing_bind ?_
    refine raisesOnly_bind.2 ⟨unmapped_parsePresence, fun parsed _ => ?_⟩
    split
    · exact raisesOnly_pure _
    · refine raisesOnly_bind.2 ⟨?_, fun t _ => ?_⟩
      · unfold DateTime.difference
        split
        · exact raisesOnly_ok _
        · exact raisesOnly_error.2 covers_unmapped.typeError
      · split
        · exact raisesOnly_pure _
        · refine raisesOnly_bind.2 ⟨covers_unmapped.get taskPayload _, fun required _ => ?_⟩
          split
          · exact raisesOnly_pure _
          · refine raisesOnly_bind.2 ⟨?_, fun below _ => ?_⟩
            · refine raisesOnly_bind.2 ⟨?_, fun r _ => raisesOnly_pure _⟩
              unfold intToFloat
              dsimp only
              split
              · exact raisesOnly_ok _
              · exact raisesOnly_error.2 not_false
            · split
              · exact raisesOnly_pure _
              · exact raisesOnly_pure _
  · exact raisesOnly_ok _

theorem unmapped_ownerSignoffVerify (kind : String) :
    RaisesOnly Unmapped (ownerSignoffVerify kind payload taskPayload) := by
  unfold ownerSignoffVerify
  split
  · exact unmapped_requireFields _ _
  split
  · refine raisesOnly_bind.2 ⟨covers_unmapped.get taskPayload _, fun allowed _ => ?_⟩
    split
    · exact unmapped_requireFields _ _
    · exact raisesOnly_pure _
  · exact raisesOnly_ok _

theorem unmapped_dispatchMode (m : AttestationMode) (kind : String) :
    RaisesOnly Unmapped (dispatchMode env m kind payload taskPayload) := by
  cases m with
  | sensorWitness => exact unmapped_sensorWitnessVerify kind
  | thirdPartyWitness => exact unmapped_thirdPartyWitnessVerify kind
  | cryptographicPresence => exact unmapped_cryptographicPresenceVerify kind
  | ownerSignOff => exact unmapped_ownerSignoffVerify kind

theorem unmapped_verifySingle (mode kind : Json) :
    RaisesOnly Unmapped (verifySingle env mode kind payload taskPayload) := by
  unfold verifySingle
  split
  · exact raisesOnly_error.2 not_false
  · split
    · exact raisesOnly_ok _
    · split
      · exact raisesOnly_error.2 not_false
      · dsimp only
        split
        · split
          · exact unmapped_dispatchMode _ _
          · exact raisesOnly_ok _
        · exact raisesOnly_ok _

/-- An item that a verifier is asked about. -/
structure VerifierOperands (env : Env) (mode kind payload taskPayload : Json) : Prop where
  modeHashable : mode.hashable = true
  kindHashable : ∀ m, AttestationMode.ofValue mode = some m → kind.hashable = true
  readable : ∀ m k, AttestationMode.ofValue mode = some m → kind = .str k →
    k ∈ env.kindsOf m.value → k ∈ handledKinds m → Readable env k payload taskPayload ∧
      (AsksTask env k payload → taskPayload.isObject = true)

/-- A registered kind is judged where its verifier can read the payload. -/
theorem mapped_dispatchMode (m : AttestationMode) (k : String) :
    RaisesOnly Mapped (dispatchMode env m k payload taskPayload) ↔
      (k ∈ handledKinds m → Readable env k payload taskPayload ∧
        (AsksTask env k payload → taskPayload.isObject = true)) := by
  rw [raisesOnly_iff_returns (unmapped_dispatchMode m k)]
  by_cases hk : k ∈ handledKinds m
  · rw [imp_iff_right hk]
    exact returns_dispatchMode hk
  · obtain ⟨reasons, hfail⟩ := @dispatchMode_unhandled env taskPayload m k hk payload
    rw [hfail]
    exact iff_of_true (returns_ok _) fun h => absurd h hk

theorem mapped_verifySingle (mode kind : Json) :
    RaisesOnly Mapped (verifySingle env mode kind payload taskPayload) ↔
      VerifierOperands env mode kind payload taskPayload := by
  rw [verifySingle]
  by_cases hmode : mode.hashable = true
  · rw [if_neg (by simp [hmode])]
    cases hm : AttestationMode.ofValue mode with
    | none =>
        refine iff_of_true (raisesOnly_ok _) ⟨hmode, fun m h => ?_, fun m k h => ?_⟩
        · cases hm.symm.trans h
        · cases hm.symm.trans h
    | some m =>
        dsimp only
        by_cases hkind : kind.hashable = true
        · rw [if_neg (by simp [hkind])]
          constructor
          · intro h
            refine ⟨hmode, fun _ _ => hkind, ?_⟩
            rintro m' k hm' rfl hk
            cases hm.symm.trans hm'
            dsimp only at h
            rw [if_pos hk] at h
            exact (mapped_dispatchMode m k).1 h
          · intro h
            split
            · next k =>
                split
                · next hk => exact (mapped_dispatchMode m k).2 (h.readable m k hm rfl hk)
                · exact raisesOnly_ok _
            · exact raisesOnly_ok _
        · rw [if_pos (by simpa using hkind)]
          exact iff_of_false (fun h => h .typeError rfl) fun h => hkind (h.kindHashable m hm)
  · rw [if_pos (by simpa using hmode)]
    exact iff_of_false (fun h => h .typeError rfl) fun h => hmode h.modeHashable

end Verifiers

/-! ## One item -/

structure ItemOperands (env : Env) (worker : String) (resolved : ResolvedDID)
    (claimId taskPayload ev : Json) : Prop where
  object : ev.isObject = true
  sig : (ev.memberD "sig" (.str "")).isText = true
  verified : verify env resolved (evidenceBody (ev.member "mode") (ev.member "kind")
      (ev.member "payload_hash") worker claimId (ev.member "collected_at"))
      (ev.memberD "sig" (.str "")) = .ok () →
    VerifierOperands env (ev.member "mode") (ev.member "kind") (ev.memberD "payload" (.obj []))
        taskPayload ∧
      ((AttestationMode.ofValue (ev.member "mode")).isSome = true →
        (ev.member "collected_at").isText = true)

theorem mapped_evidenceRow {ev claimId mode kind sig payload : Json}
    (hobject : ev.isObject = true) :
    RaisesOnly Mapped (evidenceRow env ev claimId mode kind sig payload) ↔
      ((AttestationMode.ofValue mode).isSome = true →
        (ev.member "collected_at").isText = true) := by
  unfold evidenceRow
  cases AttestationMode.ofValue mode with
  | none => exact iff_of_true (raisesOnly_error.2 trivial) (by simp)
  | some m =>
      rw [Option.isSome_some, imp_iff_right (rfl : true = true)]
      show RaisesOnly Mapped (do
        let payloadHash ← ev.getD "payload_hash" (.str "")
        let collectedAt ← parseIso env (← ev.item "collected_at")
        return (⟨claimId, m, kind, payloadHash, sig, collectedAt, payload⟩ : EvidenceRow)) ↔ _
      rw [foreseen_mapped.getD_bind, and_iff_right hobject]
      obtain ⟨ms, rfl⟩ := Json.isObject_iff.1 hobject
      cases hitem : ms.lookup "collected_at" with
      | none =>
          simp only [Json.item, hitem, Json.member, Option.getD_none]
          exact iff_of_false (fun h => h .keyError rfl) (by simp [Json.isText])
      | some v =>
          simp only [Json.item, hitem, Json.member, Option.getD_some]
          show RaisesOnly Mapped (parseIso env v >>= _) ↔ _
          rw [raisesOnly_bind, mapped_parseIso]
          exact and_iff_left fun _ _ => raisesOnly_pure _

theorem mapped_judgeEvidence (worker : String) (resolved : ResolvedDID)
    (claimId taskPayload ev : Json) :
    RaisesOnly Mapped (judgeEvidence env worker resolved claimId taskPayload ev) ↔
      ItemOperands env worker resolved claimId taskPayload ev := by
  rw [judgeEvidence, judgeEvidenceWith, foreseen_mapped.get_bind, foreseen_mapped.get_bind,
    foreseen_mapped.getD_bind, foreseen_mapped.get_bind, foreseen_mapped.get_bind,
    foreseen_mapped.getD_bind]
  simp only [and_self_left]
  have hjudged : ∀ {mode kind sig payload : Json}, ev.isObject = true → (RaisesOnly Mapped (do
      let outcome ← verifySingle env mode kind payload taskPayload
      let row ← evidenceRow env ev claimId mode kind sig payload
      return (⟨mode, outcome, some row⟩ : EvidenceVerdict)) ↔
      VerifierOperands env mode kind payload taskPayload ∧
        ((AttestationMode.ofValue mode).isSome = true →
          (ev.member "collected_at").isText = true)) := by
    intro mode kind sig payload hobject
    rw [raisesOnly_bind_const (raisesOnly_iff_returns (unmapped_verifySingle mode kind)).1
      (fun outcome => ?_), mapped_verifySingle]
    rw [raisesOnly_bind, mapped_evidenceRow hobject]
    exact and_iff_left fun _ _ => raisesOnly_pure _
  cases hsig : ev.memberD "sig" (.str "") with
  | str s =>
      split
      · next message hverify =>
          refine ⟨fun h => ⟨h.1, by rw [hsig]; rfl, fun hok => ?_⟩, fun h => ⟨h.object, ?_⟩⟩
          · rw [hsig, hverify] at hok
            cases hok
          · exact raisesOnly_pure _
      · next e hne hverify =>
          obtain ⟨message, rfl⟩ := verify_error hverify
          exact absurd rfl (hne message)
      · next hverify =>
          constructor
          · rintro ⟨hobject, h⟩
            exact ⟨hobject, by rw [hsig]; rfl, fun _ => (hjudged hobject).1 h⟩
          · intro h
            exact ⟨h.object, (hjudged h.object).2 (h.verified (hsig ▸ hverify))⟩
  | _ =>
      refine iff_of_false ?_ fun h => ?_
      · rintro ⟨-, h⟩
        exact h .attributeError rfl
      · have htext := h.sig
        rw [hsig] at htext
        cases htext

/-! ## The threshold -/

section Threshold

variable {requirement : Json} {outcomes : Outcomes}

/-- The modes of a requirement, as a value that is iterated. -/
def modesOf (requirement : Json) : Json := (requirement.member "modes").or (.arr [])

/-- The required modes under which no evidence passed. -/
def missingModes (requirement : Json) (outcomes : Outcomes) : List Json :=
  Json.difference (modesOf requirement).asSet
    (Json.arr ((outcomes.filter fun o => o.2.decision = .pass).map (·.1))).asSet

/-- Sorting is only come to with modes missing, so it can be asked for in every case. -/
theorem mapped_evaluateAll (hobject : requirement.isObject = true)
    (hpassing : ∀ o ∈ outcomes, o.2.decision = .pass → o.1.hashable = true) :
    RaisesOnly Mapped (evaluateAll env requirement outcomes) ↔
      (modesOf requirement).settable = true ∧
        Json.sortable (missingModes requirement outcomes) := by
  have hset : (Json.arr ((outcomes.filter fun o => o.2.decision = .pass).map (·.1))).settable =
      true := by
    rw [Json.settable, Json.searchable, Bool.true_and, Json.elements, List.all_eq_true]
    intro mode hmode
    obtain ⟨o, ho, rfl⟩ := List.mem_map.1 hmode
    obtain ⟨ho, hpass⟩ := List.mem_filter.1 ho
    exact hpassing o ho (by simpa using hpass)
  have hnil : ∀ xs : List Json, xs = [] → Json.sortable xs := by
    rintro _ rfl
    exact .inl (Nat.zero_le 1)
  rw [evaluateAll, foreseen_mapped.get_bind, and_iff_right hobject, foreseen_mapped.toSet_bind,
    foreseen_mapped.toSet_bind, and_iff_right hset]
  refine and_congr_right fun _ => ?_
  dsimp only
  split
  · next h =>
      exact iff_of_true (raisesOnly_pure _) (hnil _ (difference_eq_nil.2 h.2.1))
  · split
    · rw [foreseen_mapped.sorted_bind]
      exact and_iff_left (raisesOnly_pure _)
    · next h =>
        refine iff_of_true (raisesOnly_pure _) (hnil _ ?_)
        by_contra hmissing
        exact h (.inr hmissing)

theorem returns_thresholdBounds (h : validateBounds env requirement = .ok ()) :
    Returns (thresholdBounds env requirement) := by
  simp only [validateBounds, bind_eq_ok] at h
  obtain ⟨m, hm, n, hn, h⟩ := h
  split at h
  · next i j hi hj =>
      have hM := item_of_get hm fun hnull => by
        rw [hnull] at hi
        cases hi
      have hN := item_of_get hn fun hnull => by
        rw [hnull] at hj
        cases hj
      have hbounds : (do
          let m ← (← requirement.item "M").toInt env.unicode
          let n ← (← requirement.item "N").toInt env.unicode
          return (m, n) : Except Err (Int × Int)) = .ok (i, j) := by
        rw [hM, hN]
        show (m.toInt env.unicode >>= fun m => n.toInt env.unicode >>= fun n => pure (m, n)) = _
        rw [toInt_of_asInt hi, toInt_of_asInt hj]
        rfl
      unfold thresholdBounds
      dsimp only
      rw [hbounds]
      exact returns_ok _
  · cases h

/-- A valid requirement is aggregated, but for modes that make no set or cannot be sorted. -/
theorem mapped_evaluateThreshold (hvalid : validateAttestationRequirement env requirement = .ok ())
    (hpassing : ∀ o ∈ outcomes, o.2.decision = .pass → o.1.hashable = true) :
    RaisesOnly Mapped (evaluateThreshold env requirement outcomes) ↔
      (requirement.member "threshold" = .str "all" → (modesOf requirement).settable = true ∧
        Json.sortable (missingModes requirement outcomes)) := by
  have hbounds : requirement.get "threshold" = (.ok (.str "M-of-N") : Except Err Json) →
      Returns (thresholdBounds env requirement) := by
    intro hthreshold
    simp only [validateAttestationRequirement, bind_eq_ok, ensure_eq_ok] at hvalid
    obtain ⟨_, -, _, -, _, -, threshold, hth, _, -, h⟩ := hvalid
    cases hthreshold.symm.trans hth
    rw [if_pos rfl, bind_eq_ok] at h
    obtain ⟨_, hbounds, -⟩ := h
    exact returns_thresholdBounds hbounds
  obtain ⟨s, hs, hthreshold, -⟩ := validateAttestationRequirement_eq_ok hvalid
  obtain ⟨hobject, hmember⟩ := Json.get_eq_ok.1 hthreshold
  unfold evaluateThreshold
  rw [getD_of_get hthreshold (by simp), hmember]
  simp only [List.mem_cons, List.not_mem_nil, or_false] at hs
  rcases hs with rfl | rfl | rfl
  · exact iff_of_true (raisesOnly_pure _) fun h => absurd h (by decide)
  · rw [imp_iff_right rfl]
    exact mapped_evaluateAll hobject hpassing
  · refine iff_of_true ?_ fun h => absurd h (by decide)
    obtain ⟨bounds, hb⟩ := hbounds hthreshold
    show RaisesOnly Mapped (thresholdBounds env requirement >>= _)
    rw [hb]
    cases bounds with
    | none => exact raisesOnly_pure _
    | some b => exact raisesOnly_pure _

end Threshold

end Wcp.Coordinator
