import Wcp.Coordinator.AuditIntegrity
import Wcp.Coordinator.Entries
import Wcp.Coordinator.Journal
import Wcp.Coordinator.LocalEnvironment
/-!
# The chain of a claim

While the clock goes forward, every method that appends to a claim continues its
chain: the entries stay in the order of time, each one names the hash of the one
before it, and no two name the same.
-/

namespace Wcp.Coordinator

open Wcp.Base
open Wcp.Base.Exec (Ends)

variable {env : Env}

/-! ## Entries of calls -/

def Textual (v : Json) : Prop := v = .null ∨ ∃ s, v = .str s

theorem Textual.or_eq {v : Json} {stored : Option String} (h : Textual v)
    (hstored : env.bindNullable v = some stored) : v.or (.str "") = .str (stored.getD "") := by
  rcases h with rfl | ⟨s, rfl⟩
  · obtain rfl : none = stored := by simpa [Driver.bindNullable] using hstored
    rfl
  · obtain rfl := bindNullable_str hstored
    by_cases hs : s = "" <;> simp [Json.or, Json.truthy, hs]

/-- The names under which a call appends to the chain of a claim are texts. -/
def Call.Named (call : Call) : Prop :=
  ∀ eventType payload claimId taskId, call.Writes eventType payload claimId taskId →
    claimId ≠ .null → (∃ name, eventType = .str name) ∧ Textual claimId ∧ Textual taskId

/-- An entry on the chain of a claim, of a call that names claim and task by texts, verifies. -/
theorem Call.Built.sound {call : Call} {e : WcpAudit} (h : call.Built env e) (hnamed : call.Named)
    (hclaim : e.claimId ≠ none) : e.Sound env := by
  obtain ⟨eventType, payload, claimId, taskId, storedType, actorDid, claim, task, micros, prev, id,
    hwrites, hs, hc, ht, rfl⟩ := h
  have hnull : claimId ≠ .null := by
    rintro rfl
    obtain rfl : none = claim := by simpa [Driver.bindNullable] using hc
    exact hclaim rfl
  obtain ⟨⟨name, rfl⟩, htext, htask⟩ := hnamed _ _ _ _ hwrites hnull
  obtain rfl := bindColumn_str hs
  have hlink : linkBytes (.str storedType) actorDid (isoformatNaive micros)
      (env.sha256Hex (canonical payload)) (prev.getD "") (claimId.or (.str ""))
      (taskId.or (.str "")) =
      (buildEntry env (.str storedType) storedType actorDid payload claimId taskId claim task micros
        prev id).linkBytes := by
    rw [htext.or_eq hc, htask.or_eq ht]
    rfl
  refine ⟨rfl, ?_, ?_⟩
  · rw [← hlink]
    rfl
  · rw [← hlink]
    exact signerVerify_sign env _

/-- In every state that such calls reach, the entries of every claim verify. -/
theorem reach_sound (workers : List WcpWorker) {calls : List Call}
    (hnamed : ∀ call ∈ calls, call.Named) (c : String) :
    ∀ e ∈ (reach env workers calls).db.entriesOf c, e.Sound env := by
  intro e he
  obtain ⟨hmem, hclaim⟩ := List.mem_filter.1 he
  have hall := @reach_entries env (fun e => e.claimId ≠ none → e.Sound env) Call.Named
    (fun _ _ hcall hbuilt => hbuilt.sound hcall) workers calls hnamed
  refine hall e hmem fun hnone => ?_
  rw [hnone] at hclaim
  simp at hclaim

/-! ## Chains in the order of time -/

/-- The hash of an entry is that of a link that carries its timestamp. -/
def WcpAudit.Stamped (env : Env) (e : WcpAudit) : Prop :=
  ∃ eventType actorDid payloadHash prevHash claimId taskId, e.thisHash =
    env.sha256Hex (Coordinator.linkBytes eventType actorDid (isoformatNaive e.timestamp) payloadHash
      prevHash claimId taskId)

theorem Call.Built.stamped {call : Call} {e : WcpAudit} (h : call.Built env e) : e.Stamped env := by
  obtain ⟨_, _, _, _, _, _, _, _, _, _, _, -, -, -, -, rfl⟩ := h
  exact ⟨_, _, _, _, _, _, rfl⟩

/-- The entries of a claim form one chain in the order of time. -/
structure Db.Chain (env : Env) (db : Db) (c : String) : Prop where
  inOrder : InOrder (db.entriesOf c)
  linked : Linked none (db.entriesOf c)
  stamped : ∀ e ∈ db.entriesOf c, e.Stamped env

theorem reach_stamped (workers : List WcpWorker) (calls : List Call) :
    ∀ e ∈ (reach env workers calls).db.audit, e.Stamped env :=
  reach_entries (fun _ _ _ hbuilt => Call.Built.stamped hbuilt) workers fun _ _ => trivial

theorem reach_chain_single {workers : List WcpWorker} {calls : List Call} {c : String}
    (h : ((reach env workers calls).db.entriesOf c).map (·.prevHash) = [none]) :
    (reach env workers calls).db.Chain env c := by
  obtain ⟨e, he, hprev⟩ := List.map_eq_singleton_iff.1 h
  refine ⟨?_, ?_, ?_⟩
  · rw [he]
    exact List.pairwise_singleton _ _
  · rw [he]
    exact ⟨hprev, trivial⟩
  · intro e' he'
    exact reach_stamped workers calls e' (List.mem_filter.1 he').1

/-- The clock is past the entries of a claim. -/
def Db.Past (env : Env) (db : Db) (c : String) (tick : Nat) : Prop :=
  ∀ e ∈ db.entriesOf c, e.timestamp < env.clock tick

/-- The clock goes forward from one of some readings to the next. -/
def Env.Ticking (env : Env) (first last : Nat) : Prop :=
  ∀ n m, first ≤ n → n < m → m ≤ last → env.clock n < env.clock m

/-- The state of a transaction on a claim whose entries form a chain, which the clock is past. -/
structure Chained (env : Env) (c : String) (first : Nat) (w : World) : Prop where
  chain : w.db.Chain env c
  past : w.db.Past env c w.tick
  began : first ≤ w.tick

section Chain

variable {c : String} {first last : Nat} {w w' : World} {α β : Type}

theorem linkBytes_timestamp {eventType eventType' claimId claimId' taskId taskId' : Json}
    {actorDid actorDid' payloadHash payloadHash' prevHash prevHash' : String} {t t' : Nat}
    (h : linkBytes eventType actorDid (isoformatNaive t) payloadHash prevHash claimId taskId =
      linkBytes eventType' actorDid' (isoformatNaive t') payloadHash' prevHash' claimId' taskId') :
    t = t' := by
  have hmem := mem_of_sameValue (canonical_inj.1 h)
  simp only [sortKeysMembers, Json.sortKeys, List.cons_subset, List.nil_subset, and_true,
    List.mem_cons, Prod.mk.injEq, String.reduceEq, false_and, true_and, false_or, or_false,
    List.not_mem_nil, Json.str.injEq] at hmem
  exact isoformatNaive_injective hmem.2.2.1

theorem nodup_of_stamped {es : List WcpAudit} (hsha : Function.Injective env.sha256Hex)
    (horder : InOrder es) (hstamped : ∀ e ∈ es, e.Stamped env) : (es.map (·.thisHash)).Nodup := by
  rw [List.nodup_iff_pairwise_ne, List.pairwise_map]
  refine horder.imp_of_mem fun ha hb hlt hhash => ?_
  obtain ⟨_, _, _, _, _, _, hstamp⟩ := hstamped _ ha
  obtain ⟨_, _, _, _, _, _, hstamp'⟩ := hstamped _ hb
  rw [hstamp, hstamp'] at hhash
  exact hlt.ne (linkBytes_timestamp (hsha hhash))

/-- No two entries of a chain in the order of time name the same predecessor. -/
theorem Db.Chain.nodup_prevHash {db : Db} (h : db.Chain env c)
    (hsha : Function.Injective env.sha256Hex) : ((db.entriesOf c).map (·.prevHash)).Nodup :=
  h.linked.nodup_prev (nodup_of_stamped hsha h.inOrder h.stamped)

theorem Chained.mono (h : Chained env c first w) (hclock : env.Ticking first last)
    (haudit : w'.db.audit = w.db.audit) (htick : w.tick ≤ w'.tick) (hlast : w'.tick ≤ last) :
    Chained env c first w' := by
  have hentries : w'.db.entriesOf c = w.db.entriesOf c := entriesOf_of_audit haudit c
  refine ⟨⟨?_, ?_, ?_⟩, ?_, h.began.trans htick⟩
  · exact hentries ▸ h.chain.inOrder
  · exact hentries ▸ h.chain.linked
  · exact hentries ▸ h.chain.stamped
  · intro e he
    have hpast := h.past e (hentries ▸ he)
    rcases htick.eq_or_lt with heq | hlt
    · exact heq ▸ hpast
    · exact hpast.trans (hclock _ _ h.began hlt hlast)

/-- Unless the database raised, the entries still form a chain. -/
def Links (env : Env) (c : String) (r : Except Err α) (w' : World) : Prop :=
  r ≠ .error (.raised .database) → w'.db.Chain env c

theorem Links.settle {m : Action α} (hchain : w.db.Chain env c) (hm : Ends m w (Links env c)) :
    (w.settle (m w)).db.Chain env c :=
  settle_db (R := fun db => db.Chain env c) hchain fun hne _ => hm hne

theorem append_chained {P : Except Err β → World → Prop} {eventType payload taskId : Json}
    {actorDid : String} {f : AuditAppendResult → Action β} (hclock : env.Ticking first last)
    (hc : c ≠ "") (h : Chained env c first w) (hlast : w.tick + 2 ≤ last)
    (hok : ∀ r w', Chained env c first w' → w'.tick = w.tick + 2 → Ends (f r) w' P)
    (herr : ∀ w', P (.error (.raised .database)) w') :
    Ends (append env eventType actorDid payload (.str c) taskId none >>= f) w P := by
  refine append_bind ?_ herr (by simp)
  intro r entry storedType claim task _ _ hclaim _ hentry
  obtain ⟨prev, hprev, rfl⟩ := hentry
  obtain rfl := bindNullable_str hclaim
  have hlatest : prev = tip WcpAudit.thisHash none (w.db.entriesOf c) := by
    have hread := @predecessor_nullable env _ _ (some c) _ hprev
    rw [Option.filter_some, if_pos (by simpa using hc), Option.bind_some,
      latestHashForClaim_of_inOrder h.chain.inOrder] at hread
    exact hread
  refine hok r _ ?_ rfl
  generalize hnew : buildEntry env eventType storedType actorDid payload (.str c) taskId (some c)
    task (env.clock w.tick) prev (env.uuid (w.tick + 1)) = entry
  have hprevHash : entry.prevHash = prev := by rw [← hnew, buildEntry]
  have htime : entry.timestamp = env.clock w.tick := by rw [← hnew, buildEntry]
  have hentries : (w.withEntry entry 2).db.entriesOf c = w.db.entriesOf c ++ [entry] := by
    have hown : entry.claimId = some c := by rw [← hnew, buildEntry]
    rw [entriesOf_concat rfl, if_pos hown]
  refine ⟨⟨?_, ?_, ?_⟩, ?_, h.began.trans (Nat.le_add_right _ _)⟩
  · rw [hentries, InOrder, List.pairwise_append]
    refine ⟨h.chain.inOrder, List.pairwise_singleton _ _, ?_⟩
    intro e he e' he'
    rw [List.mem_singleton.1 he', htime]
    exact h.past e he
  · rw [hentries, Linked, threads_append]
    exact ⟨h.chain.linked, hprevHash.trans hlatest, trivial⟩
  · rw [hentries, List.forall_mem_append, List.forall_mem_singleton]
    refine ⟨h.chain.stamped, ?_⟩
    rw [← hnew]
    exact ⟨_, _, _, _, _, _, rfl⟩
  · have hlater : env.clock w.tick < env.clock (w.withEntry entry 2).tick :=
      hclock _ _ h.began (Nat.lt_add_of_pos_right Nat.two_pos) hlast
    rw [Db.Past, hentries, List.forall_mem_append, List.forall_mem_singleton, htime]
    exact ⟨fun e he => (h.past e he).trans hlater, hlater⟩

variable (hclock : env.Ticking first last) (hc : c ≠ "")

include hclock

theorem recordEvidence_chained {claim : WcpClaim} {outcome : VerificationOutcome}
    {row : EvidenceRow} (h : Chained env c first w) (hlast : w.tick + 1 ≤ last) :
    Ends (recordEvidence env claim outcome row) w
      fun _ w' => Chained env c first w' ∧ w'.tick ≤ w.tick + 1 := by
  unfold recordEvidence
  refine uuid4_bind ?_
  split
  · exact Ends.write ⟨h.mono hclock rfl (Nat.le_succ _) hlast, Nat.le_refl _⟩
  · exact Ends.write ⟨h.mono hclock rfl (Nat.le_succ _) hlast, Nat.le_refl _⟩

theorem collectEvidence_chained {claim : WcpClaim} {resolved : ResolvedDID}
    {claimId taskPayload : Json} {evs : List Json} (h : Chained env c first w)
    (hlast : w.tick + evs.length ≤ last) :
    Ends (collectEvidence env claim resolved claimId taskPayload evs) w
      fun _ w' => Chained env c first w' ∧ w'.tick ≤ w.tick + evs.length := by
  induction evs generalizing w with
  | nil => exact ⟨h, Nat.le_refl _⟩
  | cons ev evs ih =>
      rw [List.length_cons] at hlast ⊢
      have hrest : ∀ w₁, Chained env c first w₁ → w₁.tick ≤ w.tick + 1 →
          ∀ verdict : EvidenceVerdict,
          Ends (collectEvidence env claim resolved claimId taskPayload evs >>= fun rest =>
            pure ((verdict.mode, verdict.outcome) :: rest)) w₁
            fun _ w' => Chained env c first w' ∧ w'.tick ≤ w.tick + (evs.length + 1) := by
        intro w₁ h₁ htick verdict
        refine Ends.bind (Ends.mono (ih h₁ (by omega)) ?_)
        rintro (e | rest) w' ⟨hw', htick'⟩
        · exact ⟨hw', by omega⟩
        · exact ⟨hw', (show w'.tick ≤ _ by omega)⟩
      unfold collectEvidence
      refine Ends.lift_bind ?_ fun e _ => ⟨h, by omega⟩
      intro verdict _
      cases verdict.row with
      | none => exact hrest w h (Nat.le_succ _) verdict
      | some row =>
          refine Ends.bind (Ends.mono (recordEvidence_chained hclock h (by omega)) ?_)
          rintro (e | u) w' ⟨hw', htick'⟩
          · exact ⟨hw', by omega⟩
          · exact hrest w' hw' htick' verdict

include hc

theorem append_last {eventType payload taskId : Json} {actorDid : String}
    {f : AuditAppendResult → Action α} (h : Chained env c first w) (hlast : w.tick + 2 ≤ last)
    (hok : ∀ r w', w'.db.Chain env c → Ends (f r) w' (Links env c)) :
    Ends (append env eventType actorDid payload (.str c) taskId none >>= f) w (Links env c) :=
  append_chained hclock hc h hlast (fun r w' hw' _ => hok r w' hw'.chain)
    fun _ hne => absurd rfl hne

theorem routeDecision_chained {t : WcpTask} {attempt : Nat} {remaining : Int}
    {accountingRef : Json} {aggregate : VerificationOutcome} (h : Chained env c first w)
    (hlast : w.tick + 2 ≤ last) :
    Ends (routeDecision env t (.str c) attempt remaining accountingRef aggregate) w
      (Links env c) := by
  have hmove (state : TaskState) (eventType payload : Json) :
      Ends (do
        setState t state
        let _ ← append env eventType coordinatorDid payload (.str c) (.str t.taskId) none) w
        (Links env c) := by
    refine writeDb_bind (append_last hclock hc (h.mono hclock rfl (Nat.le_refl _) ?_) hlast ?_)
    · show w.tick ≤ last
      omega
    · exact fun _ _ hw' => Ends.pure fun _ => hw'
  unfold routeDecision
  split
  · exact hmove _ _ _
  · split
    · exact hmove _ _ _
    · exact hmove _ _ _
  · exact Ends.pure fun _ => h.chain

theorem attest_chained {attestations : Json} {items : List Json}
    (hitems : ∀ xs, attestations.iter = (.ok xs : Except Err (List Json)) → xs = items)
    (h : Chained env c first w) (hlast : w.tick + (items.length + 4) ≤ last) :
    Ends (attest env (.str c) attestations) w (Links env c) := by
  have hsame {e : Err} : Links env c (.error e : Except Err AttestResult) w := fun _ => h.chain
  unfold attest
  refine readDb_bind ?_ fun e _ => hsame
  rintro ⟨claim, t⟩ -
  refine Ends.lift_bind ?_ fun e _ => hsame
  intro _ _
  refine Ends.lift_bind ?_ fun e _ => hsame
  intro req _
  refine Ends.lift_bind ?_ fun e _ => hsame
  intro taskPayload _
  refine Ends.lift_bind ?_ fun e _ => hsame
  intro limit _
  refine Ends.lift_bind ?_ fun e _ => hsame
  intro resolved _
  refine Ends.lift_bind ?_ fun e _ => hsame
  intro xs hxs
  obtain rfl := hitems xs hxs
  refine Ends.bind (Ends.mono (collectEvidence_chained hclock h (by omega)) ?_)
  rintro (e | outcomes) w₁ ⟨h₁, htick₁⟩
  · exact fun _ => h₁.chain
  refine Ends.lift_bind ?_ fun e _ => fun _ => h₁.chain
  intro aggregate _
  have h₁' : Chained env c first { w₁ with db := w₁.db.updateTask t.taskId fun r =>
      { r with attestationAttemptsUsed := r.attestationAttemptsUsed + 1, state := .attesting } } :=
    h₁.mono hclock rfl (Nat.le_refl _) (show w₁.tick ≤ last by omega)
  refine writeDb_bind (append_chained hclock hc h₁' (show w₁.tick + 2 ≤ last by omega) ?_ ?_)
  · intro r w₂ h₂ htick₂
    refine Ends.lift_bind ?_ fun e _ => fun _ => h₂.chain
    intro accountingRef _
    have hroom : w₂.tick + 2 ≤ last := by
      have htick₂ : w₂.tick = w₁.tick + 2 := htick₂
      omega
    refine Ends.bind (Ends.mono (routeDecision_chained hclock hc h₂ hroom) ?_)
    rintro (e | u) w₃ h₃
    · intro hne
      exact h₃ fun heq => hne (by cases heq; rfl)
    · refine flush_bind (fun _ => ?_) fun hne => absurd rfl hne
      exact Ends.pure fun _ => h₃ nofun
  · exact fun _ hne => absurd rfl hne

theorem executeOpen_chained (h : Chained env c first w) (hlast : w.tick + 3 ≤ last) :
    Ends (executeOpen env (.str c)) w (Links env c) := by
  unfold executeOpen
  refine readDb_bind ?_ fun e _ => fun _ => h.chain
  rintro ⟨claim, t⟩ -
  refine Ends.require_bind ?_ fun _ => fun _ => h.chain
  intro _
  refine uuid4_bind (insertSession_bind (fun stored _ => ?_) fun _ => ?_)
  · refine writeDb_bind (flush_bind (fun _ => ?_) fun hne => absurd rfl hne)
    refine append_last hclock hc (h.mono hclock rfl (Nat.le_succ _) ?_) hlast ?_
    · show w.tick + 1 ≤ last
      omega
    · exact fun _ _ hw' => Ends.pure fun _ => hw'
  · refine writeDb_bind (flush_bind (fun hclean => ?_) fun hne => absurd rfl hne)
    cases hclean

theorem step_executeOpen_chain (h : Chained env c first w) (hlast : w.tick + 3 ≤ last) :
    (step env w (.executeOpen (.str c))).db.Chain env c :=
  Links.settle h.chain (executeOpen_chained hclock hc h hlast)

theorem executeEvent_chained {eventType timestamp payload sig : Json} (h : Chained env c first w)
    (hlast : w.tick + 2 ≤ last) :
    Ends (executeEvent env (.str c) eventType timestamp payload sig) w (Links env c) := by
  unfold executeEvent
  refine readDb_bind ?_ fun e _ => fun _ => h.chain
  rintro ⟨claim, t⟩ -
  refine Ends.require_bind ?_ fun _ => fun _ => h.chain
  intro _
  refine Ends.lift_bind ?_ fun e _ => fun _ => h.chain
  intro _ _
  refine recordHeartbeat_bind ?_ (fun e _ => h.chain) fun _ hne => absurd rfl hne
  intro beat
  refine append_last hclock hc (h.mono hclock rfl (Nat.le_refl _) ?_) hlast ?_
  · show w.tick ≤ last
    omega
  · exact fun _ _ hw' => Ends.pure fun _ => hw'

theorem supervise_chained {handoffReason urgency : Json} (h : Chained env c first w)
    (hlast : w.tick + 3 ≤ last) :
    Ends (supervise env (.str c) handoffReason urgency) w (Links env c) := by
  unfold supervise
  refine readDb_bind ?_ fun e _ => fun _ => h.chain
  rintro ⟨claim, t⟩ -
  refine Ends.require_bind ?_ fun _ => fun _ => h.chain
  intro _
  refine writeDb_bind (flush_bind (fun _ => ?_) fun hne => absurd rfl hne)
  refine uuid4_bind (append_last hclock hc (h.mono hclock rfl (Nat.le_succ _) ?_) hlast ?_)
  · show w.tick + 1 ≤ last
    omega
  · exact fun _ _ hw' => Ends.pure fun _ => hw'

theorem abort_chained {reason stateSnapshot : Json} (h : Chained env c first w)
    (hlast : w.tick + 2 ≤ last) :
    Ends (abort env (.str c) reason stateSnapshot) w (Links env c) := by
  unfold abort
  refine readDb_bind ?_ fun e _ => fun _ => h.chain
  rintro ⟨claim, t⟩ -
  refine Ends.require_bind ?_ fun _ => fun _ => h.chain
  intro _
  have h' : Chained env c first { w with db := w.db.updateTask t.taskId fun r =>
      { r with state := .aborted } } :=
    h.mono hclock rfl (Nat.le_refl _) (show w.tick ≤ last by omega)
  refine writeDb_bind (Ends.lift_bind ?_ fun e _ => fun _ => h'.chain)
  intro accountingRef _
  refine flush_bind (fun _ => ?_) fun hne => absurd rfl hne
  refine append_last hclock hc h' hlast ?_
  exact fun _ _ hw' => uuid4_bind (Ends.pure fun _ => hw')

theorem step_executeEvent_chain {eventType timestamp payload sig : Json}
    (h : Chained env c first w) (hlast : w.tick + 2 ≤ last) :
    (step env w (.executeEvent (.str c) eventType timestamp payload sig)).db.Chain env c :=
  Links.settle h.chain (executeEvent_chained hclock hc h hlast)

end Chain

theorem Db.Chain.verifies {db : Db} {c : String} (h : db.Chain env c)
    (hsound : ∀ e ∈ db.entriesOf c, e.Sound env) (query : Nat) :
    verifyChain env query db c = true := by
  rw [verifyChain, ascending_of_inOrder h.inOrder, walkChain_iff]
  exact ⟨h.linked, hsound⟩

instance (env : Env) (db : Db) (c : String) (tick : Nat) : Decidable (db.Past env c tick) :=
  inferInstanceAs (Decidable (∀ e ∈ db.entriesOf c, e.timestamp < env.clock tick))

theorem localEnv_ticking {first last : Nat} (hlast : last < microsPerDay) :
    localEnv.Ticking first last := by
  intro n m hn hnm hm
  show newYear2026 + n % microsPerDay < newYear2026 + m % microsPerDay
  rw [Nat.mod_eq_of_lt (hnm.trans (hm.trans_lt hlast)), Nat.mod_eq_of_lt (hm.trans_lt hlast)]
  exact Nat.add_lt_add_left hnm _

end Wcp.Coordinator
