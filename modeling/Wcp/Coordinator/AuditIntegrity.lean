import Wcp.Base.HashChain
import Wcp.Base.JsonOrder
import Wcp.Base.Runs
import Wcp.Coordinator.LocalEnvironment
import Wcp.Coordinator.Transactions
/-!
# What the audit chain attests

A table built by `append` holds sound entries, and the entries of a claim thread
when their timestamps grow.  Such a table verifies in whatever order equal
timestamps are read (`appended_verifies`), and a rewritten one verifies exactly
when what is read of a claim follows the honest entries from the first one on
(`verifyChain_iff_prefix`).
-/

namespace Wcp.Coordinator

open Wcp.Base
open Wcp.Base.Exec

variable {env : Env}

/-! ## Signatures -/

theorem signerVerify_sign (env : Env) (data : String) :
    signerVerify env data (sign env data) = true := by
  have htext : (sign env data).toList = sigPrefix.toList ++ b64Body (env.auditSign data) := by
    rw [sign, strip_urlsafeB64encode, String.toList_append, String.toList_ofList]
  have hfirst : sigPrefix.toList.isPrefixOf
      (sigPrefix.toList ++ b64Body (env.auditSign data)) = true :=
    List.isPrefixOf_iff_prefix.2 (List.prefix_append _ _)
  have hdecode := urlsafeB64_roundtrip (env.auditSign data)
  rw [urlsafeB64encode] at hdecode
  unfold signerVerify
  rw [htext, if_pos hfirst]
  dsimp only
  rw [List.drop_left, hdecode]
  exact env.auditSign_verifies data

/-! ## Sound entries -/

/-- An entry carries the hashes of its content and a signature over its link. -/
structure WcpAudit.Sound (env : Env) (e : WcpAudit) : Prop where
  payload : env.sha256Hex (canonical e.payloadJson) = e.payloadHash
  link : env.sha256Hex e.linkBytes = e.thisHash
  sig : signerVerify env e.linkBytes e.sig = true

/-- Every entry names the hash of the one before it. -/
abbrev Linked : Option String → List WcpAudit → Prop :=
  Threads WcpAudit.prevHash WcpAudit.thisHash

theorem walkChain_iff {prev : Option String} {es : List WcpAudit} :
    walkChain env prev es = true ↔ Linked prev es ∧ ∀ e ∈ es, e.Sound env := by
  induction es generalizing prev with
  | nil => simp [walkChain, Threads]
  | cons e es ih =>
      simp only [walkChain, Bool.and_eq_true, decide_eq_true_eq, ih, List.forall_mem_cons, Linked,
        Threads]
      constructor
      · rintro ⟨⟨⟨⟨hprev, hpayload⟩, hlink⟩, hsig⟩, hrest, hsound⟩
        exact ⟨⟨hprev, hrest⟩, ⟨hpayload, hlink, hsig⟩, hsound⟩
      · rintro ⟨⟨hprev, hrest⟩, ⟨hpayload, hlink, hsig⟩, hsound⟩
        exact ⟨⟨⟨⟨hprev, hpayload⟩, hlink⟩, hsig⟩, hrest, hsound⟩

/-! ## Rows in timestamp order -/

/-- Timestamps grow from row to row. -/
def InOrder (es : List WcpAudit) : Prop := es.Pairwise fun a b => a.timestamp < b.timestamp

theorem InOrder.eq_of_timestamp {es : List WcpAudit} (h : InOrder es) {a b : WcpAudit}
    (ha : a ∈ es) (hb : b ∈ es) (hab : a.timestamp = b.timestamp) : a = b := by
  have hnodup : (es.map (·.timestamp)).Nodup := by
    rw [List.nodup_iff_pairwise_ne, List.pairwise_map]
    exact h.imp fun hlt => hlt.ne
  exact List.inj_on_of_nodup_map hnodup ha hb hab

theorem ascending_of_inOrder {es : List WcpAudit} (h : InOrder es) (query : Nat) :
    env.ascending query es = es := by
  have hperm := env.ascending_perm query es
  refine List.Perm.eq_of_pairwise ?_ (env.ascending_sorted query es) (h.imp fun hlt => hlt.le) hperm
  intro a b ha hb hab hba
  exact h.eq_of_timestamp (hperm.subset ha) hb (Nat.le_antisymm hab hba)

theorem descending_of_inOrder {es : List WcpAudit} (h : InOrder es) (query : Nat) :
    env.descending query es = es.reverse := by
  have hperm := env.descending_perm query es
  refine List.Perm.eq_of_pairwise ?_ (env.descending_sorted query es)
    (List.pairwise_reverse.2 (h.imp fun hlt => hlt.le)) (hperm.trans es.reverse_perm.symm)
  intro a b ha hb hab hba
  exact h.eq_of_timestamp (hperm.subset ha) (List.mem_reverse.1 hb) (Nat.le_antisymm hba hab)

theorem latestHashForClaim_of_inOrder {db : Db} {claimId : String}
    (h : InOrder (db.entriesOf claimId)) (query : Nat) :
    latestHashForClaim env query db claimId =
      tip WcpAudit.thisHash none (db.entriesOf claimId) := by
  rw [latestHashForClaim, descending_of_inOrder h, List.head?_reverse, tip, Option.or_none]

/-! ## Honest tables -/

structure AppendCall where
  eventType : String
  actorDid : String
  payload : Json
  claimId : Option String
  taskId : Option String
  timestamp : Option DateTime

/-- An optional text as a JSON value. -/
def nullable : Option String → Json
  | some s => .str s
  | none => .null

/-- The committed state after a call of `append`. -/
def appendStep (env : Env) (w : World) (a : AppendCall) : World :=
  w.settle (append env (.str a.eventType) a.actorDid a.payload (nullable a.claimId)
    (nullable a.taskId) a.timestamp w)

/-- The committed state after a sequence of appends to an empty table. -/
def appended (env : Env) (calls : List AppendCall) : World :=
  run (appendStep env) (World.start Db.empty 0) calls

/-- The time under which a call stores its entry. -/
def AppendCall.time (env : Env) (w : World) (a : AppendCall) : Except Err Nat :=
  normalizeTimestamp (a.timestamp.getD (.utc (env.clock w.tick)))

/-- The entry that a call adds to a table. -/
structure Adds (env : Env) (w : World) (a : AppendCall) (e : WcpAudit) : Prop where
  sound : e.Sound env
  claimId : e.claimId = a.claimId
  time : a.time env w = .ok e.timestamp
  prev : ∃ query, e.prevHash = (a.claimId.filter (· ≠ "")).bind (latestHashForClaim env query w.db)

theorem nullable_or (t : Option String) : (nullable t).or (.str "") = .str (t.getD "") := by
  cases t with
  | none => rfl
  | some s =>
      by_cases hs : s = "" <;> simp [nullable, Json.or, Json.truthy, hs]

theorem bindNullable_nullable {t stored : Option String}
    (h : env.bindNullable (nullable t) = some stored) : stored = t := by
  cases t with
  | none => exact (Option.some.inj h).symm
  | some s => exact bindNullable_str h

theorem predecessor_nullable {query : Nat} {db : Db} {t prev : Option String}
    (h : predecessor env query db (nullable t) = .ok prev) :
    prev = (t.filter (· ≠ "")).bind (latestHashForClaim env query db) := by
  unfold predecessor at h
  cases t with
  | none =>
      cases h
      rfl
  | some s =>
      by_cases hs : s = ""
      · subst hs
        cases h
        rfl
      · rw [if_pos (by simp [nullable, Json.truthy, hs]), bind_eq_ok] at h
        obtain ⟨key, hkey, h⟩ := h
        cases h
        rw [comparedText_text hkey, Option.filter_some, if_pos (by simpa using hs)]

theorem buildEntry_sound (env : Env) (a : AppendCall) (micros : Nat) (prev : Option String)
    (entryId : String) :
    (buildEntry env (.str a.eventType) a.eventType a.actorDid a.payload (nullable a.claimId)
      (nullable a.taskId) a.claimId a.taskId micros prev entryId).Sound env := by
  refine ⟨rfl, ?_, ?_⟩
  · simp only [buildEntry, WcpAudit.linkBytes, nullable_or]
  · simp only [buildEntry, WcpAudit.linkBytes, nullable_or]
    exact signerVerify_sign env _

theorem append_adds (w : World) (a : AppendCall) :
    Ends (append env (.str a.eventType) a.actorDid a.payload (nullable a.claimId)
      (nullable a.taskId) a.timestamp) w (Committed fun db' =>
        db' = w.db ∨ ∃ e, Adds env w a e ∧ db' = { w.db with audit := w.db.audit ++ [e] }) := by
  -- the same for a time that has been read, `w₁` being the state then
  have hat : ∀ w₁ : World, w₁.db = w.db → ∀ ts, a.time env w = normalizeTimestamp ts →
      Ends (append env (.str a.eventType) a.actorDid a.payload (nullable a.claimId)
        (nullable a.taskId) (some ts)) w₁ (Committed fun db' =>
          db' = w.db ∨ ∃ e, Adds env w a e ∧ db' = { w.db with audit := w.db.audit ++ [e] }) := by
    intro w₁ hdb ts hts
    cases hmicros : normalizeTimestamp ts with
    | error err =>
        unfold append
        show Ends (Exec.lift (normalizeTimestamp ts) >>= _) w₁ _
        rw [hmicros]
        exact Committed.of (.inl hdb)
    | ok micros =>
        refine append_ends hmicros ?_ (fun _ _ _ => Committed.database)
          fun _ _ => Committed.of (.inl hdb)
        rintro r entry storedType claim task - hs hc ht ⟨prev, hprev, rfl⟩
        obtain rfl := bindColumn_str hs
        obtain rfl := bindNullable_nullable hc
        obtain rfl := bindNullable_nullable ht
        have hadds := buildEntry_sound env a micros prev (env.uuid w₁.tick)
        refine Committed.of (.inr ⟨_, ⟨hadds, rfl, ?_, ?_⟩, ?_⟩)
        · rw [hts, hmicros]
          rfl
        · exact ⟨w₁.tick, by rw [← hdb]; exact predecessor_nullable hprev⟩
        · rw [World.withEntry, hdb]
  cases hts : a.timestamp with
  | some ts => exact hat w rfl ts (by simp only [AppendCall.time, hts, Option.getD_some])
  | none =>
      have htime : a.time env w = normalizeTimestamp (.utc (env.clock w.tick)) := by
        simp only [AppendCall.time, hts, Option.getD_none]
      rw [append_none]
      with_reducible refine utcnow_bind ?_
      exact hat { w with tick := w.tick + 1 } rfl (.utc (env.clock w.tick)) htime

theorem appendStep_adds (w : World) (a : AppendCall) :
    (appendStep env w a).db = w.db ∨ ∃ e, Adds env w a e ∧
      (appendStep env w a).db = { w.db with audit := w.db.audit ++ [e] } :=
  settle_db (.inl rfl) (append_adds w a)

/-- What holds of a table that was built by `append`: every entry is sound, and the entries of
a claim thread when they are in order.  The empty id is no claim to `append`, so its entries
start a chain each. -/
structure Db.Honest (env : Env) (db : Db) : Prop where
  sound : ∀ e ∈ db.audit, e.Sound env
  linked : ∀ c, InOrder (db.entriesOf c) → (c = "" → (db.entriesOf c).length ≤ 1) →
    Linked none (db.entriesOf c)

theorem Adds.entriesOf {w : World} {a : AppendCall} {e : WcpAudit} {db' : Db}
    (h : Adds env w a e) (hdb : db' = { w.db with audit := w.db.audit ++ [e] }) (c : String) :
    db'.entriesOf c = w.db.entriesOf c ++ if a.claimId = some c then [e] else [] := by
  rw [hdb, Db.entriesOf, List.filter_append, Db.entriesOf]
  by_cases hc : a.claimId = some c <;> simp [h.claimId, hc]

theorem Adds.honest {w : World} {a : AppendCall} {e : WcpAudit} {db' : Db}
    (h : Adds env w a e) (hhonest : w.db.Honest env)
    (hdb : db' = { w.db with audit := w.db.audit ++ [e] }) : db'.Honest env := by
  refine ⟨?_, ?_⟩
  · intro x hx
    rw [hdb] at hx
    rcases List.mem_append.1 hx with hx | hx
    · exact hhonest.sound x hx
    · exact List.mem_singleton.1 hx ▸ h.sound
  · intro c
    rw [h.entriesOf hdb]
    split
    · next hc =>
        intro horder hlength
        have hbefore : InOrder (w.db.entriesOf c) := (List.pairwise_append.1 horder).1
        refine threads_append.2 ⟨hhonest.linked c hbefore fun h => ?_, ?_, trivial⟩
        · have := hlength h
          rw [List.length_append] at this
          omega
        · obtain ⟨query, hprev⟩ := h.prev
          rw [hprev, hc]
          by_cases hempty : c = ""
          · have hnil : w.db.entriesOf c = [] := by
              have := hlength hempty
              rw [List.length_append, List.length_singleton] at this
              exact List.eq_nil_of_length_eq_zero (by omega)
            rw [hnil, hempty]
            rfl
          · rw [Option.filter_some, if_pos (by simpa using hempty)]
            exact latestHashForClaim_of_inOrder hbefore query
    · rw [List.append_nil]
      exact hhonest.linked c

theorem appended_honest (env : Env) (calls : List AppendCall) :
    (appended env calls).db.Honest env := by
  refine @run_invariant _ _ _ (fun w : World => w.db.Honest env) (fun _ => True) ?_ _ _
    ⟨fun _ he => (by cases he), fun _ _ _ => trivial⟩ (fun _ _ => trivial)
  intro w a hhonest _
  rcases appendStep_adds w a with hdb | ⟨e, hadds, hdb⟩
  · exact hdb ▸ hhonest
  · exact hadds.honest hhonest hdb

/-! ## Honest chains verify -/

/-- A call comes after the entries that its claim has, and has them under an id that is not
empty. -/
def Orderly (env : Env) (w : World) (a : AppendCall) : Prop :=
  ∀ c, a.claimId = some c → ∀ e ∈ w.db.entriesOf c,
    c ≠ "" ∧ ∀ micros, a.time env w = .ok micros → e.timestamp < micros

theorem appendStep_inOrder {w : World} {a : AppendCall} (h : Orderly env w a)
    (hw : ∀ c, InOrder (w.db.entriesOf c) ∧ (c = "" → (w.db.entriesOf c).length ≤ 1)) (c : String) :
    InOrder ((appendStep env w a).db.entriesOf c) ∧
      (c = "" → ((appendStep env w a).db.entriesOf c).length ≤ 1) := by
  rcases appendStep_adds w a with hdb | ⟨e, hadds, hdb⟩
  · rw [hdb]
    exact hw c
  · rw [hadds.entriesOf hdb]
    split
    · next hc =>
        refine ⟨List.pairwise_append.2 ⟨(hw c).1, List.pairwise_singleton _ _, ?_⟩, ?_⟩
        · intro x hx y hy
          rw [List.mem_singleton.1 hy]
          exact (h c hc x hx).2 e.timestamp hadds.time
        · intro hempty
          have hnil : w.db.entriesOf c = [] := by
            refine List.eq_nil_iff_forall_not_mem.2 fun x hx => ?_
            exact (h c hc x hx).1 hempty
          rw [hnil]
          rfl
    · rw [List.append_nil]
      exact hw c

/-- A chain whose appends come in order verifies after every append, in whatever order the
database reads rows of one timestamp. -/
theorem appended_verifies (env : Env) (calls : List AppendCall)
    (horderly : ∀ before a after, calls = before ++ a :: after →
      Orderly env (appended env before) a)
    (done : List AppendCall) (hdone : done <+: calls) (query : Nat) (c : String) :
    verifyChain env query (appended env done).db c = true := by
  obtain ⟨rest, hrest⟩ := hdone
  have horder : ∀ c, InOrder ((appended env done).db.entriesOf c) ∧
      (c = "" → ((appended env done).db.entriesOf c).length ≤ 1) := by
    refine @run_invariant_at _ _ (appendStep env) (fun w => ∀ c, InOrder (w.db.entriesOf c) ∧
      (c = "" → (w.db.entriesOf c).length ≤ 1)) (Orderly env) ?_ (World.start Db.empty 0) done ?_ ?_
    · exact fun w a hw ha => appendStep_inOrder ha hw
    · exact fun c => ⟨List.Pairwise.nil, fun _ => Nat.zero_le 1⟩
    · intro before a after hsplit
      exact horderly before a (after ++ rest) (by rw [← hrest, hsplit]; simp)
  have hhonest := appended_honest env done
  rw [verifyChain, ascending_of_inOrder (horder c).1, walkChain_iff]
  refine ⟨hhonest.linked c (horder c).1 (horder c).2, fun e he => ?_⟩
  exact hhonest.sound e (List.mem_filter.1 he).1

/-- An entry of a claim, at a given time or at that of the clock. -/
def localAppend (timestamp : Option DateTime) : AppendCall where
  eventType := "checkpoint"
  actorDid := zeroDid
  payload := .obj []
  claimId := some "c"
  taskId := none
  timestamp := timestamp

theorem localAppend_orderly :
    Orderly localEnv (appended localEnv [localAppend none]) (localAppend none) := by
  have hcheck : (((appended localEnv [localAppend none]).db.entriesOf "c").all fun e =>
      match (localAppend none).time localEnv (appended localEnv [localAppend none]) with
      | .ok micros => decide (e.timestamp < micros)
      | .error _ => true) = true := by decide +kernel
  intro c hc e he
  cases hc
  refine ⟨by decide, fun micros hmicros => ?_⟩
  have hlt := List.all_eq_true.1 hcheck e he
  rw [hmicros] at hlt
  exact of_decide_eq_true hlt

theorem appended_verifies_clock :
    ((appended localEnv [localAppend none, localAppend none]).db.entriesOf "c").length = 2 ∧
      verifyChain localEnv 0 (appended localEnv [localAppend none, localAppend none]).db "c" =
        true := by
  refine ⟨by decide +kernel, appended_verifies localEnv _ ?_ _ List.prefix_rfl 0 "c"⟩
  intro before a after hsplit
  rcases before with _ | ⟨x, _ | ⟨y, before⟩⟩
  · intro c _ e he
    cases he
  · cases hsplit
    exact localAppend_orderly
  · simp at hsplit

/-- A database that reads rows of one timestamp newest first. -/
def newestFirst : Env := { localEnv with
  ascending := fun _ rows => rows.reverse.insertionSort fun a b => a.timestamp ≤ b.timestamp
  ascending_perm := fun _ rows => (List.perm_insertionSort _ _).trans rows.reverse_perm
  ascending_sorted := fun _ _ =>
    haveI : IsTrans WcpAudit fun a b => a.timestamp ≤ b.timestamp := ⟨fun _ _ _ => Nat.le_trans⟩
    haveI : Std.Total fun a b : WcpAudit => a.timestamp ≤ b.timestamp :=
      ⟨fun _ _ => Nat.le_total _ _⟩
    List.pairwise_insertionSort _ _ }

/-- Two entries of one microsecond, both honest, do not verify. -/
theorem tied_entries_unverified :
    verifyChain newestFirst 0 (appended newestFirst
      [localAppend (some (.utc newYear2026)), localAppend (some (.utc newYear2026))]).db "c" =
      false := by
  decide +kernel

/-! ## Tampering -/

/-- A row agrees with an honest entry: in the fields of the link, where an absent task and an
empty one are the same, in its hash, and in its payload as a JSON value. -/
structure Agrees (r e : WcpAudit) : Prop where
  eventType : r.eventType = e.eventType
  actorDid : r.actorDid = e.actorDid
  timestamp : r.timestamp = e.timestamp
  payloadHash : r.payloadHash = e.payloadHash
  prevHash : r.prevHash = e.prevHash
  claimId : r.claimId = e.claimId
  taskId : r.taskId.getD "" = e.taskId.getD ""
  thisHash : r.thisHash = e.thisHash
  payload : r.payloadJson.SameValue e.payloadJson

theorem linkBytes_inj {r e : WcpAudit} (h : r.linkBytes = e.linkBytes) :
    r.eventType = e.eventType ∧ r.actorDid = e.actorDid ∧ r.timestamp = e.timestamp ∧
      r.payloadHash = e.payloadHash ∧ r.prevHash.getD "" = e.prevHash.getD "" ∧
      r.claimId.getD "" = e.claimId.getD "" ∧ r.taskId.getD "" = e.taskId.getD "" := by
  have hmem := mem_of_sameValue (canonical_inj.1 h)
  simp only [sortKeysMembers, Json.sortKeys, List.cons_subset, List.nil_subset, and_true,
    List.mem_cons, Prod.mk.injEq, String.reduceEq, false_and, true_and, false_or, or_false,
    List.not_mem_nil, Json.str.injEq] at hmem
  obtain ⟨htype, hactor, htime, hpayload, hprev, hclaim, htask⟩ := hmem
  exact ⟨htype, hactor, isoformatNaive_injective htime, hpayload, hprev, hclaim, htask⟩

theorem Agrees.linkBytes {r e : WcpAudit} (h : Agrees r e) : r.linkBytes = e.linkBytes := by
  rw [WcpAudit.linkBytes, WcpAudit.linkBytes, h.eventType, h.actorDid, h.timestamp, h.payloadHash,
    h.prevHash, h.claimId, h.taskId]

section Tampering

variable (hsha : Function.Injective env.sha256Hex) (hhex : ∀ s, env.sha256Hex s ≠ "")

include hsha in
theorem nodup_thisHash {es : List WcpAudit} (horder : InOrder es)
    (hsound : ∀ e ∈ es, e.Sound env) : (es.map (·.thisHash)).Nodup := by
  rw [List.nodup_iff_pairwise_ne, List.pairwise_map]
  refine horder.imp_of_mem fun ha hb hlt hhash => ?_
  rw [← (hsound _ ha).link, ← (hsound _ hb).link] at hhash
  exact hlt.ne (linkBytes_inj (hsha hhash)).2.2.1

include hhex in
/-- In a chain of sound entries a predecessor is absent or not empty. -/
theorem prevHash_ne_empty {es : List WcpAudit} (hlinked : Linked none es)
    (hsound : ∀ e ∈ es, e.Sound env) {e : WcpAudit} (he : e ∈ es) : e.prevHash ≠ some "" := by
  intro hempty
  rcases hlinked.prev_eq he with hnone | ⟨x, hx, hprev⟩
  · cases hnone.symm.trans hempty
  · have hhash := Option.some.inj (hprev.symm.trans hempty)
    rw [← (hsound x hx).link] at hhash
    exact hhex _ hhash

include hsha hhex in
/-- A sound row whose link text is that of an honest entry agrees with it, when both stand in
chains of sound entries. -/
theorem agrees_of_linkBytes {rs es : List WcpAudit} (hrs : Linked none rs)
    (hes : Linked none es) (hrsSound : ∀ r ∈ rs, r.Sound env) (hesSound : ∀ e ∈ es, e.Sound env)
    {r e : WcpAudit} (hr : r ∈ rs) (he : e ∈ es) (hclaim : r.claimId = e.claimId)
    (hlink : r.linkBytes = e.linkBytes) : Agrees r e := by
  obtain ⟨htype, hactor, htime, hhash, hprev, -, htask⟩ := linkBytes_inj hlink
  have hprevHash : r.prevHash = e.prevHash := by
    have hr' := prevHash_ne_empty hhex hrs hrsSound hr
    have he' := prevHash_ne_empty hhex hes hesSound he
    cases hrp : r.prevHash with
    | none => cases hep : e.prevHash with
      | none => rfl
      | some y => simp_all
    | some x => cases hep : e.prevHash with
      | none => simp_all
      | some y => simp_all
  have hthis : r.thisHash = e.thisHash := by
    rw [← (hrsSound r hr).link, ← (hesSound e he).link, hlink]
  have hpayload : r.payloadJson.SameValue e.payloadJson := by
    refine canonical_inj.1 (hsha ?_)
    rw [(hrsSound r hr).payload, (hesSound e he).payload, hhash]
  exact ⟨htype, hactor, htime, hhash, hprevHash, hclaim, htask, hthis, hpayload⟩

theorem Agrees.sound {r e : WcpAudit} (h : Agrees r e) (he : e.Sound env)
    (hsig : signerVerify env r.linkBytes r.sig = true) : r.Sound env := by
  refine ⟨?_, ?_, hsig⟩
  · rw [canonical_inj.2 h.payload, he.payload, h.payloadHash]
  · rw [h.linkBytes, he.link, h.thisHash]

end Tampering

/-- Exact tamper evidence.  Let honest appends have built a table in which the entries of `c`
are in order, and let anyone without the signing key put any rows in its place.  The rewritten
table verifies for `c` exactly when the rows read agree with a prefix of the honest entries
and carry valid signatures. -/
theorem verifyChain_iff_prefix (env : Env) (hsha : Function.Injective env.sha256Hex)
    (hhex : ∀ s, env.sha256Hex s ≠ "") (calls : List AppendCall) (c : String) (hc : c ≠ "")
    (horder : InOrder ((appended env calls).db.entriesOf c)) (db : Db)
    (hunforgeable : ∀ r ∈ db.audit, signerVerify env r.linkBytes r.sig = true →
      ∃ e ∈ (appended env calls).db.audit, r.linkBytes = e.linkBytes) (query : Nat) :
    verifyChain env query db c = true ↔
      (∃ honest, honest <+: (appended env calls).db.entriesOf c ∧
        List.Forall₂ Agrees (env.ascending query (db.entriesOf c)) honest) ∧
      ∀ r ∈ env.ascending query (db.entriesOf c), signerVerify env r.linkBytes r.sig = true := by
  have hhonest := appended_honest env calls
  have hlinked := hhonest.linked c horder fun h => absurd h hc
  have hsound : ∀ e ∈ (appended env calls).db.entriesOf c, e.Sound env :=
    fun e he => hhonest.sound e (List.mem_filter.1 he).1
  rw [verifyChain, walkChain_iff]
  constructor
  · rintro ⟨hrows, hrowsSound⟩
    refine ⟨?_, fun r hr => (hrowsSound r hr).sig⟩
    refine exists_prefix_of_agree hlinked (nodup_thisHash hsha horder hsound) hrows ?_
      (fun _ _ h => h.prevHash) fun _ _ h => h.thisHash
    intro r hr
    obtain ⟨hrow, hclaim⟩ := List.mem_filter.1 ((env.ascending_perm query _).subset hr)
    obtain ⟨e, he, hlink⟩ := hunforgeable r hrow (hrowsSound r hr).sig
    have hclaim : r.claimId = some c := of_decide_eq_true hclaim
    have hsame : e.claimId = some c := by
      have hgetD := (linkBytes_inj hlink).2.2.2.2.2.1
      rw [hclaim, Option.getD_some] at hgetD
      cases hec : e.claimId with
      | none => exact absurd (by rw [hgetD, hec]; rfl) hc
      | some c' => rw [hgetD, hec, Option.getD_some]
    have hmem : e ∈ (appended env calls).db.entriesOf c :=
      List.mem_filter.2 ⟨he, decide_eq_true hsame⟩
    exact ⟨e, hmem, agrees_of_linkBytes hsha hhex hrows hlinked hrowsSound hsound hr hmem
      (hclaim.trans hsame.symm) hlink⟩
  · rintro ⟨⟨honest, hfirst, hforall⟩, hsigned⟩
    obtain ⟨rest, hrest⟩ := hfirst
    have hthreads : Linked none honest := (threads_append.1 (hrest ▸ hlinked)).1
    refine ⟨hthreads.of_agree hforall (fun _ _ h => h.prevHash) fun _ _ h => h.thisHash, ?_⟩
    intro r hr
    obtain ⟨i, rfl⟩ := List.mem_iff_get.1 hr
    have hi : i.val < honest.length := hforall.length_eq ▸ i.isLt
    have hagrees := hforall.get i.isLt hi
    have he : honest.get ⟨i.val, hi⟩ ∈ (appended env calls).db.entriesOf c :=
      hrest ▸ List.mem_append_left rest (List.get_mem honest _)
    exact hagrees.sound (hsound _ he) (hsigned _ hr)

theorem Agrees.refl (e : WcpAudit) : Agrees e e := ⟨rfl, rfl, rfl, rfl, rfl, rfl, rfl, rfl, rfl⟩

/-- The local table of two entries, cut after some of them. -/
def localTruncated (n : Nat) : Db :=
  let db := (appended localEnv [localAppend none, localAppend none]).db
  { db with audit := db.audit.take n }

/-- Cutting the last entry off goes unnoticed. -/
theorem verifyChain_iff_prefix_truncated :
    verifyChain localEnv 0 (localTruncated 1) "c" = true := by
  let table := (appended localEnv [localAppend none, localAppend none]).db
  have horder : InOrder (table.entriesOf "c") := by
    unfold InOrder
    decide +kernel
  have hfirst : (localTruncated 1).entriesOf "c" <+: table.entriesOf "c" :=
    (List.take_prefix 1 table.audit).filter _
  have hread : localEnv.ascending 0 ((localTruncated 1).entriesOf "c") =
      (localTruncated 1).entriesOf "c" :=
    ascending_of_inOrder (horder.sublist hfirst.sublist) 0
  have hhonest := appended_honest localEnv [localAppend none, localAppend none]
  have hunforged : ∀ r ∈ (localTruncated 1).audit,
      signerVerify localEnv r.linkBytes r.sig = true →
        ∃ e ∈ table.audit, r.linkBytes = e.linkBytes := by
    intro r hr _
    exact ⟨r, List.mem_of_mem_take hr, rfl⟩
  have hiff := verifyChain_iff_prefix localEnv localEnv_sha256Hex_injective
    localEnv_sha256Hex_ne_empty [localAppend none, localAppend none] "c" (by decide) horder
    (localTruncated 1) hunforged 0
  refine hiff.2 ⟨?_, ?_⟩
  · rw [hread]
    exact ⟨_, hfirst, List.forall₂_same.2 fun e _ => Agrees.refl e⟩
  · intro r hr
    rw [hread] at hr
    exact (hhonest.sound r (List.mem_filter.1 (hfirst.subset hr)).1).sig

end Wcp.Coordinator
