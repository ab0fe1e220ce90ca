import Wcp.Coordinator.Chains
import Wcp.Coordinator.Heartbeats
/-!
# The entries of a task

A task has one posting, which is about no claim, and after it the entries of its one
claim.  `append` links the entries of a claim and nothing else, so the posting stands
alone and the chain of the task begins with its claim (`reach_taskChain`).
-/

namespace Wcp.Coordinator

open Wcp.Base
open Wcp.Base.Exec (Ends)

variable {env : Env} {call : Call} {db db' : Db} {w : World}

/-! ## Entries about a task -/

def Db.entriesAbout (db : Db) (taskId : String) : List WcpAudit :=
  db.audit.filter fun e => e.taskId = some taskId

theorem entriesAbout_concat {e : WcpAudit} (h : db'.audit = db.audit ++ [e]) (id : String) :
    db'.entriesAbout id = db.entriesAbout id ++ if e.taskId = some id then [e] else [] := by
  unfold Db.entriesAbout
  rw [h, List.filter_append]
  by_cases hid : e.taskId = some id <;> simp [hid]

/-- One entry about no claim, and then entries about claims. -/
def Posted (es : List WcpAudit) : Prop :=
  ∃ posting rest, es = posting :: rest ∧ posting.claimId = none ∧ ∀ e ∈ rest, e.claimId ≠ none

/-- The first entry records the claim. -/
def Opened (es : List WcpAudit) : Prop :=
  ∃ first rest, es = first :: rest ∧ first.eventType = "task_claimed"

theorem Posted.concat {es : List WcpAudit} {e : WcpAudit} (h : Posted es)
    (he : e.claimId ≠ none) : Posted (es ++ [e]) := by
  obtain ⟨posting, rest, rfl, hnone, hrest⟩ := h
  refine ⟨posting, rest ++ [e], rfl, hnone, ?_⟩
  rw [List.forall_mem_append, List.forall_mem_singleton]
  exact ⟨hrest, he⟩

theorem Opened.concat {es : List WcpAudit} (h : Opened es) (more : List WcpAudit) :
    Opened (es ++ more) := by
  obtain ⟨first, rest, rfl, htype⟩ := h
  exact ⟨first, rest ++ more, rfl, htype⟩

def Db.taskIds (db : Db) : List String := db.tasks.map (·.taskId)

/-- The ids of the claims, each with that of its task. -/
def Db.claimKeys (db : Db) : List (String × String) := db.claims.map fun c => (c.claimId, c.taskId)

/-- What the audit table says about tasks and claims. -/
structure Db.Storied (db : Db) : Prop where
  /-- Every entry is about a task of the table. -/
  about : ∀ e ∈ db.audit, ∃ id ∈ db.taskIds, e.taskId = some id
  /-- An entry of a claim is about the task of the claim. -/
  ofClaim : ∀ e ∈ db.audit, ∀ id, e.claimId = some id →
    ∃ key ∈ db.claimKeys, key.1 = id ∧ e.taskId = some key.2
  posted : ∀ id ∈ db.taskIds, Posted (db.entriesAbout id)
  opened : ∀ key ∈ db.claimKeys, Opened (db.entriesOf key.1)

theorem Db.Storied.entriesAbout_eq_nil (h : db.Storied) {id : String} (hid : id ∉ db.taskIds) :
    db.entriesAbout id = [] := by
  refine List.filter_eq_nil_iff.2 fun e he htask => hid ?_
  obtain ⟨id', hmem, hid'⟩ := h.about e he
  have hsame := hid'.symm.trans (of_decide_eq_true htask)
  exact Option.some.inj hsame ▸ hmem

theorem Db.Storied.entriesOf_eq_nil (h : db.Storied) {id : String}
    (hid : ∀ key ∈ db.claimKeys, key.1 ≠ id) : db.entriesOf id = [] := by
  refine List.filter_eq_nil_iff.2 fun e he hclaim => ?_
  obtain ⟨key, hkey, hsame, -⟩ := h.ofClaim e he id (of_decide_eq_true hclaim)
  exact hid key hkey hsame

theorem Db.Storied.concat {key : String × String} {e : WcpAudit} (h : db.Storied)
    (hkey : key ∈ db.claimKeys) (htaskId : key.2 ∈ db.taskIds) (hclaim : e.claimId = some key.1)
    (htask : e.taskId = some key.2) (htasks : db'.taskIds = db.taskIds)
    (hclaims : db'.claimKeys = db.claimKeys) (haudit : db'.audit = db.audit ++ [e]) :
    db'.Storied := by
  refine ⟨?_, ?_, ?_, ?_⟩
  · rw [haudit, htasks, List.forall_mem_append, List.forall_mem_singleton]
    exact ⟨h.about, key.2, htaskId, htask⟩
  · rw [haudit, hclaims, List.forall_mem_append, List.forall_mem_singleton]
    exact ⟨h.ofClaim, fun id hid => ⟨key, hkey, Option.some.inj (hclaim.symm.trans hid), htask⟩⟩
  · rw [htasks]
    intro id hid
    rw [entriesAbout_concat haudit]
    split
    · exact (h.posted id hid).concat (by rw [hclaim]; exact nofun)
    · rw [List.append_nil]
      exact h.posted id hid
  · rw [hclaims]
    intro key' hkey'
    rw [entriesOf_concat haudit]
    exact (h.opened key' hkey').concat _

theorem Db.Storied.of_audit (h : db.Storied) (htasks : db'.taskIds = db.taskIds)
    (hclaims : db'.claimKeys = db.claimKeys) (haudit : db'.audit = db.audit) : db'.Storied := by
  refine ⟨?_, ?_, ?_, ?_⟩
  · simpa only [htasks, haudit] using h.about
  · simpa only [hclaims, haudit] using h.ofClaim
  · simpa only [Db.entriesAbout, htasks, haudit] using h.posted
  · simpa only [Db.entriesOf, hclaims, haudit] using h.opened

theorem taskIds_progressed {id : String} {p : Progress} (h : db'.tasks = db.progressed id p) :
    db'.taskIds = db.taskIds := by
  unfold Db.taskIds
  rw [h, map_taskId_progressed]

theorem claimKeys_beat {id : String} {beat : Option DateTime → Option DateTime}
    (h : db'.claims = (db.updateClaim id fun r =>
      { r with lastHeartbeatAt := beat r.lastHeartbeatAt }).claims) :
    db'.claimKeys = db.claimKeys := by
  unfold Db.claimKeys
  rw [h, Db.updateClaim, List.map_map]
  refine List.map_congr_left fun c _ => ?_
  by_cases hid : c.claimId = id <;> simp [hid]

theorem Db.Holds.key_mem {c : WcpClaim} {t : WcpTask} (h : db.Holds c t) :
    (c.claimId, c.taskId) ∈ db.claimKeys ∧ c.taskId ∈ db.taskIds :=
  ⟨List.mem_map_of_mem h.claim, h.same ▸ List.mem_map_of_mem h.task⟩

theorem Change.storied (h : Change env call db db') (hdb : db.Storied) : db'.Storied := by
  cases h with
  | quiet htasks hclaims haudit =>
      have hids : db'.taskIds = db.taskIds := by rw [Db.taskIds, htasks, Db.taskIds]
      have hkeys : db'.claimKeys = db.claimKeys := by rw [Db.claimKeys, hclaims, Db.claimKeys]
      exact hdb.of_audit hids hkeys haudit
  | posted row entry hchecked hprogress hfresh hentry htasks hclaims haudit hauthor =>
      have hids : db'.taskIds = db.taskIds ++ [row.taskId] := by
        rw [Db.taskIds, htasks, List.map_append]
        rfl
      have hkeys : db'.claimKeys = db.claimKeys := by rw [Db.claimKeys, hclaims, Db.claimKeys]
      have hnew : row.taskId ∉ db.taskIds := by
        intro hmem
        obtain ⟨t, ht, hid⟩ := List.mem_map.1 hmem
        exact findTask_eq_none hfresh t ht hid
      refine ⟨?_, ?_, ?_, ?_⟩
      · rw [haudit, hids, List.forall_mem_append, List.forall_mem_singleton]
        refine ⟨fun e he => ?_, row.taskId, by simp, hauthor.2.taskId⟩
        obtain ⟨id, hid, htask⟩ := hdb.about e he
        exact ⟨id, List.mem_append_left _ hid, htask⟩
      · rw [haudit, hkeys, List.forall_mem_append, List.forall_mem_singleton]
        refine ⟨hdb.ofClaim, fun id hid => ?_⟩
        rw [hentry] at hid
        cases hid
      · rw [hids, List.forall_mem_append, List.forall_mem_singleton]
        constructor
        · intro id hid
          have hother : row.taskId ≠ id := fun hsame => hnew (hsame ▸ hid)
          rw [entriesAbout_concat haudit, hauthor.2.taskId, if_neg (by simpa using hother),
            List.append_nil]
          exact hdb.posted id hid
        · rw [entriesAbout_concat haudit, hdb.entriesAbout_eq_nil hnew, if_pos hauthor.2.taskId]
          exact ⟨entry, [], rfl, hentry, fun _ he => absurd he List.not_mem_nil⟩
      · rw [hkeys]
        intro key hkey
        rw [entriesOf_concat haudit]
        exact (hdb.opened key hkey).concat _
  | claimed t c entry ht hposted hfresh hsame haccepted hid hbinds htype hentry htasks hclaims
      haudit hauthor =>
      have hids := taskIds_progressed htasks
      have hkeys : db'.claimKeys = db.claimKeys ++ [(c.claimId, c.taskId)] := by
        rw [Db.claimKeys, hclaims, List.map_append]
        rfl
      have hnew : ∀ key ∈ db.claimKeys, key.1 ≠ c.claimId := by
        intro key hkey
        obtain ⟨c', hc', rfl⟩ := List.mem_map.1 hkey
        exact findClaim_eq_none hfresh c' hc'
      have htask : entry.taskId = some c.taskId := by rw [hauthor.2.taskId, hsame]
      refine ⟨?_, ?_, ?_, ?_⟩
      · rw [haudit, hids, List.forall_mem_append, List.forall_mem_singleton]
        exact ⟨hdb.about, t.taskId, List.mem_map_of_mem ht, hauthor.2.taskId⟩
      · rw [haudit, hkeys, List.forall_mem_append, List.forall_mem_singleton]
        refine ⟨fun e he id hid' => ?_, fun id hid' => ?_⟩
        · obtain ⟨key, hkey, hof⟩ := hdb.ofClaim e he id hid'
          exact ⟨key, List.mem_append_left _ hkey, hof⟩
        · exact ⟨(c.claimId, c.taskId), by simp, Option.some.inj (hentry.symm.trans hid'), htask⟩
      · rw [hids]
        intro id hid'
        rw [entriesAbout_concat haudit]
        split
        · exact (hdb.posted id hid').concat (by simp [hentry])
        · rw [List.append_nil]
          exact hdb.posted id hid'
      · rw [hkeys, List.forall_mem_append, List.forall_mem_singleton]
        constructor
        · intro key hkey
          rw [entriesOf_concat haudit]
          exact (hdb.opened key hkey).concat _
        · rw [entriesOf_concat haudit, hdb.entriesOf_eq_nil hnew, if_pos hentry]
          exact ⟨entry, [], rfl, htype⟩
  | moved c t p entry hholds hmove hreplay hpayload hentry hcall htasks hclaims haudit hauthor =>
      obtain ⟨hkey, htaskId⟩ := hholds.key_mem
      have hkeys : db'.claimKeys = db.claimKeys := by rw [Db.claimKeys, hclaims, Db.claimKeys]
      exact hdb.concat hkey htaskId hentry (hholds.same ▸ hauthor.taskId)
        (taskIds_progressed htasks) hkeys haudit
  | event c t beat entry eventType hcall htype hholds hstate hentry htasks hclaims haudit hauthor =>
      obtain ⟨hkey, htaskId⟩ := hholds.key_mem
      have hids : db'.taskIds = db.taskIds := by rw [Db.taskIds, htasks, Db.taskIds]
      exact hdb.concat hkey htaskId hentry (hholds.same ▸ hauthor.taskId) hids
        (claimKeys_beat hclaims) haudit
  | unrecorded c t p name hholds hmove hname hcall htasks hclaims haudit =>
      have hkeys : db'.claimKeys = db.claimKeys := by rw [Db.claimKeys, hclaims, Db.claimKeys]
      exact hdb.of_audit (taskIds_progressed htasks) hkeys haudit
  | unheard c t beat hcall hholds hstate htasks hclaims haudit =>
      have hids : db'.taskIds = db.taskIds := by rw [Db.taskIds, htasks, Db.taskIds]
      exact hdb.of_audit hids (claimKeys_beat hclaims) haudit

theorem reach_storied (env : Env) (workers : List WcpWorker) (calls : List Call) :
    (reach env workers calls).db.Storied := by
  refine (@run_changes_invariant env Db.Storied (fun _ => True)
    (fun _ _ _ _ _ hchange hdb => hchange.storied hdb) (initial workers) calls
    (initial_wellFormed workers) ⟨?_, ?_, ?_, ?_⟩ fun _ _ => trivial).2
  · exact fun _ he => absurd he List.not_mem_nil
  · exact fun _ he => absurd he List.not_mem_nil
  · exact fun _ hid => absurd hid List.not_mem_nil
  · exact fun _ hkey => absurd hkey List.not_mem_nil

/-! ## Links within a claim -/

/-- Only a string is stored as the text of an id that was drawn: no number reads like one. -/
def Env.IdsAreTexts (env : Env) : Prop :=
  ∀ n v, env.bindText v = some (env.uuid n) → v = .str (env.uuid n)

/-- The entries of a claim in an audit table. -/
def ofClaim (id : String) (es : List WcpAudit) : List WcpAudit :=
  es.filter fun e => e.claimId = some id

theorem ofClaim_concat (id : String) (es : List WcpAudit) (e : WcpAudit) :
    ofClaim id (es ++ [e]) = ofClaim id es ++ if e.claimId = some id then [e] else [] := by
  unfold ofClaim
  rw [List.filter_append]
  by_cases hid : e.claimId = some id <;> simp [hid]

/-- As long as their timestamps grow, the entries of a claim are linked. -/
def LinkedWhileInOrder (id : String) (es : List WcpAudit) : Prop :=
  ∀ xs, xs <+: ofClaim id es → InOrder xs → Linked none xs

theorem Call.BuiltAt.prevHash_eq {es : List WcpAudit} {e : WcpAudit} {n : Nat}
    (h : call.BuiltAt env es e) (hids : env.IdsAreTexts) (hclaim : e.claimId = some (env.uuid n))
    (horder : InOrder (ofClaim (env.uuid n) es)) :
    e.prevHash = tip WcpAudit.thisHash none (ofClaim (env.uuid n) es) := by
  obtain ⟨_, _, claimId, _, _, _, claim, _, _, prev, _, query, db, rfl, hprev, -, -, -, hc, -,
    rfl⟩ := h
  obtain rfl : claim = some (env.uuid n) := hclaim
  have hbound : env.bindText claimId = some (env.uuid n) := by
    unfold Driver.bindNullable at hc
    split at hc
    · cases hc
    · obtain ⟨s, hs, heq⟩ := Option.map_eq_some_iff.1 hc
      rw [hs, Option.some.inj heq]
  obtain rfl := hids n claimId hbound
  have hread := @predecessor_nullable env _ _ (some (env.uuid n)) _ hprev
  rw [Option.filter_some, if_pos (by simpa using env.uuid_ne_empty n), Option.bind_some] at hread
  exact hread.trans (latestHashForClaim_of_inOrder horder query)

theorem Extended.linkedWhileInOrder {es es' : List WcpAudit} {n : Nat}
    (h : Extended (call.BuiltAt env) es es') (hids : env.IdsAreTexts)
    (hes : LinkedWhileInOrder (env.uuid n) es) : LinkedWhileInOrder (env.uuid n) es' := by
  induction h with
  | refl => exact hes
  | tail _ hlast ih =>
      obtain ⟨e, he, rfl⟩ := hlast
      intro xs hxs horder
      rw [ofClaim_concat] at hxs
      by_cases hclaim : e.claimId = some (env.uuid n)
      · rw [if_pos hclaim, List.prefix_concat_iff] at hxs
        rcases hxs with rfl | hxs
        · rw [InOrder, List.pairwise_append] at horder
          rw [Linked, threads_append]
          exact ⟨ih _ List.prefix_rfl horder.1, he.prevHash_eq hids hclaim horder.1, trivial⟩
        · exact ih xs hxs horder
      · rw [if_neg hclaim, List.append_nil] at hxs
        exact ih xs hxs horder

theorem reach_linkedWhileInOrder (hids : env.IdsAreTexts) (workers : List WcpWorker)
    (calls : List Call) (n : Nat) :
    LinkedWhileInOrder (env.uuid n) (reach env workers calls).db.audit := by
  refine @run_invariant _ _ (step env) (fun w => LinkedWhileInOrder (env.uuid n) w.db.audit)
    (fun _ => True) ?_ (initial workers) calls ?_ fun _ _ => trivial
  · exact fun w call hw _ => (step_extends env w call).linkedWhileInOrder hids hw
  · intro xs hxs _
    rw [List.prefix_nil.1 hxs]
    trivial

/-- The id of every claim was drawn. -/
def Db.Drawn (env : Env) (db : Db) : Prop := ∀ key ∈ db.claimKeys, ∃ n, key.1 = env.uuid n

theorem Db.Drawn.of_claims (h : db.Drawn env) (hclaims : db'.claims = db.claims) :
    db'.Drawn env := by
  unfold Db.Drawn Db.claimKeys
  rw [hclaims]
  exact h

theorem executeEvent_leavesKeys (claimId eventType timestamp payload sig : Json) :
    Exec.Leaves (fun w : World => w.db.claimKeys)
      (executeEvent env claimId eventType timestamp payload sig) := by
  have hkeys : ReadsLifecycle fun w : World => w.db.claimKeys :=
    fun _ _ _ hclaims => congrArg (List.map _) hclaims
  have hbeat (c : WcpClaim) : Exec.Leaves (fun w : World => w.db.claimKeys)
      (recordHeartbeat env c eventType timestamp) := by
    unfold recordHeartbeat
    split
    · refine .bind (.lift _) fun sentAt => .bind (.write fun w => ?_) fun _ => hkeys.flush
      exact @claimKeys_beat w.db _ c.claimId (fun _ => some (env.storeTime sentAt)) rfl
    · exact .pure _
  refine .bind (.reads _) ?_
  rintro ⟨c, t⟩
  exact .bind (.require _) fun _ => .bind (.lift _) fun _ => .bind (hbeat c) fun _ =>
    .bind (hkeys.append _ _ _ _ _) fun _ => .pure _

theorem step_drawn (h : w.db.Drawn env) (call : Call) :
    (step env w call).db.Drawn env := by
  cases call with
  | post task expiry informational => exact h.of_claims (settle_claims (post_leavesClaims _ _ _) w)
  | claim taskId workerId eta acceptance bid =>
      refine settle_db (R := fun db => db.Drawn env) h fun hne hdone => ?_
      rcases claim_claims taskId workerId eta acceptance bid hne hdone with
        hclaims | ⟨c, hid, -, -, hclaims⟩
      · exact h.of_claims hclaims
      · unfold Db.Drawn Db.claimKeys
        rw [hclaims, List.map_append, List.forall_mem_append]
        exact ⟨h, List.forall_mem_singleton.2 ⟨w.tick + 2, hid⟩⟩
  | executeOpen claimId => exact h.of_claims (settle_claims (executeOpen_leavesClaims _) w)
  | executeEvent claimId eventType timestamp payload sig =>
      refine settle_db (R := fun db => db.Drawn env) h fun _ _ => ?_
      have hkeys : (executeEvent env claimId eventType timestamp payload sig w).2.db.claimKeys =
          w.db.claimKeys := executeEvent_leavesKeys claimId eventType timestamp payload sig w
      exact fun key hkey => h key (hkeys ▸ hkey)
  | checkHeartbeats now => exact h.of_claims (settle_claims (checkHeartbeats_leavesClaims _) w)
  | attest claimId attestations => exact h.of_claims (settle_claims (attest_leavesClaims _ _) w)
  | supervise claimId handoffReason urgency =>
      exact h.of_claims (settle_claims (supervise_leavesClaims _ _ _) w)
  | abort claimId reason stateSnapshot =>
      exact h.of_claims (settle_claims (abort_leavesClaims _ _ _) w)
  | upsertCapabilities workerId capabilities principalId ttlSeconds =>
      exact h.of_claims (settle_claims (readsClaims.upsertCapabilities _ _ _ _) w)
  | createSubscription agentDid filterDict sinceRevision =>
      exact h.of_claims (settle_claims (readsClaims.createSubscription _ _ _) w)

theorem reach_drawn (env : Env) (workers : List WcpWorker) (calls : List Call) :
    (reach env workers calls).db.Drawn env := by
  refine @run_invariant _ _ (step env) (fun w => w.db.Drawn env) (fun _ => True) ?_
    (initial workers) calls (fun _ hkey => absurd hkey List.not_mem_nil) fun _ _ => trivial
  exact fun w call hw _ => step_drawn hw call

/-! ## The chain of a task -/

/-- An entry about no claim records a posting and has no predecessor. -/
theorem reach_posting (env : Env) (workers : List WcpWorker) (calls : List Call) :
    ∀ e ∈ (reach env workers calls).db.audit, e.claimId = none →
      e.eventType = "task_posted" ∧ e.prevHash = none := by
  refine @reach_entriesAt env (fun e => e.claimId = none →
    e.eventType = "task_posted" ∧ e.prevHash = none) (fun _ => True) ?_ workers calls
    fun _ _ => trivial
  rintro call es e - ⟨_, _, claimId, _, storedType, _, claim, _, _, prev, _, query, db, -, hprev,
    hposting, -, hs, hc, -, rfl⟩ hnone
  obtain rfl : claim = none := hnone
  have hnull : claimId = .null := by
    unfold Driver.bindNullable at hc
    split at hc
    · assumption
    · simp at hc
  subst hnull
  obtain rfl := hposting rfl
  refine ⟨bindColumn_str hs, ?_⟩
  cases hprev
  rfl

theorem Db.Storied.exists_claim {e : WcpAudit} {taskId : String} (h : db.Storied)
    (he : e ∈ db.entriesAbout taskId) (hclaim : e.claimId ≠ none) :
    ∃ c ∈ db.claims, c.taskId = taskId ∧ e.claimId = some c.claimId := by
  obtain ⟨haudit, htask⟩ := List.mem_filter.1 he
  obtain ⟨id, hid⟩ := Option.ne_none_iff_exists'.1 hclaim
  obtain ⟨key, hkey, rfl, hof⟩ := h.ofClaim e haudit id hid
  obtain ⟨c, hc, rfl⟩ := List.mem_map.1 hkey
  exact ⟨c, hc, Option.some.inj (hof.symm.trans (of_decide_eq_true htask)), hid⟩

/-- The entries of the claim of a task are those about the task that are about a claim. -/
theorem Db.Storied.rest_eq {posting : WcpAudit} {rest : List WcpAudit} {c : WcpClaim} {t : WcpTask}
    (h : db.Storied) (hwf : db.WellFormed) (hlife : db.Lifecycle env) (hholds : db.Holds c t)
    (hentries : db.entriesAbout t.taskId = posting :: rest) (hnone : posting.claimId = none)
    (hrest : ∀ e ∈ rest, e.claimId ≠ none) : rest = db.entriesOf c.claimId := by
  have hown : ∀ e ∈ rest, e.claimId = some c.claimId := by
    intro e he
    obtain ⟨c', hc', hsame, hclaim⟩ :=
      h.exists_claim (hentries ▸ List.mem_cons_of_mem _ he) (hrest e he)
    rw [hclaim, hlife.holder_eq hholds hc' hsame]
  have habout : (db.entriesAbout t.taskId).filter (fun e => e.claimId = some c.claimId) =
      db.entriesOf c.claimId := by
    rw [Db.entriesAbout, List.filter_filter, Db.entriesOf]
    refine List.filter_congr fun e he => ?_
    by_cases hclaim : e.claimId = some c.claimId
    · obtain ⟨key, hkey, hid, hof⟩ := h.ofClaim e he _ hclaim
      obtain ⟨c', hc', rfl⟩ := List.mem_map.1 hkey
      rw [hwf.claim_eq hc' hholds.claim hid, hholds.same] at hof
      simp [hclaim, hof]
    · simp [hclaim]
  rw [← habout, hentries, List.filter_cons_of_neg (by simp [hnone]), List.filter_eq_self.2]
  exact fun e he => decide_eq_true (hown e he)

/-- What a chain in the order of time says about entries that have a successor. -/
theorem Linked.tamperEvident {es : List WcpAudit} (hsha : Function.Injective env.sha256Hex)
    (hlinked : Linked none es) (horder : InOrder es) (hstamped : ∀ e ∈ es, e.Stamped env)
    {xs ys : List WcpAudit} {e next : WcpAudit} (hes : es = xs ++ e :: next :: ys) :
    ¬ Linked none (xs ++ next :: ys) ∧ ∀ e' : WcpAudit, e'.thisHash ≠ e.thisHash →
      ¬ Linked none (xs ++ e' :: next :: ys) := by
  have hnodup := nodup_of_stamped hsha horder hstamped
  subst hes
  exact ⟨hlinked.not_without hnodup, fun e' hne => hlinked.not_altered hne⟩

/-- Every task has one posting, which stands on no chain, and after it exactly the entries of its
claim. While their timestamps grow these are one chain, from which no entry that has a successor
can be removed, and in which no hash of such an entry can be changed. -/
theorem reach_taskChain (env : Env) (hsha : Function.Injective env.sha256Hex)
    (hids : env.IdsAreTexts) (workers : List WcpWorker) (calls : List Call) (t : WcpTask)
    (ht : t ∈ (reach env workers calls).db.tasks) :
    ∃ posting rest, (reach env workers calls).db.entriesAbout t.taskId = posting :: rest ∧
      posting.eventType = "task_posted" ∧ posting.claimId = none ∧ posting.prevHash = none ∧
      ((t.state = .posted ∧ rest = []) ∨
        ∃ c claimed later, (reach env workers calls).db.Holds c t ∧ rest = claimed :: later ∧
          rest = (reach env workers calls).db.entriesOf c.claimId ∧
          claimed.eventType = "task_claimed" ∧ claimed.prevHash = none ∧
          (InOrder rest → Linked none rest ∧
            ∀ xs e next ys, rest = xs ++ e :: next :: ys → ¬ Linked none (xs ++ next :: ys) ∧
              ∀ e' : WcpAudit, e'.thisHash ≠ e.thisHash →
                ¬ Linked none (xs ++ e' :: next :: ys))) := by
  have hstoried := reach_storied env workers calls
  obtain ⟨hwf, hlife⟩ := reach_lifecycle env workers calls
  obtain ⟨posting, rest, hentries, hnone, hrest⟩ :=
    hstoried.posted t.taskId (List.mem_map_of_mem ht)
  have hmem : posting ∈ (reach env workers calls).db.entriesAbout t.taskId :=
    hentries ▸ List.mem_cons_self
  obtain ⟨htype, hprev⟩ :=
    reach_posting env workers calls posting (List.mem_filter.1 hmem).1 hnone
  refine ⟨posting, rest, hentries, htype, hnone, hprev, ?_⟩
  have hclaimed := hlife.claimed t ht
  unfold Db.ClaimedOnce at hclaimed
  split at hclaimed
  · next hposted =>
      refine .inl ⟨hposted, List.eq_nil_iff_forall_not_mem.2 fun e he => ?_⟩
      obtain ⟨c, hc, hsame, -⟩ :=
        hstoried.exists_claim (hentries ▸ List.mem_cons_of_mem _ he) (hrest e he)
      have hmem' := mem_claimsOn.2 ⟨hc, hsame⟩
      rw [hclaimed] at hmem'
      cases hmem'
  · obtain ⟨c, hc, -⟩ := hclaimed
    obtain ⟨hmemc, hsame⟩ := mem_claimsOn.1 (hc ▸ List.mem_singleton_self c)
    have hholds : (reach env workers calls).db.Holds c t := ⟨hmemc, ht, hsame⟩
    have hrestEq := hstoried.rest_eq hwf hlife hholds hentries hnone hrest
    obtain ⟨claimed, later, hopened, hclaimedType⟩ :=
      hstoried.opened _ (List.mem_map_of_mem hmemc)
    obtain ⟨n, hdrawn⟩ := reach_drawn env workers calls _ (List.mem_map_of_mem hmemc)
    have hlinked := reach_linkedWhileInOrder hids workers calls n
    rw [LinkedWhileInOrder, ← hdrawn, show ofClaim c.claimId _ = rest from hrestEq.symm] at hlinked
    have hfirst : rest = claimed :: later := hrestEq.trans hopened
    have hstamped : ∀ e ∈ rest, e.Stamped env := by
      intro e he
      rw [hrestEq] at he
      exact reach_stamped workers calls e (List.mem_filter.1 he).1
    refine .inr ⟨c, claimed, later, hholds, hfirst, hrestEq, hclaimedType, ?_, fun horder => ?_⟩
    · have hone := hlinked [claimed] (hfirst ▸ ⟨later, rfl⟩) (List.pairwise_singleton _ _)
      exact hone.1
    · have hchain := hlinked rest List.prefix_rfl horder
      exact ⟨hchain, fun xs e next ys hes => hchain.tamperEvident hsha horder hstamped hes⟩

theorem localEnv_idsAreTexts : localEnv.IdsAreTexts := by
  intro n v hv
  cases v with
  | str s =>
      cases hv
      rfl
  | _ => cases hv

/-- The entries of the claim of the local run are one chain, in the order of time. -/
theorem reach_taskChain_completed :
    ∃ t ∈ (reach localEnv [zeroWorker] localCompleted).db.tasks, t.state = .completed ∧
      ∃ posting rest, (reach localEnv [zeroWorker] localCompleted).db.entriesAbout t.taskId =
        posting :: rest ∧ InOrder rest ∧ Linked none rest := by
  have hcheck : (reach localEnv [zeroWorker] localCompleted).db.tasks.any (fun t =>
      decide (t.state = .completed ∧
        (((reach localEnv [zeroWorker] localCompleted).db.entriesAbout t.taskId).tail.map
          (·.timestamp)).Pairwise (· < ·))) = true := by decide +kernel
  obtain ⟨t, ht, hdec⟩ := List.any_eq_true.1 hcheck
  obtain ⟨hdone, htimes⟩ := of_decide_eq_true hdec
  obtain ⟨posting, rest, hentries, -, -, -, hrest⟩ := reach_taskChain localEnv
    localEnv_sha256Hex_injective localEnv_idsAreTexts [zeroWorker] localCompleted t ht
  rw [hentries, List.tail_cons, List.pairwise_map] at htimes
  rcases hrest with ⟨hposted, -⟩ | ⟨_, _, _, -, -, -, -, -, hchain⟩
  · rw [hdone] at hposted
    cases hposted
  · exact ⟨t, ht, hdone, posting, rest, hentries, htimes, (hchain htimes).1⟩

theorem not_linked_of_prevHash {es : List WcpAudit} (h : es.map (·.prevHash) = [none, none]) :
    ¬ Linked none es := by
  intro hlinked
  have hprev := h.symm.trans hlinked.map_prev
  have hlength : es.length = 2 := by simpa using congrArg List.length h
  rw [hlength] at hprev
  obtain ⟨first, second, rfl⟩ := List.length_eq_two.1 hlength
  simp at hprev

/-- Once the task of the local run is claimed, it has two entries that name no predecessor. -/
theorem posting_off_the_chain :
    ∃ t ∈ (reach localEnv [zeroWorker] localClaim).db.tasks,
      ¬ Linked none ((reach localEnv [zeroWorker] localClaim).db.entriesAbout t.taskId) := by
  have hcheck : (reach localEnv [zeroWorker] localClaim).db.tasks.any (fun t =>
      decide (((reach localEnv [zeroWorker] localClaim).db.entriesAbout t.taskId).map
        (·.prevHash) = [none, none])) = true := by decide +kernel
  obtain ⟨t, ht, hdec⟩ := List.any_eq_true.1 hcheck
  exact ⟨t, ht, not_linked_of_prevHash (of_decide_eq_true hdec)⟩

end Wcp.Coordinator
