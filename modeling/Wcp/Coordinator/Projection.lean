import Wcp.Base.Coupling
import Wcp.Coordinator.Operations
/-!
# The database of one task

`Db.only t` is the database with nothing in it but the task `t`, its claims, what
belongs to these, and the workers.  The rows of the database refer to each other
(`World.Linked`), so a write that belongs to one task is seen in the database of
that task alone (`Beside`).
-/

namespace Wcp.Coordinator

open Wcp.Base
open Wcp.Base.Exec

variable {env : Env} {db db' : Db} {w w' : World} {t id : String}

/-- The claim is stored and on the task. -/
def Db.isOn (db : Db) (t id : String) : Bool := (db.findClaim id).any fun c => c.taskId = t

/-- What belongs to a task, and the workers. -/
def Db.only (t : String) (db : Db) : Db where
  workers := db.workers
  tasks := db.tasks.filter fun r => r.taskId = t
  claims := db.claims.filter fun c => c.taskId = t
  sessions := db.sessions.filter fun s => db.isOn t s.claimId
  attestations := db.attestations.filter fun a => db.isOn t a.claimId
  audit := db.audit.filter fun e => e.taskId = some t
  subscriptions := []

def World.only (t : String) (w : World) : World := { w with db := w.db.only t }

/-! ## Rows that refer to each other -/

/-- Every row refers to rows that are there, and claim ids were drawn and are distinct. -/
structure World.Linked (env : Env) (w : World) : Prop where
  claims : ∀ c ∈ w.db.claims, (∃ r ∈ w.db.tasks, r.taskId = c.taskId) ∧
    ∃ r ∈ w.db.workers, r.workerId = c.workerId
  drawn : ∀ c ∈ w.db.claims, ∃ n < w.tick, c.claimId = env.uuid n
  distinct : (w.db.claims.map (·.claimId)).Nodup
  sessions : ∀ s ∈ w.db.sessions, ∃ c, w.db.findClaim s.claimId = some c
  attestations : ∀ a ∈ w.db.attestations, ∃ c, w.db.findClaim a.claimId = some c ∧
    c.workerId = a.workerId
  entries : ∀ e ∈ w.db.audit, (∃ r ∈ w.db.tasks, e.taskId = some r.taskId) ∧
    ∀ id, e.claimId = some id → ∃ c, w.db.findClaim id = some c ∧ e.taskId = some c.taskId

theorem initial_linked (env : Env) (workers : List WcpWorker) :
    (World.start { Db.empty with workers := workers } 0).Linked env where
  claims _ h := absurd h List.not_mem_nil
  drawn _ h := absurd h List.not_mem_nil
  distinct := List.nodup_nil
  sessions _ h := absurd h List.not_mem_nil
  attestations _ h := absurd h List.not_mem_nil
  entries _ h := absurd h List.not_mem_nil

/-- What a row refers to is there still. -/
structure Db.Holding (db db' : Db) : Prop where
  tasks : ∀ r ∈ db.tasks, ∃ r' ∈ db'.tasks, r'.taskId = r.taskId
  workers : ∀ r ∈ db.workers, ∃ r' ∈ db'.workers, r'.workerId = r.workerId
  claims : ∀ id c, db.findClaim id = some c →
    ∃ c', db'.findClaim id = some c' ∧ c'.taskId = c.taskId ∧ c'.workerId = c.workerId

theorem Db.Holding.refl (db : Db) : db.Holding db :=
  ⟨fun r hr => ⟨r, hr, rfl⟩, fun r hr => ⟨r, hr, rfl⟩, fun _ c hc => ⟨c, hc, rfl, rfl⟩⟩

theorem Db.Holding.trans {a b c : Db} (h : a.Holding b) (h' : b.Holding c) : a.Holding c := by
  refine ⟨fun r hr => ?_, fun r hr => ?_, fun id x hx => ?_⟩
  · obtain ⟨r', hr', hid⟩ := h.tasks r hr
    obtain ⟨r'', hr'', hid'⟩ := h'.tasks r' hr'
    exact ⟨r'', hr'', hid'.trans hid⟩
  · obtain ⟨r', hr', hid⟩ := h.workers r hr
    obtain ⟨r'', hr'', hid'⟩ := h'.workers r' hr'
    exact ⟨r'', hr'', hid'.trans hid⟩
  · obtain ⟨x', hx', htask, hworker⟩ := h.claims id x hx
    obtain ⟨x'', hx'', htask', hworker'⟩ := h'.claims id x' hx'
    exact ⟨x'', hx'', htask'.trans htask, hworker'.trans hworker⟩

/-- Rows of claims, sessions, attestations and entries, each new one with what it refers to. -/
theorem World.Linked.write (h : w.Linked env) (hholding : w.db.Holding w'.db)
    (htick : w.tick ≤ w'.tick)
    (hclaims : ∀ c ∈ w'.db.claims, (∃ c' ∈ w.db.claims, c'.claimId = c.claimId ∧
        c'.taskId = c.taskId ∧ c'.workerId = c.workerId) ∨
      ((∃ r ∈ w'.db.tasks, r.taskId = c.taskId) ∧ (∃ r ∈ w'.db.workers, r.workerId = c.workerId) ∧
        ∃ n < w'.tick, c.claimId = env.uuid n))
    (hdistinct : (w'.db.claims.map (·.claimId)).Nodup)
    (hsessions : ∀ s ∈ w'.db.sessions, s ∈ w.db.sessions ∨ ∃ c, w'.db.findClaim s.claimId = some c)
    (hattestations : ∀ a ∈ w'.db.attestations, a ∈ w.db.attestations ∨
      ∃ c, w'.db.findClaim a.claimId = some c ∧ c.workerId = a.workerId)
    (hentries : ∀ e ∈ w'.db.audit, e ∈ w.db.audit ∨
      ((∃ r ∈ w'.db.tasks, e.taskId = some r.taskId) ∧ ∀ id, e.claimId = some id →
        ∃ c, w'.db.findClaim id = some c ∧ e.taskId = some c.taskId)) :
    w'.Linked env := by
  refine ⟨fun c hc => ?_, fun c hc => ?_, hdistinct, fun s hs => ?_, fun a ha => ?_,
    fun e he => ?_⟩
  · rcases hclaims c hc with ⟨c', hc', -, htask, hworker⟩ | ⟨htask, hworker, -⟩
    · obtain ⟨⟨r, hr, hid⟩, x, hx, hxid⟩ := h.claims c' hc'
      obtain ⟨r', hr', hid'⟩ := hholding.tasks r hr
      obtain ⟨x', hx', hxid'⟩ := hholding.workers x hx
      exact ⟨⟨r', hr', (hid'.trans hid).trans htask⟩, x', hx', (hxid'.trans hxid).trans hworker⟩
    · exact ⟨htask, hworker⟩
  · rcases hclaims c hc with ⟨c', hc', hid, -, -⟩ | ⟨-, -, hdrawn⟩
    · obtain ⟨n, hn, huuid⟩ := h.drawn c' hc'
      exact ⟨n, Nat.lt_of_lt_of_le hn htick, hid ▸ huuid⟩
    · exact hdrawn
  · rcases hsessions s hs with hs | hs
    · obtain ⟨c, hc⟩ := h.sessions s hs
      obtain ⟨c', hc', -, -⟩ := hholding.claims _ c hc
      exact ⟨c', hc'⟩
    · exact hs
  · rcases hattestations a ha with ha | ha
    · obtain ⟨c, hc, hworker⟩ := h.attestations a ha
      obtain ⟨c', hc', -, hworker'⟩ := hholding.claims _ c hc
      exact ⟨c', hc', hworker'.trans hworker⟩
    · exact ha
  · rcases hentries e he with he | he
    · obtain ⟨⟨r, hr, hid⟩, hclaim⟩ := h.entries e he
      obtain ⟨r', hr', hid'⟩ := hholding.tasks r hr
      refine ⟨⟨r', hr', by rw [hid, hid']⟩, fun id hid => ?_⟩
      obtain ⟨c, hc, htask⟩ := hclaim id hid
      obtain ⟨c', hc', htask', -⟩ := hholding.claims _ c hc
      exact ⟨c', hc', by rw [htask, htask']⟩
    · exact he

theorem World.Linked.entry_task (h : w.Linked env) {c : WcpClaim}
    (hc : w.db.findClaim id = some c) {e : WcpAudit} (he : e ∈ w.db.audit)
    (hid : e.claimId = some id) : e.taskId = some c.taskId := by
  obtain ⟨c', hc', htask⟩ := (h.entries e he).2 id hid
  rw [htask, Option.some.inj (hc'.symm.trans hc)]

/-! ## Reading the database of a task -/

theorem findTask_only : (db.only t).findTask t = db.findTask t := by
  unfold Db.findTask Db.only
  dsimp only
  rw [List.find?_filter]
  congr 1
  funext r
  by_cases h : r.taskId = t <;> simp [h]

theorem findClaim_only_of_isOn (h : db.isOn t id = true) :
    (db.only t).findClaim id = db.findClaim id := by
  obtain ⟨c, hc, hct⟩ := (Option.any_eq_true _ _).1 h
  have htask : c.taskId = t := by simpa using hct
  rw [hc]
  unfold Db.findClaim Db.only at *
  dsimp only
  rw [List.find?_filter]
  rw [List.find?_eq_some_iff_append] at hc ⊢
  obtain ⟨hid, before, after, hsplit, hbefore⟩ := hc
  refine ⟨by simpa [htask] using hid, before, after, hsplit, fun x hx => ?_⟩
  have hxid := hbefore x hx
  simp only [Bool.not_eq_true', decide_eq_false_iff_not] at hxid
  simp [hxid]

theorem findClaim_only_none (h : db.findClaim id = none) : (db.only t).findClaim id = none := by
  unfold Db.findClaim Db.only at *
  dsimp only
  rw [List.find?_filter]
  rw [List.find?_eq_none] at h ⊢
  intro c hc
  have hid := h c hc
  simp only [decide_eq_true_eq] at hid
  simp [hid]

theorem entriesOf_only (h : w.Linked env) (hon : w.db.isOn t id = true) :
    (w.db.only t).entriesOf id = w.db.entriesOf id := by
  obtain ⟨c, hc, hct⟩ := (Option.any_eq_true _ _).1 hon
  have htask : c.taskId = t := by simpa using hct
  unfold Db.entriesOf Db.only
  dsimp only
  rw [List.filter_filter]
  refine List.filter_congr fun e he => ?_
  by_cases hid : e.claimId = some id
  · have hentry := h.entry_task hc he hid
    simp [hid, hentry, htask]
  · simp [hid]

theorem isOn_of_claims (h : db'.claims = db.claims) : db'.isOn = db.isOn := by
  funext t id
  unfold Db.isOn Db.findClaim
  rw [h]

/-! ## Writing -/

theorem only_updateTask (t : String) (f : WcpTask → WcpTask) (hf : ∀ r, (f r).taskId = r.taskId) :
    (db.updateTask t f).only t = (db.only t).updateTask t f := by
  unfold Db.updateTask Db.only
  simp only [Db.mk.injEq, true_and, and_true]
  refine ⟨?_, rfl, rfl⟩
  rw [List.filter_map]
  congr 1
  refine List.filter_congr fun r _ => ?_
  by_cases h : r.taskId = t <;> simp [h, hf]

theorem only_updateTask_ne {s : String} (f : WcpTask → WcpTask)
    (hf : ∀ r, (f r).taskId = r.taskId) (hne : t ≠ s) :
    (db.updateTask s f).only t = db.only t := by
  unfold Db.updateTask Db.only
  simp only [Db.mk.injEq, true_and, and_true]
  refine ⟨?_, rfl, rfl⟩
  rw [List.filter_map]
  conv_rhs => rw [← List.map_id (db.tasks.filter _)]
  have hfilter : db.tasks.filter ((fun r => decide (r.taskId = t)) ∘
      fun r => if r.taskId = s then f r else r) = db.tasks.filter fun r => r.taskId = t := by
    refine List.filter_congr fun r _ => ?_
    by_cases h : r.taskId = s <;> simp [h, hf]
  rw [hfilter]
  refine List.map_congr_left fun r hr => ?_
  have hr' : r.taskId = t := by simpa using (List.mem_filter.1 hr).2
  rw [if_neg (by rw [hr']; exact hne)]
  rfl

theorem only_session (s : WcpSession) :
    ({ db with sessions := db.sessions ++ [s] } : Db).only t = { db.only t with
      sessions := (db.only t).sessions ++ if db.isOn t s.claimId then [s] else [] } := by
  unfold Db.only
  rw [@isOn_of_claims db { db with sessions := db.sessions ++ [s] } rfl]
  dsimp only
  rw [List.filter_append]
  cases h : db.isOn t s.claimId <;> simp [h]

theorem only_attestation (a : WcpAttestation) :
    ({ db with attestations := db.attestations ++ [a] } : Db).only t = { db.only t with
      attestations := (db.only t).attestations ++
        if db.isOn t a.claimId then [a] else [] } := by
  unfold Db.only
  rw [@isOn_of_claims db { db with attestations := db.attestations ++ [a] } rfl]
  dsimp only
  rw [List.filter_append]
  cases h : db.isOn t a.claimId <;> simp [h]

theorem only_entry (e : WcpAudit) :
    ({ db with audit := db.audit ++ [e] } : Db).only t = { db.only t with
      audit := (db.only t).audit ++ if e.taskId = some t then [e] else [] } := by
  unfold Db.only
  rw [@isOn_of_claims db { db with audit := db.audit ++ [e] } rfl]
  dsimp only
  rw [List.filter_append]
  by_cases h : e.taskId = some t <;> simp [h]

theorem holding_updateTask (t : String) (f : WcpTask → WcpTask)
    (hf : ∀ r, (f r).taskId = r.taskId) : db.Holding (db.updateTask t f) := by
  refine ⟨fun r hr => ?_, fun r hr => ⟨r, hr, rfl⟩, fun _ c hc => ⟨c, hc, rfl, rfl⟩⟩
  refine ⟨_, List.mem_map_of_mem hr, ?_⟩
  split
  · exact hf r
  · rfl

theorem findClaim_updateClaim (beaten : String) (f : WcpClaim → WcpClaim)
    (hf : ∀ c, (f c).claimId = c.claimId) (id : String) :
    (db.updateClaim beaten f).findClaim id =
      (db.findClaim id).map fun c => if c.claimId = beaten then f c else c := by
  unfold Db.findClaim Db.updateClaim
  dsimp only
  rw [List.find?_map]
  congr 2
  funext c
  by_cases h : c.claimId = beaten <;> simp [h, hf]

/-- Whether a row keeps its claim, its task and its worker. -/
def KeepsIds (f : WcpClaim → WcpClaim) : Prop :=
  ∀ c, (f c).claimId = c.claimId ∧ (f c).taskId = c.taskId ∧ (f c).workerId = c.workerId

theorem holding_updateClaim (beaten : String) {f : WcpClaim → WcpClaim} (hf : KeepsIds f) :
    db.Holding (db.updateClaim beaten f) := by
  refine ⟨fun r hr => ⟨r, hr, rfl⟩, fun r hr => ⟨r, hr, rfl⟩, fun id c hc => ?_⟩
  refine ⟨if c.claimId = beaten then f c else c, ?_, ?_, ?_⟩
  · rw [findClaim_updateClaim beaten f (fun c => (hf c).1), hc]
    rfl
  · split
    · exact (hf c).2.1
    · rfl
  · split
    · exact (hf c).2.2
    · rfl

theorem isOn_updateClaim (beaten : String) {f : WcpClaim → WcpClaim} (hf : KeepsIds f)
    (t id : String) : (db.updateClaim beaten f).isOn t id = db.isOn t id := by
  unfold Db.isOn
  rw [findClaim_updateClaim beaten f (fun c => (hf c).1), Option.any_map]
  congr 1
  funext c
  by_cases h : c.claimId = beaten <;> simp [h, (hf c).2.1]

theorem only_updateClaim (beaten : String) {f : WcpClaim → WcpClaim} (hf : KeepsIds f) :
    (db.updateClaim beaten f).only t = (db.only t).updateClaim beaten f := by
  have hon := fun id => @isOn_updateClaim db beaten f hf t id
  unfold Db.only
  simp only [hon]
  unfold Db.updateClaim
  simp only [Db.mk.injEq, true_and, and_true]
  rw [List.filter_map]
  congr 1
  refine List.filter_congr fun c _ => ?_
  by_cases h : c.claimId = beaten <;> simp [h, (hf c).2.1]

theorem only_updateClaim_ne (beaten : String) {f : WcpClaim → WcpClaim} (hf : KeepsIds f)
    (hne : ∀ c ∈ db.claims, c.claimId = beaten → c.taskId ≠ t) :
    (db.updateClaim beaten f).only t = db.only t := by
  rw [only_updateClaim beaten hf]
  unfold Db.updateClaim Db.only
  simp only [Db.mk.injEq, true_and, and_true]
  conv_rhs => rw [← List.map_id (db.claims.filter _)]
  refine List.map_congr_left fun c hc => ?_
  obtain ⟨hmem, htask⟩ := List.mem_filter.1 hc
  rw [if_neg fun hid => hne c hmem hid (by simpa using htask)]
  rfl

/-! ## Writes of one task -/

/-- A state, and the database of one task in it.  Since the state `w₀` only rows of the task `o`,
and of its claim `own` if there is one, were written. -/
structure Beside (env : Env) (w₀ : World) (o : String) (own : Option WcpClaim) (w w' : World) :
    Prop where
  linked : w.Linked env
  tick : w₀.tick ≤ w.tick
  holding : w₀.db.Holding w.db
  frame : ∀ t, t ≠ o → w.db.only t = w₀.db.only t
  task : ∃ r ∈ w.db.tasks, r.taskId = o
  claim : ∀ c ∈ own, ∃ c', w.db.findClaim c.claimId = some c' ∧ c'.taskId = o ∧
    c'.workerId = c.workerId
  projected : w' = w.only o

variable {w₀ : World} {o : String} {own : Option WcpClaim} {α β : Type}

theorem World.Linked.ticked (h : w.Linked env) {n : Nat} (hn : w.tick ≤ n) (doomed : Bool) :
    (World.mk w.db n doomed).Linked env :=
  ⟨h.claims, fun c hc => by
    obtain ⟨k, hk, huuid⟩ := h.drawn c hc
    exact ⟨k, Nat.lt_of_lt_of_le hk hn, huuid⟩, h.distinct, h.sessions, h.attestations, h.entries⟩

theorem Beside.ticked (h : Beside env w₀ o own w w') :
    Beside env w₀ o own { w with tick := w.tick + 1 } { w' with tick := w'.tick + 1 } where
  linked := h.linked.ticked (Nat.le_succ _) _
  tick := Nat.le_succ_of_le h.tick
  holding := h.holding
  frame := h.frame
  task := h.task
  claim := h.claim
  projected := by
    rw [h.projected]
    rfl

theorem Beside.write {g : Db → Db} (h : Beside env w₀ o own w w')
    (hlinked : World.Linked env { w with db := g w.db }) (hholding : w.db.Holding (g w.db))
    (hframe : ∀ t, t ≠ o → (g w.db).only t = w.db.only t)
    (honly : g (w.db.only o) = (g w.db).only o) :
    Beside env w₀ o own { w with db := g w.db } { w' with db := g w'.db } where
  linked := hlinked
  tick := h.tick
  holding := h.holding.trans hholding
  frame t ht := (hframe t ht).trans (h.frame t ht)
  task := by
    obtain ⟨r, hr, hid⟩ := h.task
    obtain ⟨r', hr', hid'⟩ := hholding.tasks r hr
    exact ⟨r', hr', hid'.trans hid⟩
  claim c hc := by
    obtain ⟨c', hc', htask, hworker⟩ := h.claim c hc
    obtain ⟨c'', hc'', htask', hworker'⟩ := hholding.claims _ c' hc'
    exact ⟨c'', hc'', htask'.trans htask, hworker'.trans hworker⟩
  projected := by
    rw [h.projected]
    show World.mk (g (w.db.only o)) _ _ = _
    rw [honly]
    rfl

theorem writeDb_beside {g : Db → Db} (h : ∀ w w', Beside env w₀ o own w w' →
    Beside env w₀ o own { w with db := g w.db } { w' with db := g w'.db }) :
    Coupled (Beside env w₀ o own) (fun _ _ => True) (writeDb g) (writeDb g) :=
  fun w w' hw => ⟨trivial, h w w' hw⟩

theorem utcnow_beside : Coupled (Beside env w₀ o own) (· = ·) (utcnow env) (utcnow env) := by
  intro w w' h
  refine ⟨?_, h.ticked⟩
  obtain rfl := h.projected
  exact rfl

theorem uuid4_beside : Coupled (Beside env w₀ o own) (· = ·) (uuid4 env) (uuid4 env) := by
  intro w w' h
  refine ⟨?_, h.ticked⟩
  obtain rfl := h.projected
  exact rfl

theorem flush_beside : Coupled (Beside env w₀ o own) (fun _ _ => True) flush flush := by
  intro w w' h
  obtain rfl := h.projected
  unfold flush
  cases hdoomed : w.doomed with
  | true =>
      rw [if_pos rfl, if_pos (show (w.only o).doomed = true from hdoomed)]
      exact ⟨rfl, h⟩
  | false =>
      rw [if_neg (by simp), if_neg (show ¬ (w.only o).doomed = true by simp [World.only, hdoomed])]
      exact ⟨trivial, h⟩

theorem doom_beside : Coupled (Beside env w₀ o own) (fun _ _ => True) doom doom := by
  intro w w' h
  refine ⟨trivial, h.linked.ticked (Nat.le_refl _) _, h.tick, h.holding, h.frame, h.task, h.claim,
    ?_⟩
  obtain rfl := h.projected
  rfl

theorem updateTask_beside {f : WcpTask → WcpTask} (hf : ∀ r, (f r).taskId = r.taskId) :
    Coupled (Beside env w₀ o own) (fun _ _ => True) (writeDb fun db => db.updateTask o f)
      (writeDb fun db => db.updateTask o f) := by
  refine writeDb_beside fun w w' h => ?_
  have hholding := @holding_updateTask w.db o f hf
  refine h.write (g := fun db => db.updateTask o f) ?_ hholding
    (fun t ht => only_updateTask_ne f hf ht) (only_updateTask o f hf).symm
  exact h.linked.write hholding (Nat.le_refl _)
    (fun c hc => .inl ⟨c, hc, rfl, rfl, rfl⟩) h.linked.distinct (fun _ hs => .inl hs)
    (fun _ ha => .inl ha)
    fun _ he => .inl he

theorem setState_beside {r : WcpTask} (hr : r.taskId = o) (s : TaskState) :
    Coupled (Beside env w₀ o own) (fun _ _ => True) (setState r s) (setState r s) := by
  unfold setState
  rw [hr]
  exact updateTask_beside fun _ => rfl

theorem beginAttempt_beside {r : WcpTask} (hr : r.taskId = o) :
    Coupled (Beside env w₀ o own) (fun _ _ => True) (beginAttempt r) (beginAttempt r) := by
  unfold beginAttempt
  rw [hr]
  exact updateTask_beside fun _ => rfl

theorem Beside.isOn (h : Beside env w₀ o own w w') {c : WcpClaim} (hc : c ∈ own) (t : String) :
    w.db.isOn t c.claimId = decide (t = o) := by
  obtain ⟨c', hc', htask, -⟩ := h.claim c hc
  unfold Db.isOn
  rw [hc', Option.any_some, htask]
  exact decide_eq_decide.2 eq_comm

theorem session_beside {c : WcpClaim} (hc : c ∈ own) (sessionId : String) :
    Coupled (Beside env w₀ o own) (fun _ _ => True)
      (writeDb fun db => { db with sessions := db.sessions ++ [⟨sessionId, c.claimId⟩] })
      (writeDb fun db => { db with sessions := db.sessions ++ [⟨sessionId, c.claimId⟩] }) := by
  refine writeDb_beside fun w w' h => ?_
  have hon := h.isOn hc
  have hholding : w.db.Holding { w.db with
      sessions := w.db.sessions ++ [⟨sessionId, c.claimId⟩] } :=
    ⟨fun r hr => ⟨r, hr, rfl⟩, fun r hr => ⟨r, hr, rfl⟩, fun _ c hc => ⟨c, hc, rfl, rfl⟩⟩
  refine h.write (g := fun db => { db with
    sessions := db.sessions ++ [⟨sessionId, c.claimId⟩] }) ?_ hholding (fun t ht => ?_) ?_
  · refine h.linked.write hholding (Nat.le_refl _)
      (fun c hc => .inl ⟨c, hc, rfl, rfl, rfl⟩) h.linked.distinct (fun s hs => ?_)
      (fun _ ha => .inl ha)
      fun _ he => .inl he
    rcases List.mem_append.1 hs with hs | hs
    · exact .inl hs
    · obtain ⟨c', hc', -, -⟩ := h.claim c hc
      obtain rfl := List.mem_singleton.1 hs
      exact .inr ⟨c', hc'⟩
  · show ({ w.db with sessions := w.db.sessions ++ [_] } : Db).only t = _
    rw [only_session, hon, if_neg (by simpa using ht), List.append_nil]
  · show _ = ({ w.db with sessions := w.db.sessions ++ [_] } : Db).only o
    rw [only_session, hon, if_pos (by simp)]

theorem attestation_beside {c : WcpClaim} (hc : c ∈ own) {a : WcpAttestation}
    (hclaim : a.claimId = c.claimId) (hworker : a.workerId = c.workerId) :
    Coupled (Beside env w₀ o own) (fun _ _ => True)
      (writeDb fun db => { db with attestations := db.attestations ++ [a] })
      (writeDb fun db => { db with attestations := db.attestations ++ [a] }) := by
  refine writeDb_beside fun w w' h => ?_
  have hon := h.isOn hc
  rw [← hclaim] at hon
  have hholding : w.db.Holding { w.db with attestations := w.db.attestations ++ [a] } :=
    ⟨fun r hr => ⟨r, hr, rfl⟩, fun r hr => ⟨r, hr, rfl⟩, fun _ c hc => ⟨c, hc, rfl, rfl⟩⟩
  refine h.write (g := fun db => { db with attestations := db.attestations ++ [a] }) ?_ hholding
    (fun t ht => ?_) ?_
  · refine h.linked.write hholding (Nat.le_refl _)
      (fun c hc => .inl ⟨c, hc, rfl, rfl, rfl⟩) h.linked.distinct (fun _ hs => .inl hs)
      (fun x hx => ?_)
      fun _ he => .inl he
    rcases List.mem_append.1 hx with hx | hx
    · exact .inl hx
    · obtain ⟨c', hc', -, hworker'⟩ := h.claim c hc
      obtain rfl := List.mem_singleton.1 hx
      exact .inr ⟨c', hclaim ▸ hc', hworker'.trans hworker.symm⟩
  · show ({ w.db with attestations := w.db.attestations ++ [a] } : Db).only t = _
    rw [only_attestation, hon, if_neg (by simpa using ht), List.append_nil]
  · show _ = ({ w.db with attestations := w.db.attestations ++ [a] } : Db).only o
    rw [only_attestation, hon, if_pos (by simp)]

theorem updateClaim_beside {c : WcpClaim} (hc : c ∈ own) {f : WcpClaim → WcpClaim}
    (hf : KeepsIds f) : Coupled (Beside env w₀ o own) (fun _ _ => True)
      (writeDb fun db => db.updateClaim c.claimId f)
      (writeDb fun db => db.updateClaim c.claimId f) := by
  refine writeDb_beside fun w w' h => ?_
  have hholding := @holding_updateClaim w.db c.claimId _ hf
  refine h.write (g := fun db => db.updateClaim c.claimId f) ?_ hholding (fun t ht => ?_)
    (only_updateClaim c.claimId hf).symm
  · refine h.linked.write hholding (Nat.le_refl _) (fun x hx => ?_)
      ?_ (fun _ hs => .inl hs) (fun _ ha => .inl ha) fun _ he => .inl he
    · obtain ⟨x', hx', rfl⟩ := List.mem_map.1 hx
      refine .inl ⟨x', hx', ?_⟩
      split
      · exact ⟨(hf x').1.symm, (hf x').2.1.symm, (hf x').2.2.symm⟩
      · exact ⟨rfl, rfl, rfl⟩
    · show ((w.db.claims.map _).map _).Nodup
      rw [List.map_map]
      have hids : ((fun x : WcpClaim => x.claimId) ∘ fun x =>
          if x.claimId = c.claimId then f x else x) = fun x => x.claimId := by
        funext x
        by_cases h : x.claimId = c.claimId <;> simp [h, (hf x).1]
      rw [hids]
      exact h.linked.distinct
  · refine only_updateClaim_ne c.claimId hf fun x hx hid htask => ht ?_
    obtain ⟨c', hc', hctask, -⟩ := h.claim c hc
    obtain ⟨hmem, hcid⟩ := findClaim_eq_some hc'
    rw [← htask, ← hctask, List.inj_on_of_nodup_map h.linked.distinct hx hmem
      (hid.trans hcid.symm)]

theorem entry_beside {e : WcpAudit} (htask : e.taskId = some o)
    (hclaim : e.claimId = own.map (·.claimId)) : ∀ w w', Beside env w₀ o own w w' →
      Beside env w₀ o own { w with db := { w.db with audit := w.db.audit ++ [e] } }
        { w' with db := { w'.db with audit := w'.db.audit ++ [e] } } := by
  intro w w' h
  have hholding : w.db.Holding { w.db with audit := w.db.audit ++ [e] } :=
    ⟨fun r hr => ⟨r, hr, rfl⟩, fun r hr => ⟨r, hr, rfl⟩, fun _ c hc => ⟨c, hc, rfl, rfl⟩⟩
  refine h.write (g := fun db => { db with audit := db.audit ++ [e] }) ?_ hholding
    (fun t ht => ?_) ?_
  · refine h.linked.write hholding (Nat.le_refl _)
      (fun c hc => .inl ⟨c, hc, rfl, rfl, rfl⟩) h.linked.distinct (fun _ hs => .inl hs)
      (fun _ ha => .inl ha) fun x hx => ?_
    rcases List.mem_append.1 hx with hx | hx
    · exact .inl hx
    · obtain rfl := List.mem_singleton.1 hx
      obtain ⟨r, hr, hid⟩ := h.task
      refine .inr ⟨⟨r, hr, by rw [htask, hid]⟩, fun id hxid => ?_⟩
      obtain ⟨c, hc, rfl⟩ := Option.map_eq_some_iff.1 (hclaim.symm.trans hxid)
      obtain ⟨c', hc', hctask, -⟩ := h.claim c hc
      exact ⟨c', hc', by rw [htask, hctask]⟩
  · show ({ w.db with audit := w.db.audit ++ [e] } : Db).only t = _
    have hne : e.taskId ≠ some t := by
      rw [htask]
      exact fun heq => ht (Option.some.inj heq).symm
    rw [only_entry, if_neg hne, List.append_nil]
  · show _ = ({ w.db with audit := w.db.audit ++ [e] } : Db).only o
    rw [only_entry, if_pos htask]

/-- The predecessor of an entry is the same in the database of the task. -/
theorem predecessor_beside (h : Beside env w₀ o own w w') {claimId : Json}
    (hbind : ∀ id, env.bindNullable claimId = some id → id = own.map (·.claimId)) (query : Nat) :
    predecessor env query w.db claimId = predecessor env query w'.db claimId := by
  obtain rfl := h.projected
  unfold predecessor
  split
  · cases hkey : env.comparedText claimId with
    | error e => rfl
    | ok key =>
        cases key with
        | none => rfl
        | some id =>
            have hown := hbind (some id)
              (bindNullable_of_bindColumn (bindColumn_of_comparedText hkey))
            obtain ⟨c, hc, rfl⟩ := Option.map_eq_some_iff.1 hown.symm
            have hon : w.db.isOn o c.claimId = true := by rw [h.isOn hc, decide_eq_true rfl]
            show Except.ok (latestHashForClaim env query w.db c.claimId) =
              Except.ok (latestHashForClaim env query (w.db.only o) c.claimId)
            unfold latestHashForClaim
            rw [entriesOf_only h.linked hon]
  · rfl

theorem autoflush_beside (claimId : Json) :
    Coupled (Beside env w₀ o own) (fun _ _ => True) (autoflush claimId) (autoflush claimId) := by
  unfold autoflush
  split
  · exact flush_beside
  · exact Coupled.pure trivial

theorem append_beside {eventType payload claimId taskId : Json} {actorDid : String}
    (hbind : ∀ id, env.bindNullable claimId = some id → id = own.map (·.claimId))
    (htask : ∀ id, env.bindNullable taskId = some id → id = some o) :
    Coupled (Beside env w₀ o own) (· = ·)
      (append env eventType actorDid payload claimId taskId none)
      (append env eventType actorDid payload claimId taskId none) := by
  unfold append
  refine Coupled.bindSame utcnow_beside fun ts => ?_
  refine Coupled.liftSame _ fun n _ => ?_
  refine Coupled.seq (autoflush_beside claimId) fun _ _ => ?_
  refine Coupled.bindSame (Coupled.reads fun w w' h => ?_) fun prev => ?_
  · have htick : w'.tick = w.tick := by rw [h.projected]; rfl
    show Agree _ (predecessor env w.tick w.db claimId) (predecessor env w'.tick w'.db claimId)
    rw [predecessor_beside h hbind, htick]
    exact Agree.refl (fun _ => rfl) _
  · refine Coupled.bindSame uuid4_beside fun entryId => ?_
    split
    · next storedType claim task hs hc ht =>
        refine Coupled.seq (writeDb_beside ?_) fun _ _ =>
          Coupled.seq flush_beside fun _ _ => Coupled.pure rfl
        exact entry_beside (htask task ht) (hbind claim hc)
    · exact Coupled.seq doom_beside fun _ _ => Coupled.seq flush_beside fun _ _ => Coupled.pure rfl

end Wcp.Coordinator
