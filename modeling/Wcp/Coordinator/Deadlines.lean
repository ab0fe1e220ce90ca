import Wcp.Coordinator.Persistence
/-!
# When a task expires

`post` hands the parsed expiry to the database as it is; `claim` reads it back and
takes a naive one for UTC.  On a backend that keeps the offset a claim gets past
the expiry check up to the instant that the posted text denotes.  On one that
stores the wall-clock fields and drops the offset it does so only when the clock is
not between the wall-clock reading and the instant (`expiry_instant_iff`).
-/

namespace Wcp.Coordinator

open Wcp.Base
open Wcp.Base.Exec

variable {env : Env} {call : Call} {db db' : Db} {w : World}

/-! ## The expiry of a row -/

/-- Every task is still there, at most further on. -/
def Db.Descends (db db' : Db) : Prop := ∀ t ∈ db.tasks, ∃ p, t.withProgress p ∈ db'.tasks

theorem Db.Descends.refl (db : Db) : db.Descends db := fun t ht => ⟨t.progress, ht⟩

theorem Db.Descends.trans {a b c : Db} (h : a.Descends b) (h' : b.Descends c) : a.Descends c := by
  intro t ht
  obtain ⟨p, hp⟩ := h t ht
  obtain ⟨q, hq⟩ := h' _ hp
  exact ⟨q, hq⟩

theorem descends_append (rows : List WcpTask) (h : db'.tasks = db.tasks ++ rows) :
    db.Descends db' :=
  fun t ht => ⟨t.progress, h ▸ List.mem_append_left rows ht⟩

theorem descends_progressed {id : String} {p : Progress} (h : db'.tasks = db.progressed id p) :
    db.Descends db' := by
  intro t ht
  rw [h]
  by_cases hid : t.taskId = id
  · exact ⟨p, mem_progressed.2 (.inl ⟨t, ht, hid, rfl⟩)⟩
  · exact ⟨t.progress, mem_progressed.2 (.inr ⟨ht, hid⟩)⟩

theorem Change.descends (h : Change env call db db') : db.Descends db' := by
  cases h with
  | quiet htasks hclaims haudit => exact descends_append [] (by rw [htasks, List.append_nil])
  | posted row entry hchecked hprogress hfresh hentry htasks hclaims haudit hauthor =>
      exact descends_append _ htasks
  | claimed t c entry ht hposted hfresh hsame haccepted hid hbinds htype hentry htasks hclaims
      haudit hauthor =>
      exact descends_progressed htasks
  | moved c t p entry hholds hmove hreplay hpayload hentry hcall htasks hclaims haudit hauthor =>
      exact descends_progressed htasks
  | event c t beat entry eventType hcall htype hholds hstate hentry htasks hclaims haudit hauthor =>
      exact descends_append [] (by rw [htasks, List.append_nil])
  | unrecorded c t p name hholds hmove hname hcall htasks hclaims haudit =>
      exact descends_progressed htasks
  | unheard c t beat hcall hholds hstate htasks hclaims haudit =>
      exact descends_append [] (by rw [htasks, List.append_nil])

theorem run_descends (env : Env) (hwf : w.db.WellFormed) (later : List Call) :
    w.db.Descends (run (step env) w later).db :=
  (@run_changes_invariant env (fun db => w.db.Descends db) (fun _ => True)
    (fun _ _ _ _ _ hchange hinv => hinv.trans hchange.descends)
    w later hwf (Db.Descends.refl _) fun _ _ => trivial).2

theorem run_expiry (env : Env) (hwf : w.db.WellFormed) (later : List Call) {t t' : WcpTask}
    (ht : t ∈ w.db.tasks) (ht' : t' ∈ (run (step env) w later).db.tasks)
    (hid : t'.taskId = t.taskId) : t'.expiry = t.expiry := by
  obtain ⟨p, hp⟩ := run_descends env hwf later t ht
  have hwf' := (@run_changes_invariant env (fun _ => True) (fun _ => True)
    (fun _ _ _ _ _ _ _ => trivial) w later hwf trivial fun _ _ => trivial).1
  rw [hwf'.task_eq ht' hp hid]
  rfl

/-! ## Posting -/

/-- A row that is older, or holds the expiry of a request as the backend stores it. -/
def OldOrPosted (env : Env) (db : Db) (expiry : Json) (t : WcpTask) : Prop :=
  t ∈ db.tasks ∨ ∃ d, parseIso env expiry = .ok d ∧ t.expiry = env.storeTime d

theorem postChecks_expiry {fresh : String} {task expiry : Json} {plan : PostPlan}
    (h : postChecks env fresh task expiry = .ok plan) : parseIso env expiry = .ok plan.expiry := by
  simp only [postChecks, bind_eq_ok] at h
  obtain ⟨_, -, _, -, _, -, _, -, _, -, _, -, _, -, _, -, _, -, _, -, _, -, _, -, _, -, d, hd, h⟩ :=
    h
  cases h
  exact hd

theorem insertTask_tasks (plan : PostPlan) (postedAt : DateTime) (w : World) :
    Ends (insertTask env plan postedAt) w fun r w' => r = .error (.raised .database) ∨
      r = .ok () ∧ ∃ row : WcpTask, row.expiry = env.storeTime plan.expiry ∧
        w'.db.tasks = w.db.tasks ++ [row] := by
  unfold insertTask Ends
  split
  · dsimp only
    split
    · exact .inl rfl
    · exact .inr ⟨rfl, _, rfl, rfl⟩
  · exact .inl rfl

theorem post_tasks (task expiry informational : Json) :
    Ends (post env task expiry informational) w
      (Committed fun db => ∀ t ∈ db.tasks, OldOrPosted env w.db expiry t) := by
  have hold : ∀ (r : Except Err Json) (w' : World), w'.db = w.db →
      Committed (fun db => ∀ t ∈ db.tasks, OldOrPosted env w.db expiry t) r w' := by
    intro r w' hdb
    refine Committed.of fun t ht => .inl ?_
    rw [hdb] at ht
    exact ht
  unfold post
  refine uuid4_bind (Ends.lift_bind ?_ fun e _ => hold _ _ rfl)
  intro plan hplan
  refine utcnow_bind (Ends.bind (Ends.mono (insertTask_tasks plan _ _) ?_))
  rintro r w₁ (rfl | ⟨rfl, row, hexpiry, htasks⟩)
  · exact Committed.database
  · have hposted : ∀ t ∈ w₁.db.tasks, OldOrPosted env w.db expiry t := by
      intro t ht
      rw [htasks, List.mem_append, List.mem_singleton] at ht
      rcases ht with ht | rfl
      · exact .inl ht
      · exact .inr ⟨plan.expiry, postChecks_expiry hplan, hexpiry⟩
    refine Ends.lift_bind ?_ fun e _ => Committed.of hposted
    intro accountingRef _
    refine append_bind ?_ (fun _ => Committed.database) (by simp)
    intro r entry storedType claim task' _ _ _ _ _
    exact readDb_bind (fun _ _ => Ends.pure (Committed.of hposted)) fun _ _ => Committed.of hposted

/-- A task that a request brought in holds its expiry as the backend stores it. -/
theorem step_post_expiry {task expiry informational : Json} {t : WcpTask}
    (ht : t ∈ (step env w (.post task expiry informational)).db.tasks) (hnew : t ∉ w.db.tasks) :
    ∃ d, parseIso env expiry = .ok d ∧ t.expiry = env.storeTime d := by
  have hrows := @settle_db _ w (post env task expiry informational)
    (fun db => ∀ t ∈ db.tasks, OldOrPosted env w.db expiry t) (fun t ht => .inl ht)
    (post_tasks task expiry informational)
  rcases hrows t ht with hold | hposted
  · exact absurd hold hnew
  · exact hposted

/-! ## The check -/

theorem claimCheckExpiry_iff (taskId : Json) (t : WcpTask) (now : Nat) :
    claimCheckExpiry env taskId t (.utc now) = .ok () ↔
      (now : Int) ≤ t.expiry.assumeUtc.instant := by
  rw [claimCheckExpiry, DateTime.less_aware (t.expiry.isSome_offset_assumeUtc) rfl, bind_eq_ok]
  simp only [Except.ok.injEq, exists_eq_left', ensure_eq_ok, decide_eq_false_iff_not, Int.not_lt,
    DateTime.instant_utc]

/-- A backend that gives a date-time with an offset back as the same instant. -/
def KeepsInstant (env : Env) : Prop :=
  ∀ d o, d.offset = some o →
    ∃ o', (env.storeTime d).offset = some o' ∧ (env.storeTime d).instant = d.instant

/-- A backend that stores the wall-clock fields and drops the offset. -/
def DropsOffset (env : Env) : Prop := ∀ d, env.storeTime d = ⟨d.wall, none⟩

/-- The clock lies on one side of the wall-clock reading and the instant. -/
def Outside (clock : Nat) (d : DateTime) : Prop :=
  (clock : Int) ≤ min (d.wall : Int) d.instant ∨ max (d.wall : Int) d.instant < clock

/-- For every task posted with an expiry that has an offset, a later claim gets past the expiry
check exactly up to the instant that the posted text denotes, if and only if the backend keeps
the offset or the clock does not lie between the instant and its wall-clock reading. -/
theorem expiry_instant_iff (env : Env) (workers : List WcpWorker) (before between : List Call)
    (task expiry informational : Json) (id : String)
    (hbackend : KeepsInstant env ∨ DropsOffset env)
    (hfresh : (reach env workers before).db.findTask id = none)
    (hposted : (reach env workers (before ++ [.post task expiry informational])).db.findTask id ≠
      none) :
    ∃ d, parseIso env expiry = .ok d ∧ ∀ o, d.offset = some o → ∀ taskId t,
      claimLoadTask env
        (reach env workers (before ++ .post task expiry informational :: between)).db taskId =
          .ok t → t.taskId = id →
      ((claimCheckExpiry env taskId t (.utc (env.clock
          (reach env workers (before ++ .post task expiry informational :: between)).tick)) =
          .ok () ↔
        (env.clock (reach env workers
          (before ++ .post task expiry informational :: between)).tick : Int) ≤ d.instant) ↔
      KeepsInstant env ∨ Outside (env.clock (reach env workers
        (before ++ .post task expiry informational :: between)).tick) d) := by
  obtain ⟨row, hrow⟩ := Option.ne_none_iff_exists'.1 hposted
  obtain ⟨hmem, hid⟩ := findTask_eq_some hrow
  rw [reach_snoc] at hmem
  obtain ⟨d, hparse, hexpiry⟩ := step_post_expiry hmem
    fun hold => findTask_eq_none hfresh row hold hid
  refine ⟨d, hparse, fun o ho taskId t ht htid => ?_⟩
  -- the row that the claim reads has the expiry that was posted
  have hstored : t.expiry = env.storeTime d := by
    rw [← hexpiry]
    have hread := (claimLoadTask_eq_ok ht).2.1
    have hrun : reach env workers (before ++ .post task expiry informational :: between) =
        run (step env) (step env (reach env workers before) (.post task expiry informational))
          between :=
      run_append (step env) (initial workers) before _
    rw [hrun] at hread
    refine run_expiry env ?_ between hmem hread (htid.trans hid.symm)
    rw [← reach_snoc]
    exact reach_wellFormed env workers _
  rw [claimCheckExpiry_iff, hstored]
  generalize env.clock _ = now
  rcases hbackend with hkeeps | hdrops
  · obtain ⟨o', hoffset, hinstant⟩ := hkeeps d o ho
    have haware : (env.storeTime d).assumeUtc = env.storeTime d := by
      simp [DateTime.assumeUtc, hoffset]
    rw [haware, hinstant]
    exact iff_of_true Iff.rfl (.inl hkeeps)
  · have hnot : ¬KeepsInstant env := by
      intro hkeeps
      obtain ⟨o', hoffset, -⟩ := hkeeps d o ho
      rw [hdrops] at hoffset
      cases hoffset
    have hwall : (env.storeTime d).assumeUtc.instant = d.wall := by
      rw [hdrops]
      simp [DateTime.assumeUtc, DateTime.instant]
    rw [hwall, or_iff_right hnot, Outside]
    omega

/-! ### A task that expired at midnight -/

/-- Midnight of the first of January 2026, as a clock two hours ahead of UTC shows it. -/
def midnightAhead : DateTime := ⟨newYear2026 + 7200000000, some 7200000000⟩

/-- The local environment on a backend that drops the offset, with a parser that knows a second
date. -/
def droppingEnv : Env := { localEnv with
  bindText_spec := localEnv_bindText_spec
  bindText_hashable := localEnv_bindText_hashable
  storeTime := fun d => ⟨d.wall, none⟩
  fromisoformat := fun s =>
    if s = "2026-01-01T02:00:00+02:00" then .ok midnightAhead else localEnv.fromisoformat s
  descending_perm := localEnv_descending_perm
  descending_sorted := localEnv_descending_sorted }

/-- The expiry as it is posted. -/
def midnight : Json := .str "2026-01-01T02:00:00+02:00"

/-- The calls up to a claim on a task that expires at midnight of UTC. -/
def midnightPost : List Call := [] ++ .post (localTask anySensor) midnight .null :: []

/-- The worker's claim on it, some time after midnight. -/
def midnightClaim : Except Err Json :=
  (claim droppingEnv (.str "t1") (.str zeroDid) localDate (localAcceptance zeroSig) .null
    (reach droppingEnv [zeroWorker] midnightPost)).1

theorem midnightClaim_facts :
    (reach droppingEnv [zeroWorker] midnightPost).db.findTask "t1" ≠ none ∧
      parseIso droppingEnv midnight = .ok midnightAhead ∧
      midnightAhead.instant < droppingEnv.clock (reach droppingEnv [zeroWorker] midnightPost).tick ∧
      midnightClaim.toOption.isSome = true := by
  decide +kernel

theorem expiry_instant_iff_midnight :
    ∃ d, parseIso droppingEnv midnight = .ok d ∧ ∀ o, d.offset = some o → ∀ taskId t,
      claimLoadTask droppingEnv (reach droppingEnv [zeroWorker] midnightPost).db taskId = .ok t →
      t.taskId = "t1" →
      ((claimCheckExpiry droppingEnv taskId t (.utc (droppingEnv.clock
          (reach droppingEnv [zeroWorker] midnightPost).tick)) = .ok () ↔
        (droppingEnv.clock (reach droppingEnv [zeroWorker] midnightPost).tick : Int) ≤
          d.instant) ↔
      KeepsInstant droppingEnv ∨
        Outside (droppingEnv.clock (reach droppingEnv [zeroWorker] midnightPost).tick) d) := by
  have hposted := midnightClaim_facts.1
  have hdrops : DropsOffset droppingEnv := fun _ => rfl
  have hfresh : (reach droppingEnv [zeroWorker] []).db.findTask "t1" = none := rfl
  unfold midnightPost at hposted ⊢
  exact expiry_instant_iff droppingEnv [zeroWorker] [] [] (localTask anySensor) midnight .null "t1"
    (.inr hdrops) hfresh hposted

/-- A claim is accepted although the clock is past the instant that the posted text denotes. -/
theorem expired_task_claimed :
    ∃ d answer, parseIso droppingEnv midnight = .ok d ∧
      d.instant < droppingEnv.clock (reach droppingEnv [zeroWorker] midnightPost).tick ∧
      midnightClaim = .ok answer := by
  obtain ⟨-, hparse, hlate, hok⟩ := midnightClaim_facts
  cases hclaim : midnightClaim with
  | error e =>
      rw [hclaim] at hok
      cases hok
  | ok answer => exact ⟨midnightAhead, answer, hparse, hlate, rfl⟩

end Wcp.Coordinator
