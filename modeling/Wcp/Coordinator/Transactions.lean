import Mathlib.Logic.Relation
import Wcp.Coordinator.TasksService
/-!
# Reasoning about transactions

Rules for the primitive actions, in the shape of `Ends.bind`, and what a
transaction leaves behind: `Committed R` says that whatever is committed at the
end satisfies `R`.  `append` either raises a database error, which rolls the
transaction back, or adds exactly one entry.
-/

namespace Wcp.Coordinator

open Wcp.Base
open Wcp.Base.Exec

variable {env : Env} {α β : Type} {w : World} {P : Except Err β → World → Prop}

/-! ## Primitive actions -/

theorem readDb_bind {g : Db → Except Err α} {f : α → Action β}
    (hok : ∀ a, g w.db = .ok a → Ends (f a) w P)
    (herr : ∀ e, g w.db = .error e → P (.error e) w) :
    Ends (readDb g >>= f) w P :=
  Ends.reads_bind hok herr

theorem utcnow_bind {f : DateTime → Action β}
    (h : Ends (f (.utc (env.clock w.tick))) { w with tick := w.tick + 1 } P) :
    Ends (utcnow env >>= f) w P := h

theorem uuid4_bind {f : String → Action β}
    (h : Ends (f (env.uuid w.tick)) { w with tick := w.tick + 1 } P) :
    Ends (uuid4 env >>= f) w P := h

theorem writeDb_bind {g : Db → Db} {f : Unit → Action β}
    (h : Ends (f ()) { w with db := g w.db } P) :
    Ends (writeDb g >>= f) w P := h

theorem flush_bind {f : Unit → Action β} (hok : w.doomed = false → Ends (f ()) w P)
    (herr : P (.error (.raised .database)) w) : Ends (flush >>= f) w P := by
  apply Ends.bind
  by_cases hw : w.doomed = true
  · simpa [Ends, flush, hw] using herr
  · have hw : w.doomed = false := by simpa using hw
    simpa [Ends, flush, hw] using hok hw

theorem flush_clean_bind {f : Unit → Action β} (hw : w.doomed = false) (h : Ends (f ()) w P) :
    Ends (flush >>= f) w P := by
  apply Ends.bind
  simpa [Ends, flush, hw] using h

theorem autoflush_bind {claimId : Json} {f : Unit → Action β}
    (hok : (claimId.truthy = true → w.doomed = false) → Ends (f ()) w P)
    (herr : w.doomed ≠ false → P (.error (.raised .database)) w) :
    Ends (autoflush claimId >>= f) w P := by
  unfold autoflush
  by_cases htruthy : claimId.truthy = true
  · rw [if_pos htruthy]
    by_cases hw : w.doomed = false
    · exact flush_clean_bind hw (hok fun _ => hw)
    · exact flush_bind (fun h => absurd h hw) (herr hw)
  · rw [if_neg htruthy]
    exact hok fun h => absurd h htruthy

/-! ## Commit -/

/-- What the transaction commits, if anything, satisfies `R`. -/
def Committed (R : Db → Prop) (r : Except Err α) (w' : World) : Prop :=
  r ≠ .error (.raised .database) → w'.doomed = false → R w'.db

theorem Committed.database {R : Db → Prop} {w' : World} :
    Committed R (.error (.raised .database) : Except Err α) w' :=
  fun h => absurd rfl h

theorem Committed.of {R : Db → Prop} {r : Except Err α} {w' : World} (h : R w'.db) :
    Committed R r w' :=
  fun _ _ => h

theorem Committed.returned {R : Db → Prop} {a : α} {b : β} {w' : World}
    (h : Committed R (.ok a : Except Err α) w') : Committed R (.ok b : Except Err β) w' :=
  fun _ hdoomed => h nofun hdoomed

theorem Committed.raised {R : Db → Prop} {e : Err} {w' : World}
    (h : Committed R (.error e : Except Err α) w') : Committed R (.error e : Except Err β) w' := by
  intro he hdoomed
  refine h ?_ hdoomed
  rintro heq
  cases heq
  exact he rfl

@[simp] theorem settle_doomed (w : World) (outcome : Except Err α × World) :
    (w.settle outcome).doomed = false := by
  unfold World.settle
  split
  · rfl
  · split <;> rfl

/-- A call leaves the database as it was or commits what its body ended with. -/
theorem settle_db {m : Action α} {R : Db → Prop} (hrefl : R w.db)
    (h : Ends m w (Committed R)) : R (w.settle (m w)).db := by
  unfold Ends Committed at h
  unfold World.settle
  split
  · exact hrefl
  · next r w' hne hm =>
      rw [hm] at h
      split
      · exact hrefl
      · next hw' =>
          refine h ?_ (by simpa using hw')
          rintro rfl
          exact hne rfl

theorem settle_ok {w' : World} {a : α} (h : w'.doomed = false) :
    w.settle ((.ok a : Except Err α), w') = w' := by
  obtain ⟨db, tick, doomed⟩ := w'
  cases h
  rfl

theorem settle_error {w' : World} {e : Err}
    (h : e = .raised .database ∨ w'.db.claims = w.db.claims) :
    (w.settle ((.error e : Except Err α), w')).db.claims = w.db.claims := by
  unfold World.settle
  split
  · rfl
  · next r w'' hne heq =>
      cases heq
      split
      · rfl
      · exact h.resolve_left fun he => hne (by rw [he])

/-! ## Binding values -/

theorem bindText_str {s t : String} (h : env.bindText (.str s) = some t) : t = s := by
  rcases env.bindText_spec _ _ h with hs | ⟨hs, -⟩
  · exact (Json.str.inj hs).symm
  · exact absurd rfl (hs s)

theorem bindText_underscore {v : Json} {t : String} (h : env.bindText v = some t)
    (ht : '_' ∈ t.toList) : v = .str t := by
  rcases env.bindText_spec _ _ h with hs | ⟨-, hs⟩
  · exact hs
  · exact absurd ht hs

theorem bindColumn_eq_some {v : Json} {t : String} (h : env.bindColumn v = some t) :
    v ≠ .null ∧ env.bindText v = some t := by
  unfold Driver.bindColumn at h
  split at h
  · cases h
  · next hv => exact ⟨hv, h⟩

theorem bindColumn_str {s t : String} (h : env.bindColumn (.str s) = some t) : t = s :=
  bindText_str (bindColumn_eq_some h).2

theorem bindNullable_str {s : String} {t : Option String}
    (h : env.bindNullable (.str s) = some t) : t = some s := by
  simp only [Driver.bindNullable, reduceCtorEq, if_false, Option.map_eq_some_iff] at h
  obtain ⟨t', ht', rfl⟩ := h
  rw [bindText_str ht']

theorem bindColumn_of_bindText {v : Json} {t : String} (h : env.bindText v = some t)
    (hv : v ≠ .null) : env.bindColumn v = some t := by
  rw [Driver.bindColumn, if_neg hv, h]

theorem hashable_of_bindNullable {v : Json} {t : Option String}
    (h : env.bindNullable v = some t) : v.hashable = true := by
  unfold Driver.bindNullable at h
  split at h
  · next hv => rw [hv]; rfl
  · obtain ⟨s, hs, -⟩ := Option.map_eq_some_iff.1 h
    exact env.bindText_hashable v s hs

theorem hashable_of_bindColumn {v : Json} {t : String} (h : env.bindColumn v = some t) :
    v.hashable = true :=
  env.bindText_hashable v t (bindColumn_eq_some h).2

theorem bindColumn_of_comparedText {v : Json} {key : String}
    (h : env.comparedText v = .ok (some key)) : env.bindColumn v = some key := by
  unfold Driver.comparedText at h
  by_cases hv : v = .null
  · simp [hv] at h
  · rw [if_neg hv] at h
    cases hb : env.bindText v with
    | none => simp [hb] at h
    | some s =>
        simp only [hb, Except.ok.injEq, Option.some.injEq] at h
        exact h ▸ bindColumn_of_bindText hb hv

theorem comparedText_of_bindColumn {v : Json} {key : String} (h : env.bindColumn v = some key) :
    env.comparedText v = .ok (some key) := by
  obtain ⟨hv, hb⟩ := bindColumn_eq_some h
  rw [Driver.comparedText, if_neg hv, hb]

theorem comparedText_text {s : String} {key : Option String}
    (h : env.comparedText (.str s) = .ok key) : key = some s := by
  unfold Driver.comparedText at h
  rw [if_neg (by simp)] at h
  split at h
  · next t ht => rw [← bindText_str ht, ← Except.ok.inj h]
  · cases h

theorem comparedText_error {v : Json} {e : Err} (h : env.comparedText v = .error e) :
    e = .raised (if !v.hashable && env.refusesUnsent v then .statement else .database) := by
  unfold Driver.comparedText at h
  split at h
  · cases h
  · split at h
    · cases h
    · exact (Except.error.inj h).symm

theorem comparedText_of_not_hashable {v : Json} (h : v.hashable = false) :
    env.comparedText v =
      .error (.raised (if env.refusesUnsent v then .statement else .database)) := by
  cases hv : env.comparedText v with
  | error e => rw [comparedText_error hv, h, Bool.not_false, Bool.true_and]
  | ok key =>
      cases key with
      | some key => simp [hashable_of_bindColumn (bindColumn_of_comparedText hv)] at h
      | none =>
          unfold Driver.comparedText at hv
          split at hv
          · next hnull => simp [hnull, Json.hashable] at h
          · split at hv <;> cases hv

theorem primaryKey_of_hashable {attr : String} {v : Json} (h : v.hashable = true) :
    primaryKey attr v = .ok v := by
  cases v with
  | arr xs => cases h
  | obj ms => cases h
  | _ => rfl

theorem lookupKey_of_hashable {attr : String} {v : Json} (h : v.hashable = true) :
    env.lookupKey attr v = env.comparedText v := by
  rw [Driver.lookupKey, primaryKey_of_hashable h]
  simp [ensure, h, bind, Except.bind]

theorem bindColumn_of_lookupKey {attr key : String} {v : Json}
    (h : env.lookupKey attr v = .ok (some key)) (hv : v.hashable = true) :
    env.bindColumn v = some key :=
  bindColumn_of_comparedText (lookupKey_of_hashable hv ▸ h)

/-- A column is compared with a value under the key that a row was found under. -/
theorem comparedText_of_lookupKey {attr key : String} {v : Json} {t : Option String}
    (h : env.lookupKey attr v = .ok (some key)) (ht : env.comparedText v = .ok t) :
    t = some key := by
  cases hv : v.hashable with
  | false => cases (comparedText_of_not_hashable hv).symm.trans ht
  | true =>
      rw [lookupKey_of_hashable hv, ht] at h
      exact Except.ok.inj h

theorem bindNullable_of_bindColumn {v : Json} {t : String} (h : env.bindColumn v = some t) :
    env.bindNullable v = some (some t) := by
  obtain ⟨hv, ht⟩ := bindColumn_eq_some h
  rw [Driver.bindNullable, if_neg hv, ht]
  rfl

/-- What is stored for a value that a row was found under: the key of the row. -/
theorem bindNullable_of_lookupKey {attr key : String} {v : Json} {t : Option String}
    (h : env.lookupKey attr v = .ok (some key)) (ht : env.bindNullable v = some t) :
    t = some key := by
  have hkey := bindColumn_of_lookupKey h (hashable_of_bindNullable ht)
  exact Option.some.inj (ht.symm.trans (bindNullable_of_bindColumn hkey))

theorem lookupKey_text {attr s key : String} (h : env.lookupKey attr (.str s) = .ok (some key)) :
    key = s :=
  bindColumn_str (bindColumn_of_lookupKey h rfl)

theorem comparedText_str {s : String} (h : env.bindText (.str s) = some s) :
    env.comparedText (.str s) = .ok (some s) := by
  simp [Driver.comparedText, h]

/-! ## Appending to the audit chain -/

/-- Whether the statement that reads the predecessor is refused before it is sent. -/
def Env.unsent (env : Env) (claimId : Json) : Bool :=
  claimId.truthy && !claimId.hashable && env.refusesUnsent claimId

@[simp] theorem unsent_str (s : String) : env.unsent (.str s) = false := by
  simp [Env.unsent, Json.hashable]

@[simp] theorem unsent_null : env.unsent .null = false := rfl

theorem unsent_hashable {claimId : Json} (h : env.unsent claimId = true) :
    claimId.hashable = false := by
  simp only [Env.unsent, Bool.and_eq_true, Bool.not_eq_true'] at h
  exact h.1.2

theorem unsent_truthy {claimId : Json} (h : env.unsent claimId = true) :
    claimId.truthy = true := by
  simp only [Env.unsent, Bool.and_eq_true] at h
  exact h.1.1

/-- Whether the driver stores the values of an entry. -/
def Env.stores (env : Env) (eventType claimId taskId : Json) : Bool :=
  (env.bindColumn eventType).isSome && (env.bindNullable claimId).isSome &&
    (env.bindNullable taskId).isSome

theorem stores_eq_true {eventType claimId taskId : Json}
    (h : env.stores eventType claimId taskId = true) :
    ∃ storedType claim task, env.bindColumn eventType = some storedType ∧
      env.bindNullable claimId = some claim ∧ env.bindNullable taskId = some task := by
  simp only [Env.stores, Bool.and_eq_true, Option.isSome_iff_exists] at h
  obtain ⟨⟨⟨storedType, hs⟩, claim, hc⟩, task, ht⟩ := h
  exact ⟨storedType, claim, task, hs, hc, ht⟩

theorem unsent_of_hashable {claimId : Json} (h : claimId.hashable = true) :
    env.unsent claimId = false := by
  simp [Env.unsent, h]

theorem unsent_of_stores {eventType claimId taskId : Json}
    (h : env.stores eventType claimId taskId = true) : env.unsent claimId = false := by
  obtain ⟨_, claim, _, -, hc, -⟩ := stores_eq_true h
  exact unsent_of_hashable (hashable_of_bindNullable hc)

theorem predecessor_error {query : Nat} {db : Db} {claimId : Json} {e : Err}
    (h : predecessor env query db claimId = .error e) :
    e = .raised (if env.unsent claimId then .statement else .database) := by
  unfold predecessor at h
  split at h
  · next htruthy =>
      cases hkey : env.comparedText claimId with
      | ok key => simp [hkey, bind, Except.bind, pure, Except.pure] at h
      | error e' =>
          have he : e' = e := by simpa [hkey, bind, Except.bind] using h
          rw [← he, comparedText_error hkey, Env.unsent, htruthy, Bool.true_and]
  · cases h

theorem predecessor_unsent {claimId : Json} (query : Nat) (db : Db)
    (h : env.unsent claimId = true) :
    predecessor env query db claimId = .error (.raised .statement) := by
  have hrefused : env.refusesUnsent claimId = true := by
    simp only [Env.unsent, Bool.and_eq_true] at h
    exact h.2
  rw [predecessor, if_pos (unsent_truthy h), comparedText_of_not_hashable (unsent_hashable h),
    if_pos hrefused]
  rfl

theorem normalizeTimestamp_utc {micros : Nat} (h : micros < maxMicros) :
    normalizeTimestamp (.utc micros) = .ok micros := by
  simp [normalizeTimestamp, DateTime.utc, DateTime.assumeUtc, DateTime.toNaiveUtc,
    DateTime.instant, h]

/-- The state after an entry was added; `append` reads the clock once and draws one id. -/
def World.withEntry (w : World) (entry : WcpAudit) (readings : Nat) : World :=
  { w with db := { w.db with audit := w.db.audit ++ [entry] }, tick := w.tick + readings }

section Append

variable {eventType payload claimId taskId : Json} {actorDid : String}

theorem predecessor_ok {query : Nat} {db : Db} {stored : Option String}
    (h : env.bindNullable claimId = some stored) :
    ∃ prev, predecessor env query db claimId = .ok prev := by
  unfold predecessor
  split
  · by_cases hnull : claimId = .null
    · subst hnull
      exact ⟨_, rfl⟩
    · obtain ⟨t, ht, -⟩ :=
        Option.map_eq_some_iff.1 (by rwa [Driver.bindNullable, if_neg hnull] at h)
      rw [comparedText_of_bindColumn (bindColumn_of_bindText ht hnull)]
      exact ⟨_, rfl⟩
  · exact ⟨none, rfl⟩

/-- What `append` at a given time ends with: it adds one entry; or, where nothing is pending that
the database refuses, it raises before the statement that reads the predecessor is sent; or it
raises a database error. -/
theorem append_ends {Q : Except Err AuditAppendResult → World → Prop} {ts : DateTime}
    {micros : Nat} (hts : normalizeTimestamp ts = .ok micros)
    (hok : ∀ r entry storedType claim task, w.doomed = false →
      env.bindColumn eventType = some storedType → env.bindNullable claimId = some claim →
      env.bindNullable taskId = some task →
      (∃ prev, predecessor env w.tick w.db claimId = .ok prev ∧
        entry = buildEntry env eventType storedType actorDid payload claimId taskId claim task
          micros prev (env.uuid w.tick)) →
      Q (.ok r) (w.withEntry entry 1))
    (herr : ¬ (w.doomed = false ∧ env.stores eventType claimId taskId = true) →
      ¬ (w.doomed = false ∧ env.unsent claimId = true) →
      ∀ w', Q (.error (.raised .database)) w')
    (hunsent : env.unsent claimId = true → w.doomed = false →
      Q (.error (.raised .statement)) w) :
    Ends (append env eventType actorDid payload claimId taskId (some ts)) w Q := by
  unfold append
  show Ends (Exec.lift (normalizeTimestamp ts) >>= _) w Q
  rw [hts]
  refine Ends.lift_bind ?_ (fun e he => by cases he)
  intro n hn
  cases hn
  have hstores (hbind : env.bindNullable claimId = none) :
      ¬ (w.doomed = false ∧ env.stores eventType claimId taskId = true) := by
    rintro ⟨-, hstores⟩
    obtain ⟨_, claim, _, -, hc, -⟩ := stores_eq_true hstores
    cases hbind.symm.trans hc
  refine autoflush_bind ?_ ?_
  · intro hclean
    refine Ends.reads_bind ?_ ?_
    · intro prev hprev
      refine uuid4_bind ?_
      have hsent : ¬ (w.doomed = false ∧ env.unsent claimId = true) := by
        rintro ⟨-, hunsent⟩
        cases hprev.symm.trans (predecessor_unsent w.tick w.db hunsent)
      split
      · next storedType claim task hs hc ht =>
          by_cases hdoomed : w.doomed = false
          · refine writeDb_bind (flush_clean_bind hdoomed ?_)
            exact hok _ _ storedType claim task hdoomed hs hc ht ⟨prev, hprev, rfl⟩
          · refine writeDb_bind (flush_bind (fun h => absurd h hdoomed) ?_)
            exact herr (fun h => hdoomed h.1) hsent _
      · next hnone =>
          have hbad : ¬ (w.doomed = false ∧ env.stores eventType claimId taskId = true) := by
            rintro ⟨-, hstores⟩
            obtain ⟨storedType, claim, task, hs, hc, ht⟩ := stores_eq_true hstores
            exact hnone storedType claim task hs hc ht
          refine Ends.write_bind (flush_bind (fun hdoomed => ?_) (herr hbad hsent _))
          cases hdoomed
    · intro e he
      have hnone : env.bindNullable claimId = none := by
        cases hbind : env.bindNullable claimId with
        | none => rfl
        | some claim =>
            obtain ⟨prev, hprev⟩ := @predecessor_ok env claimId w.tick w.db claim hbind
            cases hprev.symm.trans he
      rw [predecessor_error he]
      by_cases hu : env.unsent claimId = true
      · rw [if_pos hu]
        exact hunsent hu (hclean (unsent_truthy hu))
      · rw [if_neg hu]
        exact herr (hstores hnone) (fun h => hu h.2) _
  · intro hdoomed
    exact herr (fun h => hdoomed h.1) (fun h => hdoomed h.1) _

theorem append_none : append env eventType actorDid payload claimId taskId none =
    utcnow env >>= fun ts => append env eventType actorDid payload claimId taskId (some ts) := rfl

/-- `append` with the coordinator's own clock adds one entry or raises an error of the database
layer. -/
theorem append_bind {f : AuditAppendResult → Action β}
    (hok : ∀ r entry storedType claim task, w.doomed = false →
      env.bindColumn eventType = some storedType → env.bindNullable claimId = some claim →
      env.bindNullable taskId = some task →
      (∃ prev, predecessor env (w.tick + 1) w.db claimId = .ok prev ∧
        entry = buildEntry env eventType storedType actorDid payload claimId taskId claim task
          (env.clock w.tick) prev (env.uuid (w.tick + 1))) →
      Ends (f r) (w.withEntry entry 2) P)
    (herr : ∀ w', P (.error (.raised .database)) w')
    (hunsent : env.unsent claimId = true → w.doomed = false →
      P (.error (.raised .statement)) { w with tick := w.tick + 1 }) :
    Ends (append env eventType actorDid payload claimId taskId none >>= f) w P := by
  apply Ends.bind
  rw [append_none]
  have hts := normalizeTimestamp_utc (env.clock_lt w.tick)
  with_reducible refine utcnow_bind ?_
  with_reducible refine append_ends hts ?_ (fun _ _ => herr) hunsent
  intro r entry storedType claim task hdoomed hs hc ht hentry
  exact hok r entry storedType claim task hdoomed hs hc ht hentry

/-- `append` adds its entry exactly where nothing is pending that the database refuses and the
driver stores the entry. -/
theorem append_bind_cases {f : AuditAppendResult → Action β}
    (hok : ∀ r entry, w.doomed = false → env.stores eventType claimId taskId = true →
      Ends (f r) (w.withEntry entry 2) P)
    (herr : ¬ (w.doomed = false ∧ env.stores eventType claimId taskId = true) →
      ¬ (w.doomed = false ∧ env.unsent claimId = true) →
      ∀ w', P (.error (.raised .database)) w')
    (hunsent : env.unsent claimId = true → w.doomed = false →
      P (.error (.raised .statement)) { w with tick := w.tick + 1 }) :
    Ends (append env eventType actorDid payload claimId taskId none >>= f) w P := by
  apply Ends.bind
  rw [append_none]
  have hts := normalizeTimestamp_utc (env.clock_lt w.tick)
  with_reducible refine utcnow_bind ?_
  with_reducible refine append_ends hts ?_ herr hunsent
  intro r entry storedType claim task hdoomed hs hc ht _
  exact hok r entry hdoomed (by simp [Env.stores, hs, hc, ht])

theorem append_unsent_bind {f : AuditAppendResult → Action β} (hclean : w.doomed = false)
    (hunsent : env.unsent claimId = true)
    (h : P (.error (.raised .statement)) { w with tick := w.tick + 1 }) :
    Ends (append env eventType actorDid payload claimId taskId none >>= f) w P := by
  refine append_bind_cases ?_ (fun _ hsent => absurd ⟨hclean, hunsent⟩ hsent) fun _ _ => h
  intro r entry _ hstores
  cases (unsent_of_stores hstores).symm.trans hunsent

end Append

end Wcp.Coordinator
