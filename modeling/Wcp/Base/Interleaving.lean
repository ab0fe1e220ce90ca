import Mathlib.Data.Fintype.Basic
import Mathlib.Data.List.Nodup
import Mathlib.Logic.Function.Basic
import Wcp.Base.Exec
import Wcp.Base.Runs
/-!
# Transactions that take turns

A `Script` is a transaction cut at every access to the state it shares with
others.  Its reads see what is committed then and its own writes; its writes
appear to the others when it commits.  Transactions take turns in any order
(`turn`).

Where a transaction that has written something commits only while no other one is
under way, the committed state is that of a serial execution, in the order in
which the transactions ended, and every transaction returned what it returns
there (`interleave_serial`).
-/

namespace Wcp.Base

variable {ε σ τ α β ι : Type}

/-! ## Scripts -/

/-- A computation over a shared state `σ` and a state `τ` of its own, cut at every access. -/
inductive Script (ε σ τ α : Type) where
  | ret (r : Except ε α)
  | read (k : σ → Script ε σ τ α)
  | write (f : σ → σ) (next : Script ε σ τ α)
  /-- Go on with the own state, and change it. -/
  | own (f : τ → τ) (k : τ → Script ε σ τ α)

namespace Script

/-- Go on with the value of a script, unless it raised. -/
protected def bind : Script ε σ τ α → (α → Script ε σ τ β) → Script ε σ τ β
  | ret (.ok a), f => f a
  | ret (.error e), _ => ret (.error e)
  | read k, f => read fun s => (k s).bind f
  | write g next, f => write g (next.bind f)
  | own g k, f => own g fun p => (k p).bind f

instance : Monad (Script ε σ τ) where
  pure a := ret (.ok a)
  bind := Script.bind

/-- A script that runs alone. -/
def exec : Script ε σ τ α → Exec ε (σ × τ) α
  | ret r => fun s => (r, s)
  | read k => fun s => (k s.1).exec s
  | write f next => fun s => next.exec (f s.1, s.2)
  | own f k => fun s => (k s.2).exec (s.1, f s.2)

theorem exec_bind (m : Script ε σ τ α) (f : α → Script ε σ τ β) :
    (m >>= f).exec = m.exec >>= fun a => (f a).exec := by
  show (m.bind f).exec = _
  funext s
  induction m generalizing s with
  | ret r =>
      cases r with
      | ok a => rfl
      | error e => rfl
  | read k ih => exact ih s.1 s
  | write g next ih => exact ih (g s.1, s.2)
  | own g k ih => exact ih s.2 (s.1, g s.2)

end Script

/-! ## Turns -/

/-- How far a transaction has come: what is left of it, what it has written and its own state. -/
inductive Phase (ε σ τ α : Type) where
  | waiting
  | running (rest : Script ε σ τ α) (writes : List (σ → σ)) (own : τ)
  | ended (r : Except ε α)

/-- The committed state and the transactions. -/
structure Interleaved (ε σ τ α ι : Type) where
  committed : σ
  phase : ι → Phase ε σ τ α

/-- A state under the writes of a transaction. -/
def overlay (writes : List (σ → σ)) (s : σ) : σ := writes.foldl (fun s f => f s) s

/-- Transactions with what each of them starts from, and which outcomes are committed. -/
structure Transactions (ε σ τ α ι : Type) where
  script : ι → Script ε σ τ α
  start : ι → τ
  keeps : Except ε α → τ → Bool

namespace Transactions

variable (ts : Transactions ε σ τ α ι)

/-- The next access of a transaction. -/
def resume (s : σ) : Script ε σ τ α → List (σ → σ) → τ → Phase ε σ τ α × σ
  | .ret r, writes, p => (.ended r, if ts.keeps r p then overlay writes s else s)
  | .read k, writes, p => (.running (k (overlay writes s)) writes p, s)
  | .write f next, writes, p => (.running next (writes ++ [f]) p, s)
  | .own f k, writes, p => (.running (k p) writes (f p), s)

/-- What a phase leads to. -/
def advance (s : σ) (i : ι) : Phase ε σ τ α → Phase ε σ τ α × σ
  | .waiting => ts.resume s (ts.script i) [] (ts.start i)
  | .running rest writes p => ts.resume s rest writes p
  | .ended r => (.ended r, s)

/-- A transaction takes its turn. -/
def turn [DecidableEq ι] (s : Interleaved ε σ τ α ι) (i : ι) : Interleaved ε σ τ α ι :=
  ⟨(ts.advance s.committed i (s.phase i)).2,
    Function.update s.phase i (ts.advance s.committed i (s.phase i)).1⟩

/-- The state after a schedule, from a state where no transaction has begun. -/
def interleave [DecidableEq ι] (s : σ) (schedule : List ι) : Interleaved ε σ τ α ι :=
  run ts.turn ⟨s, fun _ => .waiting⟩ schedule

/-- A transaction in one piece: what it returns, and the state after its commit. -/
def transact (s : σ) (i : ι) : Except ε α × σ :=
  match (ts.script i).exec (s, ts.start i) with
  | (r, s', p) => (r, if ts.keeps r p then s' else s)

/-- The state after transactions one after the other. -/
def serially (s : σ) (order : List ι) : σ := run (fun s i => (ts.transact s i).2) s order

end Transactions

/-! ## When turns do not matter -/

namespace Phase

/-- The transaction has begun and not ended. -/
def underWay : Phase ε σ τ α → Bool
  | running _ _ _ => true
  | _ => false

/-- The transaction has ended with a result. -/
def returned : Phase ε σ τ α → Bool
  | ended (.ok _) => true
  | _ => false

theorem exists_of_returned {p : Phase ε σ τ α} (h : p.returned = true) :
    ∃ answer, p = ended (.ok answer) := by
  cases p with
  | ended r =>
      cases r with
      | ok answer => exact ⟨answer, rfl⟩
      | error e => cases h
  | _ => cases h

/-- The transaction is about to commit what it has written. -/
def committing (keeps : Except ε α → τ → Bool) : Phase ε σ τ α → Bool
  | running (.ret r) (_ :: _) p => keeps r p
  | _ => false

end Phase

/-- A transaction that is about to commit what it has written is the only one under way. -/
def Transactions.Alone (ts : Transactions ε σ τ α ι) (s : Interleaved ε σ τ α ι) (i : ι) : Prop :=
  (s.phase i).committing ts.keeps = true → ∀ j, j ≠ i → (s.phase j).underWay = false

/-- A transaction that has not begun would begin in a state that is fit for it. -/
def Interleaved.Fits (fit : ι → σ → Prop) (s : Interleaved ε σ τ α ι) (i : ι) : Prop :=
  s.phase i = .waiting → fit i s.committed

instance [Fintype ι] [DecidableEq ι] (ts : Transactions ε σ τ α ι) (s : Interleaved ε σ τ α ι)
    (i : ι) : Decidable (ts.Alone s i) :=
  inferInstanceAs (Decidable (_ = true → ∀ j, j ≠ i → _ = false))

instance (fit : ι → σ → Prop) [∀ i s, Decidable (fit i s)] (s : Interleaved ε σ τ α ι) (i : ι) :
    Decidable (s.Fits fit i) :=
  match h : s.phase i with
  | .waiting => decidable_of_iff (fit i s.committed) ⟨fun hfit _ => hfit, fun hfit => hfit h⟩
  | .running _ _ _ => isTrue fun hwaiting => by
      rw [h] at hwaiting
      cases hwaiting
  | .ended _ => isTrue fun hwaiting => by
      rw [h] at hwaiting
      cases hwaiting

theorem Transactions.admitted_turns [Fintype ι] [DecidableEq ι] {ts : Transactions ε σ τ α ι}
    {fit : ι → σ → Prop} [∀ i s, Decidable (fit i s)] {s : σ} {schedule : List ι}
    (h : admitted ts.turn (fun s i => decide (ts.Alone s i ∧ s.Fits fit i))
      ⟨s, fun _ => .waiting⟩ schedule = true) :
    ∀ before i after, schedule = before ++ i :: after →
      ts.Alone (ts.interleave s before) i ∧ (ts.interleave s before).Fits fit i :=
  fun before i after hsplit => of_decide_eq_true (admitted_at h before i after hsplit)

section Serial

variable {ts : Transactions ε σ τ α ι} {fit : ι → σ → Prop} {s₀ : σ} {s : Interleaved ε σ τ α ι}
  {order : List ι} {i : ι} {rest : Script ε σ τ α} {writes : List (σ → σ)} {p : τ}

/-- The transactions that have ended are those of a serial execution, and what is left of the
others leads where they would lead in one piece. -/
structure Serial (ts : Transactions ε σ τ α ι) (fit : ι → σ → Prop) (s₀ : σ)
    (s : Interleaved ε σ τ α ι) (order : List ι) : Prop where
  nodup : order.Nodup
  ended : ∀ i, i ∈ order ↔ ∃ r, s.phase i = .ended r
  committed : s.committed = ts.serially s₀ order
  answers : ∀ before i after, order = before ++ i :: after →
    fit i (ts.serially s₀ before) ∧
      s.phase i = .ended (ts.transact (ts.serially s₀ before) i).1
  running : ∀ i rest writes p, s.phase i = .running rest writes p → fit i s.committed ∧
    (ts.script i).exec (s.committed, ts.start i) = rest.exec (overlay writes s.committed, p)

theorem overlay_concat (writes : List (σ → σ)) (f : σ → σ) (s : σ) :
    overlay (writes ++ [f]) s = f (overlay writes s) := by
  simp [overlay]

theorem start_serial (ts : Transactions ε σ τ α ι) (fit : ι → σ → Prop) (s₀ : σ) :
    Serial ts fit s₀ ⟨s₀, fun _ => .waiting⟩ [] := by
  refine ⟨List.nodup_nil, ?_, rfl, ?_, ?_⟩
  · intro i
    simp
  · intro before i after h
    simp at h
  · intro i rest writes p h
    cases h

variable [DecidableEq ι]

theorem Serial.stay (h : Serial ts fit s₀ s order) (hlive : ∀ r, s.phase i ≠ .ended r)
    (hfit : fit i s.committed)
    (hexec : (ts.script i).exec (s.committed, ts.start i) =
      rest.exec (overlay writes s.committed, p)) :
    Serial ts fit s₀ ⟨s.committed, Function.update s.phase i (.running rest writes p)⟩ order := by
  have hi : i ∉ order := fun hi => by
    obtain ⟨r, hr⟩ := (h.ended i).1 hi
    exact hlive r hr
  refine ⟨h.nodup, ?_, h.committed, ?_, ?_⟩
  · intro j
    by_cases hj : j = i
    · subst hj
      simp [hi]
    · simpa [hj] using h.ended j
  · intro before j after hsplit
    have hj : j ≠ i := by
      rintro rfl
      exact hi (by simp [hsplit])
    simpa [hj] using h.answers before j after hsplit
  · intro j rest' writes' p' hphase
    by_cases hj : j = i
    · subst hj
      simp only [Function.update_self, Phase.running.injEq] at hphase
      obtain ⟨rfl, rfl, rfl⟩ := hphase
      exact ⟨hfit, hexec⟩
    · exact h.running j rest' writes' p' (by simpa [hj] using hphase)

theorem Serial.finish {r : Except ε α} {s' : σ} (h : Serial ts fit s₀ s order)
    (hlive : ∀ r, s.phase i ≠ .ended r) (hfit : fit i s.committed)
    (htransact : ts.transact s.committed i = (r, s'))
    (hothers : s' = s.committed ∨ ∀ j, j ≠ i → (s.phase j).underWay = false) :
    Serial ts fit s₀ ⟨s', Function.update s.phase i (.ended r)⟩ (order ++ [i]) := by
  have hi : i ∉ order := fun hi => by
    obtain ⟨r, hr⟩ := (h.ended i).1 hi
    exact hlive r hr
  refine ⟨List.nodup_append.2 ⟨h.nodup, List.nodup_singleton i, ?_⟩, ?_, ?_, ?_, ?_⟩
  · intro a ha b hb hab
    exact hi (List.mem_singleton.1 hb ▸ hab ▸ ha)
  · intro j
    by_cases hj : j = i
    · subst hj
      simp
    · simpa [hj] using h.ended j
  · rw [Transactions.serially, run_append, run_cons, run_nil]
    exact (h.committed ▸ congrArg Prod.snd htransact).symm
  · intro before j after hsplit
    rcases after.eq_nil_or_concat with rfl | ⟨after, x, rfl⟩
    · obtain ⟨rfl, hij⟩ := List.append_inj' hsplit rfl
      obtain rfl : i = j := by simpa using hij
      rw [← h.committed, htransact]
      exact ⟨hfit, by simp⟩
    · have hbefore : order = before ++ j :: after := by
        rw [List.concat_eq_append, ← List.cons_append, ← List.append_assoc] at hsplit
        exact (List.append_inj' hsplit rfl).1
      have hj : j ≠ i := by
        rintro rfl
        exact hi (by simp [hbefore])
      simpa [hj] using h.answers before j after hbefore
  · intro j rest' writes' p' hphase
    have hj : j ≠ i := by
      rintro rfl
      simp at hphase
    have hrunning : s.phase j = .running rest' writes' p' := by simpa [hj] using hphase
    rcases hothers with rfl | hothers
    · exact h.running j rest' writes' p' hrunning
    · have hdone := hothers j hj
      rw [hrunning] at hdone
      cases hdone

theorem Serial.resume (h : Serial ts fit s₀ s order) (hlive : ∀ r, s.phase i ≠ .ended r)
    (hfit : fit i s.committed)
    (hexec : (ts.script i).exec (s.committed, ts.start i) =
      rest.exec (overlay writes s.committed, p))
    (halone : ∀ r, rest = .ret r → writes ≠ [] → ts.keeps r p = true →
      ∀ j, j ≠ i → (s.phase j).underWay = false) :
    ∃ order', Serial ts fit s₀ ⟨(ts.resume s.committed rest writes p).2,
      Function.update s.phase i (ts.resume s.committed rest writes p).1⟩ order' := by
  cases rest with
  | read k => exact ⟨order, h.stay hlive hfit hexec⟩
  | write f next =>
      refine ⟨order, h.stay hlive hfit ?_⟩
      rw [hexec, overlay_concat]
      rfl
  | own f k => exact ⟨order, h.stay hlive hfit hexec⟩
  | ret r =>
      refine ⟨order ++ [i], h.finish hlive hfit ?_ ?_⟩
      · rw [Transactions.transact, hexec]
        rfl
      · show (if ts.keeps r p then overlay writes s.committed else s.committed) = _ ∨ _
        by_cases hkeeps : ts.keeps r p = true
        · by_cases hwrites : writes = []
          · left
            rw [hwrites, overlay, List.foldl_nil, ite_self]
          · exact .inr (halone r rfl hwrites hkeeps)
        · exact .inl (if_neg hkeeps)

theorem Serial.turn (h : Serial ts fit s₀ s order) (halone : ts.Alone s i) (hfit : s.Fits fit i) :
    ∃ order', Serial ts fit s₀ (ts.turn s i) order' := by
  unfold Transactions.turn
  cases hphase : s.phase i with
  | waiting =>
      refine h.resume (fun r hr => by simp [hphase] at hr) (hfit hphase) rfl ?_
      intro r _ hwrites
      exact absurd rfl hwrites
  | running rest writes p =>
      obtain ⟨hfits, hexec⟩ := h.running i rest writes p hphase
      refine h.resume (fun r hr => by simp [hphase] at hr) hfits hexec ?_
      rintro r rfl hwrites hkeeps
      refine halone ?_
      cases writes with
      | nil => exact absurd rfl hwrites
      | cons f writes => rw [hphase, Phase.committing, hkeeps]
  | ended r =>
      refine ⟨order, ?_⟩
      rw [Transactions.advance, ← hphase, Function.update_eq_self]
      exact h

/-- Where every transaction that has written something commits alone, the committed state is that
of a serial execution in the order in which the transactions ended. -/
theorem interleave_serial (ts : Transactions ε σ τ α ι) (fit : ι → σ → Prop) (s₀ : σ)
    (schedule : List ι)
    (hok : ∀ before i after, schedule = before ++ i :: after →
      ts.Alone (ts.interleave s₀ before) i ∧ (ts.interleave s₀ before).Fits fit i) :
    ∃ order, Serial ts fit s₀ (ts.interleave s₀ schedule) order :=
  @run_invariant_at _ _ ts.turn (fun s => ∃ order, Serial ts fit s₀ s order)
    (fun s i => ts.Alone s i ∧ s.Fits fit i)
    (fun _ _ ⟨_, h⟩ hi => h.turn hi.1 hi.2) _ _ ⟨[], start_serial ts fit s₀⟩ hok

end Serial

end Wcp.Base
