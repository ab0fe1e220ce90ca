import Mathlib.Data.List.Nodup
import Mathlib.Logic.Function.Basic
/-!
# Requests and replies matched by a key

Waiters register under a key, a reader takes one frame after another and hands it
to the waiter registered under the frame's key, which it removes.  Whatever order
this happens in, the frames that were handed out and the waiters that got one are
paired off: nobody gets two frames, no frame goes to two waiters, and a waiter's
frame bears its key and was read after it had registered (`Matched`).

Where no key is ever used twice or forgotten, the waiter gets the first frame with
its key, and it is registered exactly as long as there was none (`Retained`).
-/

namespace Wcp.Base

variable {κ ι φ : Type}

/-- The waiters by key, with a record of what happened: under which key each waiter registered
and how many frames had been read then, the frames read, and who was handed which of them. -/
structure Correlator (κ ι φ : Type) where
  pending : κ → Option ι
  key : ι → Option κ
  since : ι → Nat
  read : List φ
  answers : List (ι × Nat)

namespace Correlator

/-- Nobody has registered and nothing was read. -/
def empty : Correlator κ ι φ := ⟨fun _ => none, fun _ => none, fun _ => 0, [], []⟩

variable (keyOf : φ → κ)

/-- Frames and waiters are paired off. -/
structure Matched (c : Correlator κ ι φ) : Prop where
  pending : ∀ k i, c.pending k = some i → c.key i = some k ∧ ∀ p, (i, p) ∉ c.answers
  answers : ∀ i p, (i, p) ∈ c.answers →
    ∃ f, c.read[p]? = some f ∧ c.key i = some (keyOf f) ∧ c.since i ≤ p
  since : ∀ i, c.since i ≤ c.read.length
  waiters : (c.answers.map Prod.fst).Nodup
  frames : (c.answers.map Prod.snd).Nodup

/-- Every key is used once and no waiter is forgotten: a waiter is registered as long as no frame
with its key was read, and got the first one. -/
structure Retained (c : Correlator κ ι φ) : Prop where
  key_inj : ∀ i j k, c.key i = some k → c.key j = some k → i = j
  since : ∀ i, c.since i ≤ c.read.length
  pending_iff : ∀ k i, c.pending k = some i ↔
    c.key i = some k ∧ ∀ p f, c.since i ≤ p → c.read[p]? = some f → keyOf f ≠ k
  answers_iff : ∀ i p, (i, p) ∈ c.answers ↔ c.since i ≤ p ∧
    (∃ f, c.read[p]? = some f ∧ c.key i = some (keyOf f)) ∧
    ∀ q f, c.since i ≤ q → q < p → c.read[q]? = some f → c.key i ≠ some (keyOf f)

variable {keyOf} {c : Correlator κ ι φ}

theorem matched_empty : Matched keyOf (empty : Correlator κ ι φ) where
  pending _ _ h := by cases h
  answers _ _ h := absurd h List.not_mem_nil
  since _ := Nat.le_refl 0
  waiters := List.nodup_nil
  frames := List.nodup_nil

theorem retained_empty : Retained keyOf (empty : Correlator κ ι φ) where
  key_inj _ _ _ h := by cases h
  since _ := Nat.le_refl 0
  pending_iff _ _ := by simp [empty]
  answers_iff _ _ := by simp [empty]

theorem Matched.lt (h : Matched keyOf c) {i : ι} {p : Nat} (hp : (i, p) ∈ c.answers) :
    p < c.read.length := by
  obtain ⟨f, hf, -⟩ := h.answers i p hp
  exact (List.getElem?_eq_some_iff.1 hf).1

/-- A waiter was handed a frame. -/
def Answered (c : Correlator κ ι φ) (i : ι) (f : φ) : Prop :=
  ∃ p, (i, p) ∈ c.answers ∧ c.read[p]? = some f

/-! ## Frames -/

variable [DecidableEq κ]

def forget (c : Correlator κ ι φ) (k : κ) : Correlator κ ι φ :=
  { c with pending := Function.update c.pending k none }

variable (keyOf) in
/-- Read a frame and remove the waiter under its key. -/
def receive (c : Correlator κ ι φ) (f : φ) : Correlator κ ι φ :=
  { c with
    pending := Function.update c.pending (keyOf f) none
    read := c.read ++ [f]
    answers := c.answers ++ ((c.pending (keyOf f)).map fun i => (i, c.read.length)).toList }

theorem Matched.forget (k : κ) (h : Matched keyOf c) : Matched keyOf (c.forget k) := by
  refine ⟨?_, h.answers, h.since, h.waiters, h.frames⟩
  intro k' j hj
  by_cases hk : k' = k
  · subst hk
    simp [Correlator.forget] at hj
  · exact h.pending k' j (by simpa [Correlator.forget, hk] using hj)

theorem mem_answers_receive {f : φ} {i : ι} {p : Nat} :
    (i, p) ∈ (c.receive keyOf f).answers ↔
      (i, p) ∈ c.answers ∨ (c.pending (keyOf f) = some i ∧ p = c.read.length) := by
  cases hpending : c.pending (keyOf f) with
  | none => simp [Correlator.receive, hpending]
  | some j =>
      simp only [Correlator.receive, hpending, Option.map_some, Option.toList_some,
        List.mem_append, List.mem_singleton, Prod.mk.injEq, Option.some.injEq]
      rw [@eq_comm _ i j]

theorem Answered.receive {i : ι} {f : φ} (g : φ) (h : c.Answered i f) :
    (c.receive keyOf g).Answered i f := by
  obtain ⟨p, hp, hf⟩ := h
  refine ⟨p, mem_answers_receive.2 (.inl hp), ?_⟩
  show (c.read ++ [g])[p]? = some f
  rw [List.getElem?_append_left (List.getElem?_eq_some_iff.1 hf).1, hf]

/-- A frame is handed to the waiter that is registered under its key. -/
theorem answered_receive {i : ι} {f : φ} (h : c.pending (keyOf f) = some i) :
    (c.receive keyOf f).Answered i f := by
  refine ⟨c.read.length, mem_answers_receive.2 (.inr ⟨h, rfl⟩), ?_⟩
  show (c.read ++ [f])[c.read.length]? = some f
  simp

theorem Matched.receive (f : φ) (h : Matched keyOf c) : Matched keyOf (c.receive keyOf f) := by
  have hfresh : ∀ i p, (i, p) ∈ c.answers → p ≠ c.read.length :=
    fun i p hp => Nat.ne_of_lt (h.lt hp)
  refine ⟨?_, ?_, ?_, ?_, ?_⟩
  · intro k i hi
    have hk : k ≠ keyOf f := by
      rintro rfl
      simp [Correlator.receive] at hi
    have hi' : c.pending k = some i := by simpa [Correlator.receive, hk] using hi
    obtain ⟨hkey, hanswers⟩ := h.pending k i hi'
    refine ⟨hkey, fun p hp => ?_⟩
    rcases mem_answers_receive.1 hp with hp | ⟨hf, -⟩
    · exact hanswers p hp
    · exact hk (Option.some.inj (hkey.symm.trans (h.pending _ i hf).1))
  · intro i p hp
    rcases mem_answers_receive.1 hp with hp | ⟨hf, rfl⟩
    · obtain ⟨g, hg, hkey, hsince⟩ := h.answers i p hp
      refine ⟨g, ?_, hkey, hsince⟩
      show (c.read ++ [f])[p]? = some g
      rw [List.getElem?_append_left (h.lt hp), hg]
    · refine ⟨f, ?_, (h.pending _ i hf).1, h.since i⟩
      show (c.read ++ [f])[c.read.length]? = some f
      simp
  · intro i
    have hle := h.since i
    show c.since i ≤ (c.read ++ [f]).length
    rw [List.length_append]
    omega
  · cases hpending : c.pending (keyOf f) with
    | none => simpa [Correlator.receive, hpending] using h.waiters
    | some i =>
        have hi : i ∉ c.answers.map Prod.fst := by
          intro hmem
          obtain ⟨⟨j, p⟩, hp, rfl⟩ := List.mem_map.1 hmem
          exact (h.pending _ _ hpending).2 p hp
        have hone := (List.nodup_concat _ _).2 ⟨hi, h.waiters⟩
        simpa [Correlator.receive, hpending] using hone
  · cases hpending : c.pending (keyOf f) with
    | none => simpa [Correlator.receive, hpending] using h.frames
    | some i =>
        have hp : c.read.length ∉ c.answers.map Prod.snd := by
          intro hmem
          obtain ⟨⟨j, p⟩, hp, heq⟩ := List.mem_map.1 hmem
          exact hfresh j p hp heq
        have hone := (List.nodup_concat _ _).2 ⟨hp, h.frames⟩
        simpa [Correlator.receive, hpending] using hone

theorem Retained.receive (f : φ) (h : Retained keyOf c) : Retained keyOf (c.receive keyOf f) := by
  have hread : ∀ p g, (c.receive keyOf f).read[p]? = some g ↔
      c.read[p]? = some g ∨ (p = c.read.length ∧ f = g) := by
    intro p g
    show (c.read ++ [f])[p]? = some g ↔ _
    rcases Nat.lt_trichotomy p c.read.length with hp | rfl | hp
    · rw [List.getElem?_append_left hp]
      simp [Nat.ne_of_lt hp]
    · simp
    · rw [List.getElem?_eq_none (by simp; omega), List.getElem?_eq_none (by omega)]
      simp
      omega
  have hlt : ∀ p g, c.read[p]? = some g → p < c.read.length :=
    fun p g hg => (List.getElem?_eq_some_iff.1 hg).1
  refine ⟨h.key_inj, ?_, ?_, ?_⟩
  · intro i
    have hle := h.since i
    show c.since i ≤ (c.read ++ [f]).length
    rw [List.length_append]
    omega
  · intro k i
    show Function.update c.pending (keyOf f) none k = some i ↔ c.key i = some k ∧
      ∀ p g, c.since i ≤ p → (c.receive keyOf f).read[p]? = some g → keyOf g ≠ k
    by_cases hk : k = keyOf f
    · subst hk
      rw [Function.update_self]
      simp only [reduceCtorEq, false_iff, not_and, not_forall]
      intro _
      exact ⟨c.read.length, f, h.since i, (hread _ _).2 (.inr ⟨rfl, rfl⟩), by simp⟩
    · rw [Function.update_of_ne hk, h.pending_iff]
      refine and_congr_right fun _ => ⟨fun hall p g hp hg => ?_, fun hall p g hp hg => ?_⟩
      · rcases (hread p g).1 hg with hg | ⟨-, rfl⟩
        · exact hall p g hp hg
        · exact Ne.symm hk
      · exact hall p g hp ((hread p g).2 (.inl hg))
  · intro i p
    show (i, p) ∈ (c.receive keyOf f).answers ↔ c.since i ≤ p ∧
      (∃ g, (c.receive keyOf f).read[p]? = some g ∧ c.key i = some (keyOf g)) ∧
      ∀ q g, c.since i ≤ q → q < p → (c.receive keyOf f).read[q]? = some g →
        c.key i ≠ some (keyOf g)
    rw [mem_answers_receive, h.answers_iff, h.pending_iff]
    constructor
    · rintro (⟨hp, ⟨g, hg, hkey⟩, hfirst⟩ | ⟨⟨hkey, hnone⟩, rfl⟩)
      · refine ⟨hp, ⟨g, (hread p g).2 (.inl hg), hkey⟩, fun q g' hq hqp hg' => ?_⟩
        rcases (hread q g').1 hg' with hg' | ⟨rfl, -⟩
        · exact hfirst q g' hq hqp hg'
        · exact absurd (hlt p g hg) (by omega)
      · refine ⟨h.since i, ⟨f, (hread _ _).2 (.inr ⟨rfl, rfl⟩), hkey⟩, fun q g hq hqp hg => ?_⟩
        rcases (hread q g).1 hg with hg | ⟨rfl, -⟩
        · intro hk
          exact hnone q g hq hg (Option.some.inj (hk.symm.trans hkey))
        · exact absurd hqp (Nat.lt_irrefl _)
    · rintro ⟨hp, ⟨g, hg, hkey⟩, hfirst⟩
      rcases (hread p g).1 hg with hg | ⟨rfl, rfl⟩
      · exact .inl ⟨hp, ⟨g, hg, hkey⟩,
          fun q g' hq hqp hg' => hfirst q g' hq hqp ((hread q g').2 (.inl hg'))⟩
      · refine .inr ⟨⟨hkey, fun q g' hq hg' hk => ?_⟩, rfl⟩
        exact hfirst q g' hq (hlt q g' hg') ((hread q g').2 (.inl hg')) (hk ▸ hkey)

/-! ## Waiters -/

variable [DecidableEq ι]

def register (c : Correlator κ ι φ) (i : ι) (k : κ) : Correlator κ ι φ :=
  { c with
    pending := Function.update c.pending k (some i)
    key := Function.update c.key i (some k)
    since := Function.update c.since i c.read.length }

theorem Matched.register {i : ι} {k : κ} (h : Matched keyOf c) (hnew : c.key i = none) :
    Matched keyOf (c.register i k) := by
  -- nobody has handed a frame to a waiter that had not registered
  have hnone : ∀ p, (i, p) ∉ c.answers := by
    intro p hp
    obtain ⟨f, -, hkey, -⟩ := h.answers i p hp
    rw [hnew] at hkey
    cases hkey
  refine ⟨?_, ?_, ?_, h.waiters, h.frames⟩
  · intro k' j hj
    by_cases hk : k' = k
    · subst hk
      obtain rfl : i = j := by simpa [Correlator.register] using hj
      exact ⟨Function.update_self .., hnone⟩
    · have hj' : c.pending k' = some j := by simpa [Correlator.register, hk] using hj
      obtain ⟨hkey, hanswers⟩ := h.pending k' j hj'
      have hij : j ≠ i := by
        rintro rfl
        rw [hnew] at hkey
        cases hkey
      exact ⟨by simpa [Correlator.register, hij] using hkey, hanswers⟩
  · intro j p hp
    obtain ⟨f, hf, hkey, hsince⟩ := h.answers j p hp
    have hij : j ≠ i := by
      rintro rfl
      exact hnone p hp
    exact ⟨f, hf, by simpa [Correlator.register, hij] using hkey,
      by simpa [Correlator.register, hij] using hsince⟩
  · intro j
    by_cases hij : j = i
    · subst hij
      simp [Correlator.register]
    · simpa [Correlator.register, hij] using h.since j

theorem Retained.register {i : ι} {k : κ} (h : Retained keyOf c) (hnew : c.key i = none)
    (hkey : ∀ j, c.key j ≠ some k) : Retained keyOf (c.register i k) := by
  have hupdate : ∀ j, (c.register i k).key j = if j = i then some k else c.key j :=
    fun j => Function.update_apply ..
  have hsince : ∀ j, (c.register i k).since j = if j = i then c.read.length else c.since j :=
    fun j => Function.update_apply ..
  have hnone : ∀ p f, c.read.length ≤ p → c.read[p]? ≠ some f := by
    intro p f hp
    rw [List.getElem?_eq_none hp]
    simp
  refine ⟨?_, ?_, ?_, ?_⟩
  · intro a b k' ha hb
    rw [hupdate] at ha hb
    by_cases hai : a = i <;> by_cases hbi : b = i <;>
      simp only [hai, hbi, if_true, if_false] at ha hb
    · rw [hai, hbi]
    · exact absurd (hb.trans ha.symm) (hkey b)
    · exact absurd (ha.trans hb.symm) (hkey a)
    · exact h.key_inj a b k' ha hb
  · intro j
    rw [hsince]
    split
    · exact Nat.le_refl _
    · exact h.since j
  · intro k' j
    rw [hupdate, hsince]
    show Function.update c.pending k (some i) k' = some j ↔ _
    by_cases hk : k' = k
    · subst hk
      rw [Function.update_self]
      by_cases hij : j = i
      · subst hij
        simp only [if_true, true_and, true_iff]
        intro p f hp hf
        exact absurd hf (hnone p f hp)
      · simp only [if_neg hij, Option.some.injEq]
        constructor
        · rintro rfl
          exact absurd rfl hij
        · intro hj
          exact absurd hj.1 (hkey j)
    · rw [Function.update_of_ne hk, h.pending_iff]
      by_cases hij : j = i
      · subst hij
        simp [hnew, Ne.symm hk]
      · rw [if_neg hij, if_neg hij]
        rfl
  · intro j p
    rw [hupdate, hsince]
    show (j, p) ∈ c.answers ↔ _
    rw [h.answers_iff]
    by_cases hij : j = i
    · subst hij
      simp only [if_true, hnew]
      constructor
      · rintro ⟨-, ⟨f, -, hf⟩, -⟩
        cases hf
      · rintro ⟨hp, ⟨f, hf, -⟩, -⟩
        exact absurd hf (hnone p f hp)
    · rw [if_neg hij, if_neg hij]
      rfl

end Correlator

end Wcp.Base
