import Mathlib.Data.List.Count
import Mathlib.Data.List.Perm.Basic
/-!
# Deciding by ballot

Items are judged one by one, each under a label, and a rule turns the judgements
into one: any item will do, every required label has to pass, or a quorum of items
has to.  A rule looks at counts and at the labels that pass, so it neither depends
on the order of the items (`Rule.decide_perm`) nor punishes a better one
(`Rule.decide_mono`).
-/

namespace Wcp.Base

/-- A judgement. -/
inductive Verdict where
  | fail
  | review
  | pass
deriving DecidableEq

namespace Verdict

/-- Fail is below review, and review below pass. -/
def rank : Verdict → Nat
  | fail => 0
  | review => 1
  | pass => 2

instance : LE Verdict := ⟨fun a b => a.rank ≤ b.rank⟩

instance (a b : Verdict) : Decidable (a ≤ b) := inferInstanceAs (Decidable (a.rank ≤ b.rank))

variable {a b c : Verdict}

theorem le_def : a ≤ b ↔ a.rank ≤ b.rank := Iff.rfl

theorem le_rfl : a ≤ a := Nat.le_refl a.rank

theorem le_pass : a ≤ pass := by
  cases a <;> decide

theorem fail_le : fail ≤ a := Nat.zero_le a.rank

theorem eq_of_le_of_le (h : a ≤ b) (h' : b ≤ a) : a = b := by
  rw [le_def] at h h'
  cases a <;> cases b <;> simp_all [rank]

end Verdict

/-- Judgements under labels. -/
abbrev Ballot (α : Type) := List (α × Verdict)

variable {α : Type}

namespace Ballot

def count (v : Verdict) (b : Ballot α) : Nat := b.countP fun p => p.2 = v

/-- Every required label has a passing item. -/
def Covers (b : Ballot α) (required : List α) : Prop := ∀ x ∈ required, (x, Verdict.pass) ∈ b

instance [DecidableEq α] (b : Ballot α) (required : List α) : Decidable (b.Covers required) :=
  inferInstanceAs (Decidable (∀ x ∈ required, (x, Verdict.pass) ∈ b))

/-- At least as much passes and is open, and no more fails. -/
structure Improves (b b' : Ballot α) : Prop where
  passing : ∀ x, (x, Verdict.pass) ∈ b → (x, Verdict.pass) ∈ b'
  pass : b.count .pass ≤ b'.count .pass
  hopeful : b.count .pass + b.count .review ≤ b'.count .pass + b'.count .review
  fail : b'.count .fail ≤ b.count .fail

theorem Improves.covers {b b' : Ballot α} {required : List α} (h : b.Improves b')
    (hcovers : b.Covers required) : b'.Covers required :=
  fun x hx => h.passing x (hcovers x hx)

theorem count_append (v : Verdict) (b b' : Ballot α) :
    count v (b ++ b') = count v b + count v b' := List.countP_append

theorem count_cons (v : Verdict) (p : α × Verdict) (b : Ballot α) :
    count v (p :: b) = count v b + if p.2 = v then 1 else 0 := by
  rw [count, List.countP_cons]
  simp only [decide_eq_true_eq]
  rfl

theorem improves_of_perm {b b' : Ballot α} (h : b.Perm b') : b.Improves b' := by
  have hcount : ∀ v, b.count v = b'.count v := fun v => h.countP_eq _
  exact ⟨fun x hx => h.subset hx, Nat.le_of_eq (hcount .pass),
    Nat.le_of_eq (by rw [hcount .pass, hcount .review]), Nat.le_of_eq (hcount .fail).symm⟩

theorem improves_append_pass (b : Ballot α) (x : α) : b.Improves (b ++ [(x, Verdict.pass)]) := by
  refine ⟨fun y hy => List.mem_append_left _ hy, ?_, ?_, ?_⟩ <;>
    simp only [count_append, count_cons] <;> simp [count]

theorem improves_raise {v v' : Verdict} (xs ys : Ballot α) (x : α) (h : v ≤ v') :
    Improves (xs ++ (x, v) :: ys) (xs ++ (x, v') :: ys) := by
  rw [Verdict.le_def] at h
  refine ⟨fun y hy => ?_, ?_, ?_, ?_⟩
  · rw [List.mem_append, List.mem_cons] at hy ⊢
    rcases hy with hy | hy | hy
    · exact .inl hy
    · obtain ⟨rfl, rfl⟩ := Prod.mk.inj hy
      cases v' with
      | pass => exact .inr (.inl rfl)
      | fail => simp [Verdict.rank] at h
      | review => simp [Verdict.rank] at h
    · exact .inr (.inr hy)
  all_goals
    simp only [count_append, count_cons]
    cases v <;> cases v' <;> simp_all [Verdict.rank] <;> omega

/-- The ballot once every open item has passed. -/
def settled (b : Ballot α) : Ballot α :=
  b.map fun p => if p.2 = .review then (p.1, .pass) else p

end Ballot

namespace Ballot

variable {b b' : Ballot α} {required : List α} {m : Int}

/-- One passing item is enough; otherwise a review is open while nothing has failed. -/
def decideAny (b : Ballot α) : Verdict :=
  if 1 ≤ b.count .pass then .pass
  else if 1 ≤ b.count .review ∧ b.count .fail = 0 then .review
  else .fail

/-- So many items have to pass; otherwise a review is open while enough of them can. -/
def decideQuorum (m : Int) (b : Ballot α) : Verdict :=
  if m ≤ b.count .pass then .pass
  else if m ≤ b.count .pass + b.count .review ∧ b.count .fail = 0 then .review
  else .fail

theorem decideAny_mono (h : b.Improves b') : b.decideAny ≤ b'.decideAny := by
  obtain ⟨-, hpass, hhopeful, hfail⟩ := h
  unfold decideAny
  by_cases hany : 1 ≤ b'.count .pass
  · rw [if_pos hany]
    exact Verdict.le_pass
  · rw [if_neg (show ¬ 1 ≤ b.count .pass by omega), if_neg hany]
    by_cases hopen : 1 ≤ b.count .review ∧ b.count .fail = 0
    · rw [if_pos hopen, if_pos (by omega)]
      exact Verdict.le_rfl
    · rw [if_neg hopen]
      exact Verdict.fail_le

theorem decideQuorum_mono (h : b.Improves b') : b.decideQuorum m ≤ b'.decideQuorum m := by
  obtain ⟨-, hpass, hhopeful, hfail⟩ := h
  unfold decideQuorum
  by_cases hmany : m ≤ b'.count .pass
  · rw [if_pos hmany]
    exact Verdict.le_pass
  · rw [if_neg (show ¬ m ≤ b.count .pass by omega), if_neg hmany]
    by_cases hopen : m ≤ b.count .pass + b.count .review ∧ b.count .fail = 0
    · rw [if_pos hopen, if_pos (by omega)]
      exact Verdict.le_rfl
    · rw [if_neg hopen]
      exact Verdict.fail_le

/-! ## Open items -/

theorem count_settled_pass (b : Ballot α) :
    b.settled.count .pass = b.count .pass + b.count .review := by
  induction b with
  | nil => rfl
  | cons p b ih =>
      rw [settled, List.map_cons, count_cons, count_cons, count_cons]
      have ih : count .pass (b.map fun p => if p.2 = .review then (p.1, .pass) else p) = _ := ih
      rw [ih]
      rcases p with ⟨x, v⟩
      cases v <;> simp <;> omega

theorem count_settled_fail (b : Ballot α) : b.settled.count .fail = b.count .fail := by
  unfold count settled
  rw [List.countP_map]
  refine List.countP_congr fun p _ => ?_
  rcases p with ⟨x, v⟩
  cases v <;> simp

theorem mem_settled_pass {x : α} :
    (x, Verdict.pass) ∈ b.settled ↔ ∃ v, (x, v) ∈ b ∧ v ≠ .fail := by
  unfold settled
  rw [List.mem_map]
  constructor
  · rintro ⟨⟨y, v⟩, hmem, heq⟩
    cases v <;> simp at heq
    · obtain ⟨rfl, -⟩ := heq
      exact ⟨_, hmem, nofun⟩
    · subst heq
      exact ⟨_, hmem, nofun⟩
  · rintro ⟨v, hmem, hne⟩
    cases v with
    | fail => exact absurd rfl hne
    | review => exact ⟨_, hmem, rfl⟩
    | pass => exact ⟨_, hmem, rfl⟩

/-- Where nothing failed, a review says of `any` that the ballot may still pass. -/
theorem decideAny_review_iff (hnone : b.count .fail = 0) :
    b.decideAny = .review ↔ b.decideAny ≠ .pass ∧ b.settled.decideAny = .pass := by
  unfold decideAny
  rw [count_settled_pass, count_settled_fail, hnone]
  split_ifs <;> simp_all

theorem decideQuorum_review_iff (hnone : b.count .fail = 0) :
    b.decideQuorum m = .review ↔ b.decideQuorum m ≠ .pass ∧ b.settled.decideQuorum m = .pass := by
  unfold decideQuorum
  rw [count_settled_pass, count_settled_fail, hnone, Int.natCast_add]
  split_ifs <;> simp_all

/-! ## Required labels -/

section Required

variable [DecidableEq α]

/-- Every required label has to pass, and nothing may fail. -/
def decideAll (required : List α) (b : Ballot α) : Verdict :=
  if required ≠ [] ∧ b.Covers required ∧ b.count .fail = 0 then .pass
  else if 0 < b.count .fail ∨ ¬ b.Covers required then .fail
  else .review

theorem decideAll_mono (h : b.Improves b') : b.decideAll required ≤ b'.decideAll required := by
  obtain ⟨-, -, -, hfail⟩ := id h
  unfold decideAll
  by_cases hall : required ≠ [] ∧ b'.Covers required ∧ b'.count .fail = 0
  · rw [if_pos hall]
    exact Verdict.le_pass
  · have hnot : ¬ (required ≠ [] ∧ b.Covers required ∧ b.count .fail = 0) :=
      fun ⟨hne, hcovers, hzero⟩ => hall ⟨hne, h.covers hcovers, by omega⟩
    rw [if_neg hnot, if_neg hall]
    by_cases hbad : 0 < b.count .fail ∨ ¬ b.Covers required
    · rw [if_pos hbad]
      exact Verdict.fail_le
    · have hgood : ¬ (0 < b'.count .fail ∨ ¬ b'.Covers required) := by
        rw [not_or, not_not] at hbad ⊢
        exact ⟨by omega, h.covers hbad.2⟩
      rw [if_neg hbad, if_neg hgood]
      exact Verdict.le_rfl

theorem decideAll_pass_iff (hnone : b.count .fail = 0) (hne : required ≠ []) :
    b.decideAll required = .pass ↔ b.Covers required := by
  unfold decideAll
  by_cases hcovers : b.Covers required
  · rw [if_pos ⟨hne, hcovers, hnone⟩]
    exact iff_of_true rfl hcovers
  · rw [if_neg fun h => hcovers h.2.1, if_pos (.inr hcovers)]
    exact iff_of_false nofun hcovers

theorem decideAll_ne_review (hne : required ≠ []) : b.decideAll required ≠ .review := by
  unfold decideAll
  split_ifs with hall hbad
  · exact nofun
  · exact nofun
  · rw [not_or, not_not] at hbad
    exact absurd ⟨hne, hbad.2, by omega⟩ hall

end Required

end Ballot

/-- How a ballot is decided. -/
inductive Rule (α : Type) where
  | any
  | all (required : List α)
  | quorum (m : Int)
  | never

namespace Rule

variable [DecidableEq α] {b b' : Ballot α}

def decide : Rule α → Ballot α → Verdict
  | .any, b => b.decideAny
  | .all required, b => b.decideAll required
  | .quorum m, b => b.decideQuorum m
  | .never, _ => .fail

theorem decide_mono (r : Rule α) (h : b.Improves b') : r.decide b ≤ r.decide b' := by
  cases r with
  | any => exact Ballot.decideAny_mono h
  | all required => exact Ballot.decideAll_mono h
  | quorum m => exact Ballot.decideQuorum_mono h
  | never => exact Verdict.le_rfl

theorem decide_perm (r : Rule α) (h : b.Perm b') : r.decide b = r.decide b' :=
  Verdict.eq_of_le_of_le (r.decide_mono (Ballot.improves_of_perm h))
    (r.decide_mono (Ballot.improves_of_perm h.symm))

end Rule

end Wcp.Base
