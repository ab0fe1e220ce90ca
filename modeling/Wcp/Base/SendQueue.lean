import Mathlib.Data.List.Nodup
/-!
# A bounded queue in front of a line

Items are put on a line that may be down.  While it is up and nothing waits, an item
goes on the line at once; while it is down, it waits in a queue of bounded length
whose oldest item makes room; when the line comes up, the queue is sent.

What was sent and what waits is, in this order, a sublist of what was asked for: the
line carries every item at most once and keeps their order.  An item is missing only
if as many items as the queue holds were asked for after it (`Orderly`).  Where an item may fail to
be sent, and the queue may wait though the line is up, the order can be lost, and what
is left is that nothing goes out twice (`Once`).
-/

namespace Wcp.Base

variable {α : Type}

/-- What was sent, what waits, and all that was asked for. -/
structure SendQueue (α : Type) where
  sent : List α
  queue : List α
  asked : List α

namespace SendQueue

/-- The item goes on the line. -/
def direct (q : SendQueue α) (x : α) : SendQueue α :=
  { q with sent := q.sent ++ [x], asked := q.asked ++ [x] }

/-- The item waits; a full queue loses its first. -/
def enqueue (capacity : Nat) (q : SendQueue α) (x : α) : SendQueue α :=
  { q with
    queue := (if capacity ≤ q.queue.length then q.queue.tail else q.queue) ++ [x]
    asked := q.asked ++ [x] }

def flush (q : SendQueue α) : SendQueue α := { q with sent := q.sent ++ q.queue, queue := [] }

/-- The order is kept, and an item is missing only if a queue full of items came after it. -/
structure Orderly (capacity : Nat) (q : SendQueue α) : Prop where
  sublist : (q.sent ++ q.queue).Sublist q.asked
  nodup : q.asked.Nodup
  missing : ∀ before x after, q.asked = before ++ x :: after →
    x ∈ q.sent ∨ x ∈ q.queue ∨ capacity ≤ after.length

variable {capacity : Nat} {q : SendQueue α} {x : α}

theorem orderly_empty : Orderly capacity (⟨[], [], []⟩ : SendQueue α) where
  sublist := List.Sublist.refl []
  nodup := List.nodup_nil
  missing before x after h := by simp at h

theorem split_concat {asked before after : List α} {y : α}
    (h : asked ++ [x] = before ++ y :: after) :
    (after = [] ∧ y = x) ∨ ∃ rest, after = rest ++ [x] ∧ asked = before ++ y :: rest := by
  rcases after.eq_nil_or_concat with rfl | ⟨rest, z, rfl⟩
  · have hlast := (List.append_inj' h rfl).2
    exact .inl ⟨rfl, by simpa using hlast.symm⟩
  · rw [List.concat_eq_append, ← List.cons_append, ← List.append_assoc] at h
    obtain ⟨hasked, hlast⟩ := List.append_inj' h rfl
    refine .inr ⟨rest, ?_, hasked⟩
    rw [List.concat_eq_append, List.singleton_inj.1 hlast.symm]

/-- What comes after an item in a sublist comes after it in the list. -/
theorem sublist_after {xs before after rest : List α} {y : α} (hsub : (y :: rest).Sublist xs)
    (hsplit : xs = before ++ y :: after) (hnodup : xs.Nodup) : rest.Sublist after := by
  subst hsplit
  obtain ⟨hy, -⟩ := List.nodup_middle.1 hnodup |> List.nodup_cons.1
  have hbefore : y ∉ before := fun h => hy (List.mem_append_left _ h)
  clear hnodup hy
  induction before with
  | nil => exact List.cons_sublist_cons.1 hsub
  | cons z before ih =>
      have hzy : y ≠ z := fun h => hbefore (h ▸ List.mem_cons_self)
      have hrest : (y :: rest).Sublist (before ++ y :: after) := by
        cases hsub with
        | cons _ h => exact h
        | cons_cons _ h => exact absurd rfl hzy
      exact ih hrest fun h => hbefore (List.mem_cons_of_mem z h)

theorem nodup_concat {asked : List α} (hnodup : asked.Nodup) (hnew : x ∉ asked) :
    (asked ++ [x]).Nodup :=
  List.nodup_append'.2 ⟨hnodup, List.nodup_singleton x, List.disjoint_singleton.2 hnew⟩

theorem Orderly.direct (h : Orderly capacity q) (hnil : q.queue = []) (hnew : x ∉ q.asked) :
    Orderly capacity (q.direct x) := by
  have hsub := h.sublist
  rw [hnil, List.append_nil] at hsub
  refine ⟨?_, ?_, ?_⟩
  · show (q.sent ++ [x] ++ q.queue).Sublist (q.asked ++ [x])
    rw [hnil, List.append_nil]
    exact hsub.append (List.Sublist.refl [x])
  · exact nodup_concat h.nodup hnew
  · intro before y after hsplit
    rcases split_concat hsplit with ⟨-, rfl⟩ | ⟨rest, rfl, hasked⟩
    · exact .inl (List.mem_append_right _ (List.mem_singleton_self _))
    · rcases h.missing before y rest hasked with hy | hy | hy
      · exact .inl (List.mem_append_left _ hy)
      · exact .inr (.inl hy)
      · refine .inr (.inr ?_)
        rw [List.length_append]
        omega

/-- What an item put in the queue leaves accounted for: the item that makes room was followed by
a queue full of others. -/
theorem missing_enqueue {Gone : α → Prop} (hqueue : q.queue.Sublist q.asked)
    (hnodup : q.asked.Nodup) (hmissing : ∀ before y after, q.asked = before ++ y :: after →
      Gone y ∨ y ∈ q.queue ∨ capacity ≤ after.length)
    {before after : List α} {y : α} (hsplit : q.asked ++ [x] = before ++ y :: after) :
    Gone y ∨ y ∈ (q.enqueue capacity x).queue ∨ capacity ≤ after.length := by
  rcases split_concat hsplit with ⟨-, rfl⟩ | ⟨rest, rfl, hasked⟩
  · exact .inr (.inl (List.mem_append_right _ (List.mem_singleton_self _)))
  · rcases hmissing before y rest hasked with hy | hy | hy
    · exact .inl hy
    · by_cases hroom : capacity ≤ q.queue.length
      · cases hq : q.queue with
        | nil =>
            rw [hq] at hy
            cases hy
        | cons z others =>
            rcases List.mem_cons.1 (hq ▸ hy) with rfl | hy
            · have hafter := sublist_after (hq ▸ hqueue) hasked hnodup
              have hlength := hafter.length_le
              rw [hq, List.length_cons] at hroom
              refine .inr (.inr ?_)
              rw [List.length_append, List.length_singleton]
              omega
            · refine .inr (.inl (List.mem_append_left _ ?_))
              rw [if_pos hroom, hq]
              exact hy
      · refine .inr (.inl (List.mem_append_left _ ?_))
        rw [if_neg hroom]
        exact hy
    · refine .inr (.inr ?_)
      rw [List.length_append]
      omega

theorem kept_sublist (capacity : Nat) (queue : List α) :
    (if capacity ≤ queue.length then queue.tail else queue).Sublist queue := by
  split
  · exact List.tail_sublist _
  · exact List.Sublist.refl _

theorem Orderly.enqueue (h : Orderly capacity q) (hnew : x ∉ q.asked) :
    Orderly capacity (q.enqueue capacity x) := by
  have hqueue : q.queue.Sublist q.asked := (List.sublist_append_right _ _).trans h.sublist
  have hkept := kept_sublist capacity q.queue
  refine ⟨?_, nodup_concat h.nodup hnew, ?_⟩
  · show (q.sent ++ ((if capacity ≤ q.queue.length then q.queue.tail else q.queue) ++
      [x])).Sublist (q.asked ++ [x])
    rw [← List.append_assoc]
    refine List.Sublist.append ?_ (List.Sublist.refl [x])
    exact ((List.Sublist.refl q.sent).append hkept).trans h.sublist
  · intro before y after hsplit
    exact missing_enqueue hqueue h.nodup h.missing hsplit

theorem Orderly.flush (h : Orderly capacity q) : Orderly capacity q.flush := by
  refine ⟨?_, h.nodup, ?_⟩
  · show (q.sent ++ q.queue ++ []).Sublist q.asked
    rw [List.append_nil]
    exact h.sublist
  · intro before y after hsplit
    rcases h.missing before y after hsplit with hy | hy | hy
    · exact .inl (List.mem_append_left _ hy)
    · exact .inl (List.mem_append_right _ hy)
    · exact .inr (.inr hy)

/-! ## Items that cannot be sent -/

/-- Send the first item that waits. -/
def sendHead (q : SendQueue α) : SendQueue α :=
  { q with sent := q.sent ++ q.queue.take 1, queue := q.queue.tail }

theorem sendHead_line (q : SendQueue α) :
    q.sent ++ q.queue.take 1 ++ q.queue.tail = q.sent ++ q.queue := by
  rw [List.append_assoc, ← List.drop_one, List.take_append_drop]

theorem mem_sendHead {y : α} (hy : y ∈ q.queue) : y ∈ q.queue.take 1 ∨ y ∈ q.queue.tail := by
  rw [← List.take_append_drop 1 q.queue, List.drop_one] at hy
  exact List.mem_append.1 hy

theorem Orderly.sendHead (h : Orderly capacity q) : Orderly capacity q.sendHead := by
  refine ⟨?_, h.nodup, ?_⟩
  · show (q.sent ++ q.queue.take 1 ++ q.queue.tail).Sublist q.asked
    rw [sendHead_line]
    exact h.sublist
  · intro before y after hsplit
    rcases h.missing before y after hsplit with hy | hy | hy
    · exact .inl (List.mem_append_left _ hy)
    · rcases mem_sendHead hy with hy | hy
      · exact .inl (List.mem_append_right _ hy)
      · exact .inr (.inl hy)
    · exact .inr (.inr hy)

/-- Give up the first item that waits. -/
def dropHead (q : SendQueue α) : SendQueue α := { q with queue := q.queue.tail }

/-- No item is sent twice or sent and queued, and one is missing only if it was lost for a reason
of its own or a queue full of items came after it. -/
structure Once (capacity : Nat) (lost : α → Prop) (q : SendQueue α) : Prop where
  nodup : q.asked.Nodup
  once : (q.sent ++ q.queue).Nodup
  asked : ∀ x ∈ q.sent, x ∈ q.asked
  queue : q.queue.Sublist q.asked
  missing : ∀ before x after, q.asked = before ++ x :: after →
    (x ∈ q.sent ∨ lost x) ∨ x ∈ q.queue ∨ capacity ≤ after.length

variable {lost : α → Prop}

theorem once_empty : Once capacity lost (⟨[], [], []⟩ : SendQueue α) where
  nodup := List.nodup_nil
  once := List.nodup_nil
  asked x h := by cases h
  queue := List.Sublist.refl []
  missing before x after h := by simp at h

theorem Once.new (h : Once capacity lost q) (hnew : x ∉ q.asked) : x ∉ q.sent ++ q.queue := by
  intro hx
  rcases List.mem_append.1 hx with hx | hx
  · exact hnew (h.asked x hx)
  · exact hnew (h.queue.subset hx)

theorem Once.lose (h : Once capacity lost q) (hnew : x ∉ q.asked) (hlost : lost x) :
    Once capacity lost { q with asked := q.asked ++ [x] } := by
  refine ⟨nodup_concat h.nodup hnew, h.once, ?_, ?_, ?_⟩
  · exact fun y hy => List.mem_append_left _ (h.asked y hy)
  · exact h.queue.trans (List.sublist_append_left _ _)
  · intro before y after hsplit
    rcases split_concat hsplit with ⟨-, rfl⟩ | ⟨rest, rfl, hasked⟩
    · exact .inl (.inr hlost)
    · rcases h.missing before y rest hasked with hy | hy | hy
      · exact .inl hy
      · exact .inr (.inl hy)
      · refine .inr (.inr ?_)
        rw [List.length_append]
        omega

theorem Once.direct (h : Once capacity lost q) (hnew : x ∉ q.asked) :
    Once capacity lost (q.direct x) := by
  have hperm : (q.sent ++ [x] ++ q.queue).Perm (q.sent ++ q.queue ++ [x]) := by
    rw [List.append_assoc, List.append_assoc]
    exact List.perm_append_comm.append_left q.sent
  refine ⟨nodup_concat h.nodup hnew, ?_, ?_, ?_, ?_⟩
  · exact hperm.nodup_iff.2 (nodup_concat h.once (h.new hnew))
  · intro y hy
    rcases List.mem_append.1 hy with hy | hy
    · exact List.mem_append_left _ (h.asked y hy)
    · exact List.mem_append_right _ hy
  · exact h.queue.trans (List.sublist_append_left _ _)
  · intro before y after hsplit
    rcases split_concat hsplit with ⟨-, rfl⟩ | ⟨rest, rfl, hasked⟩
    · exact .inl (.inl (List.mem_append_right _ (List.mem_singleton_self _)))
    · rcases h.missing before y rest hasked with (hy | hy) | hy | hy
      · exact .inl (.inl (List.mem_append_left _ hy))
      · exact .inl (.inr hy)
      · exact .inr (.inl hy)
      · refine .inr (.inr ?_)
        rw [List.length_append]
        omega

theorem Once.enqueue (h : Once capacity lost q) (hnew : x ∉ q.asked) :
    Once capacity lost (q.enqueue capacity x) := by
  have hkept := kept_sublist capacity q.queue
  refine ⟨nodup_concat h.nodup hnew, ?_, ?_, ?_, ?_⟩
  · show (q.sent ++ ((if capacity ≤ q.queue.length then q.queue.tail else q.queue) ++ [x])).Nodup
    rw [← List.append_assoc]
    have hsub := (List.Sublist.refl q.sent).append hkept
    exact nodup_concat (h.once.sublist hsub) fun hx => h.new hnew (hsub.subset hx)
  · exact fun y hy => List.mem_append_left _ (h.asked y hy)
  · exact (hkept.trans h.queue).append (List.Sublist.refl [x])
  · intro before y after hsplit
    exact missing_enqueue h.queue h.nodup h.missing hsplit

theorem Once.sendHead (h : Once capacity lost q) : Once capacity lost q.sendHead := by
  refine ⟨h.nodup, ?_, ?_, (List.tail_sublist _).trans h.queue, ?_⟩
  · show (q.sent ++ q.queue.take 1 ++ q.queue.tail).Nodup
    rw [sendHead_line]
    exact h.once
  · intro y hy
    rcases List.mem_append.1 hy with hy | hy
    · exact h.asked y hy
    · exact h.queue.subset (List.mem_of_mem_take hy)
  · intro before y after hsplit
    rcases h.missing before y after hsplit with (hy | hy) | hy | hy
    · exact .inl (.inl (List.mem_append_left _ hy))
    · exact .inl (.inr hy)
    · rcases mem_sendHead hy with hy | hy
      · exact .inl (.inl (List.mem_append_right _ hy))
      · exact .inr (.inl hy)
    · exact .inr (.inr hy)

theorem Once.dropHead (h : Once capacity lost q) (hlost : ∀ y ∈ q.queue.head?, lost y) :
    Once capacity lost q.dropHead := by
  refine ⟨h.nodup, ?_, h.asked, (List.tail_sublist _).trans h.queue, ?_⟩
  · exact h.once.sublist ((List.Sublist.refl q.sent).append (List.tail_sublist _))
  · intro before y after hsplit
    rcases h.missing before y after hsplit with hy | hy | hy
    · exact .inl hy
    · cases hq : q.queue with
      | nil =>
          rw [hq] at hy
          cases hy
      | cons z others =>
          rcases List.mem_cons.1 (hq ▸ hy) with rfl | hy
          · exact .inl (.inr (hlost y (by rw [hq]; rfl)))
          · refine .inr (.inl ?_)
            show y ∈ q.queue.tail
            rw [hq]
            exact hy
    · exact .inr (.inr hy)

end SendQueue

end Wcp.Base
