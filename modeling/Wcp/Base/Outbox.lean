import Mathlib.Data.List.Nodup
import Mathlib.Data.List.Infix
import Wcp.Base.Runs
/-!
# Outboxes

Items are put into a buffer and handed over in batches.  A batch is a snapshot of
the buffer; while it is in flight, items are put and other snapshots are taken; a
batch that is accepted empties the buffer, whatever it holds by then.

A run keeps every item, and hands over none twice, exactly if the buffer still is
the batch whenever one is accepted (`kept_iff_exact`).
-/

namespace Wcp.Base

variable {α : Type}

/-- A buffer, the batches in flight, the batches that were accepted and all items put. -/
structure Outbox (α : Type) where
  buffer : List α
  inFlight : List (List α)
  accepted : List (List α)
  put : List α

inductive Outbox.Move (α : Type) where
  | put (x : α)
  | snapshot
  /-- The batch in flight at a place is accepted or refused. -/
  | answer (i : Nat) (accept : Bool)

namespace Outbox

/-- The outbox that nothing has been put in. -/
def empty : Outbox α := ⟨[], [], [], []⟩

def step (o : Outbox α) : Move α → Outbox α
  | .put x => { o with buffer := o.buffer ++ [x], put := o.put ++ [x] }
  | .snapshot => { o with inFlight := o.inFlight ++ [o.buffer] }
  | .answer i accept =>
      match o.inFlight[i]? with
      | none => o
      | some batch =>
          { o with
            buffer := if accept then [] else o.buffer
            inFlight := o.inFlight.eraseIdx i
            accepted := if accept then o.accepted ++ [batch] else o.accepted }

/-- Every item put is in the buffer or in an accepted batch, and in one accepted batch only. -/
def Kept (o : Outbox α) : Prop :=
  (∀ x ∈ o.put, x ∈ o.buffer ∨ ∃ batch ∈ o.accepted, x ∈ batch) ∧
    o.accepted.Pairwise List.Disjoint

/-- A batch that is accepted is what the buffer holds. -/
def Exact (o : Outbox α) : Move α → Prop
  | .answer i true => ∀ batch, o.inFlight[i]? = some batch → o.buffer = batch
  | _ => True

/-- An item that is put is a new one. -/
def New (o : Outbox α) : Move α → Prop
  | .put x => x ∉ o.put
  | _ => True

/-- The accepted batches and the buffer are the items in the order in which they were put, and
a batch in flight is the start of the buffer or of a batch that was accepted since. -/
structure InOrder (o : Outbox α) : Prop where
  put_eq : o.put = o.accepted.flatten ++ o.buffer
  nodup : o.put.Nodup
  inFlight : ∀ b ∈ o.inFlight, b <+: o.buffer ∨ ∃ batch ∈ o.accepted, b <+: batch

theorem inOrder_empty : InOrder (empty : Outbox α) where
  put_eq := rfl
  nodup := List.nodup_nil
  inFlight := fun _ h => absurd h List.not_mem_nil

variable {o : Outbox α}

theorem step_answer {i : Nat} {accept : Bool} {batch : List α} (h : o.inFlight[i]? = some batch) :
    o.step (.answer i accept) =
      { o with
        buffer := if accept then [] else o.buffer
        inFlight := o.inFlight.eraseIdx i
        accepted := if accept then o.accepted ++ [batch] else o.accepted } := by
  simp only [step, h]

theorem InOrder.step {m : Move α} (h : InOrder o) (hnew : New o m) (hexact : Exact o m) :
    InOrder (o.step m) := by
  cases m with
  | put x =>
      refine ⟨?_, ?_, ?_⟩
      · show o.put ++ [x] = o.accepted.flatten ++ (o.buffer ++ [x])
        rw [h.put_eq, List.append_assoc]
      · exact List.nodup_append'.2 ⟨h.nodup, List.nodup_singleton x,
          List.disjoint_singleton.2 hnew⟩
      · intro b hb
        exact (h.inFlight b hb).imp_left fun hbuffer => hbuffer.trans (List.prefix_append _ _)
  | snapshot =>
      refine ⟨h.put_eq, h.nodup, fun b hb => ?_⟩
      rcases List.mem_append.1 hb with hb | hb
      · exact h.inFlight b hb
      · exact .inl (List.mem_singleton.1 hb ▸ List.prefix_refl _)
  | answer i accept =>
      cases hbatch : o.inFlight[i]? with
      | none => simpa only [Outbox.step, hbatch] using h
      | some batch =>
          rw [step_answer hbatch]
          have hrest : ∀ b ∈ o.inFlight.eraseIdx i,
              b <+: o.buffer ∨ ∃ batch ∈ o.accepted, b <+: batch :=
            fun b hb => h.inFlight b (List.mem_of_mem_eraseIdx hb)
          cases accept with
          | false => exact ⟨h.put_eq, h.nodup, hrest⟩
          | true =>
              have hbuffer : o.buffer = batch := hexact batch hbatch
              refine ⟨?_, h.nodup, fun b hb => .inr ?_⟩
              · show o.put = (o.accepted ++ [batch]).flatten ++ []
                rw [h.put_eq, hbuffer]
                simp
              · rcases hrest b hb with hb | ⟨earlier, hearlier, hb⟩
                · exact ⟨batch, List.mem_append_right _ (List.mem_singleton_self _), hbuffer ▸ hb⟩
                · exact ⟨earlier, List.mem_append_left _ hearlier, hb⟩

theorem InOrder.kept (h : InOrder o) : Kept o := by
  have hnodup := h.nodup
  rw [h.put_eq] at hnodup
  constructor
  · intro x hx
    rw [h.put_eq, List.mem_append, List.mem_flatten] at hx
    exact hx.symm
  · exact (List.nodup_flatten.1 hnodup.of_append_left).2

/-- A batch that is accepted while the buffer is not the batch loses an item or hands one over
twice. -/
theorem InOrder.not_kept {m : Move α} (h : InOrder o) (hexact : ¬ Exact o m) :
    ¬ Kept (o.step m) := by
  cases m with
  | put x => exact absurd trivial hexact
  | snapshot => exact absurd trivial hexact
  | answer i accept =>
      cases accept with
      | false => exact absurd trivial hexact
      | true =>
          simp only [Exact, not_forall] at hexact
          obtain ⟨batch, hbatch, hne⟩ := hexact
          rw [step_answer hbatch]
          rintro ⟨hcover, hdisjoint⟩
          have hnodup := h.nodup
          rw [h.put_eq, List.nodup_append'] at hnodup
          -- what the buffer holds beyond the batch is in no accepted batch
          have hbuffer : ∀ x ∈ o.buffer, x ∈ batch := by
            intro x hx
            have hput : x ∈ o.put := by
              rw [h.put_eq]
              exact List.mem_append_right _ hx
            rcases hcover x hput with hnil | ⟨b, hb, hxb⟩
            · exact absurd hnil List.not_mem_nil
            · rcases List.mem_append.1 hb with hb | hb
              · exact (hnodup.2.2 (List.mem_flatten.2 ⟨b, hb, hxb⟩) hx).elim
              · exact List.mem_singleton.1 hb ▸ hxb
          rcases h.inFlight batch (List.mem_of_getElem? hbatch) with
            ⟨more, hmore⟩ | ⟨earlier, hearlier, hstart⟩
          · cases more with
            | nil => exact hne (by rw [← hmore, List.append_nil])
            | cons x more =>
                rw [← hmore, List.nodup_append'] at hnodup
                have hx : x ∈ batch := hbuffer x (by rw [← hmore]; simp)
                exact hnodup.2.1.2.2 hx List.mem_cons_self
          · have hboth : List.Disjoint earlier batch :=
              (List.pairwise_append.1 hdisjoint).2.2 earlier hearlier batch
                (List.mem_singleton_self _)
            have hnil : batch = [] := by
              rw [List.eq_nil_iff_forall_not_mem]
              exact fun x hx => hboth (hstart.subset hx) hx
            subst hnil
            refine hne (List.eq_nil_iff_forall_not_mem.2 fun x hx => ?_)
            exact absurd (hbuffer x hx) List.not_mem_nil

/-- As long as items are new, a run keeps every item at every moment exactly if every batch is
accepted while the buffer is the batch. -/
theorem kept_iff_exact {σ ι : Type} {step : σ → ι → σ} {outbox : σ → Outbox α}
    {move : σ → ι → Option (Move α)} {Inv : σ → Prop}
    (hinv : ∀ s i, Inv s → Inv (step s i))
    (hmove : ∀ s i, Inv s → outbox (step s i) = ((move s i).elim (outbox s) (outbox s).step))
    (hnew : ∀ s i, Inv s → ∀ m ∈ move s i, New (outbox s) m) {s : σ} (hs : Inv s)
    (hempty : outbox s = empty) (inputs : List ι) :
    (∀ before, before <+: inputs → Kept (outbox (run step s before))) ↔
      ∀ before i after, inputs = before ++ i :: after →
        ∀ m ∈ move (run step s before) i, Exact (outbox (run step s before)) m := by
  refine @run_good_iff σ ι step (fun s => Inv s ∧ InOrder (outbox s)) (fun s => Kept (outbox s))
    (fun s i => ∀ m ∈ move s i, Exact (outbox s) m) ?_ (fun s h => h.2.kept) ?_
    s ⟨hs, hempty ▸ inOrder_empty⟩ inputs
  · intro s i h hexact
    refine ⟨hinv s i h.1, ?_⟩
    rw [hmove s i h.1]
    cases hm : move s i with
    | none => exact h.2
    | some m => exact h.2.step (hnew s i h.1 m hm) (hexact m hm)
  · intro s i h hexact
    simp only [not_forall] at hexact
    obtain ⟨m, hm, hexact⟩ := hexact
    rw [hmove s i h.1, Option.mem_def.1 hm]
    exact h.2.not_kept hexact

end Outbox

end Wcp.Base
