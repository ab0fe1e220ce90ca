import Wcp.Base.DateTime
import Wcp.Base.HashChain
import Wcp.Base.JsonText
import Wcp.Base.Outbox
import Wcp.Coordinator.LocalEnvironment
/-!
# WCP-Lite

A worker that loses its connection buffers signed audit entries and submits them in
batches on reconnect.  `replay_on_reconnect` copies the buffer, awaits the answer and
clears the buffer where it was accepted; other calls take their turn while it waits
(`Lite.step`).

The buffer is an outbox, so entries are lost or submitted twice exactly if a batch is
accepted that is no longer what the buffer holds (`kept_iff`).  Clearing the buffer
also forgets the last hash: the batches link into one chain only as long as nothing is
appended after the first of them (`linked_iff`).
-/

namespace Wcp.Sdk

open Wcp.Base

/-! ## The buffered chain -/

/-- `AuditEntry`; `ref` tells the objects apart that `append` makes. -/
structure AuditEntry where
  ref : Nat
  entryId : String
  taskId : String
  claimId : Option String
  timestamp : String
  signerDid : String
  payload : Json
  previousEntryHash : Option String
  entryHash : String
  signature : String
deriving DecidableEq

structure BufferOverflowError where
  capacity : Int
  attemptedCount : Nat
deriving DecidableEq

/-- What `append` is given, and the time its clock would show. -/
structure Appended where
  entryId : String
  taskId : String
  claimId : Option String
  signerDid : String
  payload : Json
  signature : String
  timestamp : Option String
  now : DateTime

def entryBody (entryId taskId : String) (claimId : Option String) (timestamp signerDid : String)
    (payload : Json) (previousEntryHash : Option String) : Json :=
  .obj [
    ("entry_id", .str entryId),
    ("task_id", .str taskId),
    ("claim_id", claimId.elim .null .str),
    ("timestamp", .str timestamp),
    ("signer_did", .str signerDid),
    ("payload", payload),
    ("previous_entry_hash", previousEntryHash.elim .null .str)]

structure BufferedAuditChain where
  workerDid : String
  capacity : Int
  entries : List AuditEntry
  lastHash : Option String

namespace BufferedAuditChain

def init (workerDid : String) (capacity : Int) : BufferedAuditChain :=
  ⟨workerDid, capacity, [], none⟩

def isFull (chain : BufferedAuditChain) : Bool := decide (chain.capacity ≤ chain.entries.length)

variable (sha256Hex : String → String)

/-- `append`, whose new object is `ref`. -/
def append (chain : BufferedAuditChain) (ref : Nat) (a : Appended) :
    Except BufferOverflowError (AuditEntry × BufferedAuditChain) :=
  if chain.isFull then .error ⟨chain.capacity, chain.entries.length + 1⟩
  else
    let timestamp := match a.timestamp with
      | some t => if t = "" then a.now.isoformat else t
      | none => a.now.isoformat
    let body := entryBody a.entryId a.taskId a.claimId timestamp a.signerDid a.payload
      chain.lastHash
    let entryHash := sha256Hex (canonical body)
    let entry : AuditEntry := {
      ref := ref
      entryId := a.entryId
      taskId := a.taskId
      claimId := a.claimId
      timestamp := timestamp
      signerDid := a.signerDid
      payload := a.payload
      previousEntryHash := chain.lastHash
      entryHash := entryHash
      signature := a.signature }
    .ok (entry, { chain with entries := chain.entries ++ [entry], lastHash := some entryHash })

/-- The hash that `verify_chain_integrity` expects of an entry. -/
def expectedHash (e : AuditEntry) : String :=
  sha256Hex (canonical (entryBody e.entryId e.taskId e.claimId e.timestamp e.signerDid e.payload
    e.previousEntryHash))

/-- The loop of `verify_chain_integrity`. -/
def verifyFrom : Option String → List AuditEntry → Bool
  | _, [] => true
  | prevHash, e :: es =>
      if e.entryHash ≠ expectedHash sha256Hex e then false
      else if e.previousEntryHash ≠ prevHash then false
      else verifyFrom (some e.entryHash) es

def verifyChainIntegrity (chain : BufferedAuditChain) : Bool :=
  verifyFrom sha256Hex none chain.entries

def clear (chain : BufferedAuditChain) : BufferedAuditChain :=
  { chain with entries := [], lastHash := none }

/-- `replay_on_reconnect` up to its `await`: what it returns, or the batch it submits. -/
def replayUntilAwait (chain : BufferedAuditChain) : Bool ⊕ List AuditEntry :=
  if chain.entries = [] then .inl true
  else if chain.verifyChainIntegrity sha256Hex = false then .inl false
  else .inr chain.entries

def replayAfterAwait (chain : BufferedAuditChain) (accepted : Bool) : BufferedAuditChain × Bool :=
  (if accepted then chain.clear else chain, accepted)

theorem verifyFrom_iff {p : Option String} {es : List AuditEntry} :
    verifyFrom sha256Hex p es = true ↔
      Threads AuditEntry.previousEntryHash AuditEntry.entryHash p es ∧
        ∀ e ∈ es, e.entryHash = expectedHash sha256Hex e := by
  induction es generalizing p with
  | nil => simp [verifyFrom, Threads]
  | cons e es ih =>
      rw [verifyFrom, threads_cons, List.forall_mem_cons]
      by_cases hhash : e.entryHash = expectedHash sha256Hex e
      · by_cases hprev : e.previousEntryHash = p
        · rw [if_neg (not_not.2 hhash), if_neg (not_not.2 hprev), ih]
          tauto
        · simp [hprev]
      · simp [hhash]

/-- An append that is not refused adds an entry that names the last hash. -/
theorem append_cases (chain : BufferedAuditChain) (ref : Nat) (a : Appended) :
    (chain.isFull = true ∧ ∃ e, chain.append sha256Hex ref a = .error e) ∨
    chain.isFull = false ∧ ∃ e, chain.append sha256Hex ref a =
        .ok (e, { chain with entries := chain.entries ++ [e], lastHash := some e.entryHash }) ∧
      e.ref = ref ∧ e.previousEntryHash = chain.lastHash ∧
      e.entryHash = expectedHash sha256Hex e := by
  cases hfull : chain.isFull with
  | true => exact .inl ⟨rfl, _, by rw [append, if_pos hfull]⟩
  | false =>
      refine .inr ⟨rfl, ?_⟩
      rw [append, if_neg (by rw [hfull]; exact Bool.false_ne_true)]
      exact ⟨_, rfl, rfl, rfl, rfl⟩

end BufferedAuditChain

/-! ## Interleaved calls -/

/-- A chain, the batches of the replays that await their answer, the entries that `append`
returned and the batches that were accepted. -/
structure Lite where
  chain : BufferedAuditChain
  suspended : List (List AuditEntry)
  appended : List AuditEntry
  accepted : List (List AuditEntry)

namespace Lite

inductive Event where
  | append (a : Appended)
  /-- `replay_on_reconnect` is called, and runs up to its `await`. -/
  | replay
  /-- A replay that awaits its answer gets it, and runs to its end. -/
  | answer (i : Nat) (accept : Bool)

def start (workerDid : String) (capacity : Int) : Lite :=
  ⟨.init workerDid capacity, [], [], []⟩

variable (sha256Hex : String → String)

def step (w : Lite) : Event → Lite
  | .append a =>
      match w.chain.append sha256Hex w.appended.length a with
      | .error _ => w
      | .ok (e, chain) => { w with chain := chain, appended := w.appended ++ [e] }
  | .replay =>
      match w.chain.replayUntilAwait sha256Hex with
      | .inl _ => w
      | .inr batch => { w with suspended := w.suspended ++ [batch] }
  | .answer i accept =>
      match w.suspended[i]? with
      | none => w
      | some batch =>
          { w with
            chain := (w.chain.replayAfterAwait accept).1
            suspended := w.suspended.eraseIdx i
            accepted := if accept then w.accepted ++ [batch] else w.accepted }

/-- Calls that do not overlap: every replay gets its answer before the next call. -/
inductive Turn where
  | append (a : Appended)
  | replay (accept : Bool)

def turn (w : Lite) : Turn → Lite
  | .append a => w.step sha256Hex (.append a)
  | .replay accept => (w.step sha256Hex .replay).step sha256Hex (.answer 0 accept)

/-- The accepted batches and the buffer are one hash-linked chain. -/
def Linked (w : Lite) : Prop :=
  Threads AuditEntry.previousEntryHash AuditEntry.entryHash none
    (w.accepted.flatten ++ w.chain.entries)

/-! ## The buffer is an outbox -/

def outbox (w : Lite) : Outbox AuditEntry :=
  ⟨w.chain.entries, w.suspended, w.accepted, w.appended⟩

/-- What a call does to the outbox. -/
def move (w : Lite) : Event → Option (Outbox.Move AuditEntry)
  | .append a =>
      match w.chain.append sha256Hex w.appended.length a with
      | .error _ => none
      | .ok (e, _) => some (.put e)
  | .replay => if w.chain.entries = [] then none else some .snapshot
  | .answer i accept => some (.answer i accept)

/-- The buffer is a chain of its own with the hashes that its entries ask for, and the objects
are numbered as they were made. -/
structure Sound (w : Lite) : Prop where
  threads : Threads AuditEntry.previousEntryHash AuditEntry.entryHash none w.chain.entries
  hashes : ∀ e ∈ w.chain.entries, e.entryHash = BufferedAuditChain.expectedHash sha256Hex e
  lastHash : w.chain.lastHash = tip AuditEntry.entryHash none w.chain.entries
  refs : ∀ e ∈ w.appended, e.ref < w.appended.length

variable {sha256Hex}

theorem sound_start (workerDid : String) (capacity : Int) :
    Sound sha256Hex (start workerDid capacity) where
  threads := trivial
  hashes := fun _ h => absurd h List.not_mem_nil
  lastHash := rfl
  refs := fun _ h => absurd h List.not_mem_nil

theorem Sound.replayUntilAwait {w : Lite} (h : Sound sha256Hex w) :
    w.chain.replayUntilAwait sha256Hex =
      if w.chain.entries = [] then .inl true else .inr w.chain.entries := by
  have hverifies : w.chain.verifyChainIntegrity sha256Hex = true :=
    (BufferedAuditChain.verifyFrom_iff _).2 ⟨h.threads, h.hashes⟩
  rw [BufferedAuditChain.replayUntilAwait, hverifies, if_neg (by decide : ¬ true = false)]

theorem Sound.step_replay {w : Lite} (h : Sound sha256Hex w) :
    w.step sha256Hex .replay =
      if w.chain.entries = [] then w
      else { w with suspended := w.suspended ++ [w.chain.entries] } := by
  rw [Lite.step, h.replayUntilAwait]
  by_cases hempty : w.chain.entries = []
  · rw [if_pos hempty, if_pos hempty]
  · rw [if_neg hempty, if_neg hempty]

theorem Sound.step {w : Lite} (h : Sound sha256Hex w) (event : Event) :
    Sound sha256Hex (w.step sha256Hex event) := by
  cases event with
  | append a =>
      rw [Lite.step]
      rcases w.chain.append_cases sha256Hex w.appended.length a with
        ⟨-, e, herror⟩ | ⟨-, e, hok, href, hprev, hhash⟩
      · rwa [herror]
      · rw [hok]
        refine ⟨?_, ?_, ?_, ?_⟩
        · exact threads_append.2 ⟨h.threads, hprev.trans h.lastHash, trivial⟩
        · intro x hx
          rcases List.mem_append.1 hx with hx | hx
          · exact h.hashes x hx
          · rw [List.mem_singleton.1 hx]
            exact hhash
        · exact (tip_concat none w.chain.entries e).symm
        · intro x hx
          show x.ref < (w.appended ++ [e]).length
          rw [List.length_append, List.length_singleton]
          rcases List.mem_append.1 hx with hx | hx
          · exact Nat.lt_succ_of_lt (h.refs x hx)
          · rw [List.mem_singleton.1 hx, href]
            exact Nat.lt_succ_self _
  | replay =>
      rw [h.step_replay]
      split
      · exact h
      · exact ⟨h.threads, h.hashes, h.lastHash, h.refs⟩
  | answer i accept =>
      rw [Lite.step]
      cases w.suspended[i]? with
      | none => exact h
      | some batch =>
          cases accept with
          | false => exact ⟨h.threads, h.hashes, h.lastHash, h.refs⟩
          | true => exact ⟨trivial, fun _ hx => absurd hx List.not_mem_nil, rfl, h.refs⟩

theorem Sound.outbox_step {w : Lite} (h : Sound sha256Hex w) (event : Event) :
    (w.step sha256Hex event).outbox =
      (w.move sha256Hex event).elim w.outbox w.outbox.step := by
  cases event with
  | append a =>
      rw [Lite.step, move]
      rcases w.chain.append_cases sha256Hex w.appended.length a with
        ⟨-, e, herror⟩ | ⟨-, e, hok, -⟩
      · rw [herror]
        rfl
      · rw [hok]
        rfl
  | replay =>
      rw [h.step_replay, move]
      split
      · rfl
      · rfl
  | answer i accept =>
      have hbatches : w.outbox.inFlight = w.suspended := rfl
      rw [Lite.step, move, Option.elim_some, Outbox.step, hbatches]
      cases w.suspended[i]? with
      | none => rfl
      | some batch =>
          cases accept with
          | false => rfl
          | true => rfl

theorem Sound.new {w : Lite} (h : Sound sha256Hex w) (event : Event) :
    ∀ m ∈ w.move sha256Hex event, w.outbox.New m := by
  intro m hm
  cases event with
  | append a =>
      rw [move] at hm
      rcases w.chain.append_cases sha256Hex w.appended.length a with
        ⟨-, e, herror⟩ | ⟨-, e, hok, href, -⟩
      · rw [herror] at hm
        cases hm
      · rw [hok] at hm
        cases hm
        intro hmem
        exact absurd (h.refs e hmem) (by rw [href]; exact Nat.lt_irrefl _)
  | replay =>
      rw [move] at hm
      split at hm
      · cases hm
      · cases hm
        trivial
  | answer i accept =>
      cases hm
      trivial

/-- Every entry that `append` returned is buffered or in an accepted batch, and none is in two
accepted batches. -/
def Kept (w : Lite) : Prop :=
  (∀ e ∈ w.appended, e ∈ w.chain.entries ∨ ∃ batch ∈ w.accepted, e ∈ batch) ∧
    w.accepted.Pairwise List.Disjoint

/-- Buffering loses nothing and submits nothing twice, in any interleaving, exactly if the buffer
still is the batch whenever one is accepted. -/
theorem kept_iff (sha256Hex : String → String) (workerDid : String) (capacity : Int)
    (events : List Event) :
    (∀ before, before <+: events →
        Kept (run (step sha256Hex) (start workerDid capacity) before)) ↔
      ∀ before i after, events = before ++ .answer i true :: after → ∀ batch,
        (run (step sha256Hex) (start workerDid capacity) before).suspended[i]? = some batch →
        (run (step sha256Hex) (start workerDid capacity) before).chain.entries = batch := by
  have hiff := Outbox.kept_iff_exact (fun w event h => Sound.step h event)
    (fun w event h => Sound.outbox_step h event) (fun w event h => Sound.new h event)
    (@sound_start sha256Hex workerDid capacity) rfl events
  refine hiff.trans ⟨?_, ?_⟩
  · intro hexact before i after hsplit
    exact hexact before (.answer i true) after hsplit _ rfl
  · intro hexact before event after hsplit m hm
    cases event with
    | append a =>
        rw [move] at hm
        split at hm
        · cases hm
        · cases hm
          trivial
    | replay =>
        rw [move] at hm
        split at hm
        · cases hm
        · cases hm
          trivial
    | answer i accept =>
        cases hm
        cases accept with
        | false => trivial
        | true => exact hexact before i after hsplit

/-- An append with nothing but an entry id of its own. -/
def plainAppend (entryId : String) : Appended :=
  ⟨entryId, "task-1", none, "did:wcp:z", .obj [], "sig", some "2026-01-01T00:00:00", ⟨0, none⟩⟩

/-- An entry is appended while a batch awaits its answer, and is cleared with it. -/
theorem append_during_replay_lost :
    ¬ Kept (run (step Coordinator.localEnv.sha256Hex) (start "did:wcp:z" 10)
      [.append (plainAppend "e1"), .replay, .append (plainAppend "e2"), .answer 0 true]) := by
  have hrun : (fun w : Lite => w.appended.map (·.ref) = [0, 1] ∧ w.chain.entries = [] ∧
        w.accepted.map (·.map (·.ref)) = [[0]])
      (run (step Coordinator.localEnv.sha256Hex) (start "did:wcp:z" 10)
        [.append (plainAppend "e1"), .replay, .append (plainAppend "e2"), .answer 0 true]) := by
    decide +kernel
  obtain ⟨happended, hentries, haccepted⟩ := hrun
  rintro ⟨hcover, -⟩
  obtain ⟨e, he, href⟩ := List.mem_map.1 (happended ▸ (by decide : 1 ∈ [0, 1]))
  rcases hcover e he with hbuffer | ⟨batch, hbatch, hmem⟩
  · rw [hentries] at hbuffer
    cases hbuffer
  · have hrefs : batch.map (·.ref) ∈ [[0]] := haccepted ▸ List.mem_map_of_mem hbatch
    have hone : 1 ∈ batch.map (·.ref) := href ▸ List.mem_map_of_mem hmem
    rw [List.mem_singleton.1 hrefs] at hone
    exact absurd hone (by decide)

/-! ## One chain -/

variable (sha256Hex) in
/-- Between calls that do not overlap no replay awaits its answer, and every batch accepted so far
is a chain of its own. -/
structure Settled (w : Lite) : Prop where
  sound : Sound sha256Hex w
  suspended : w.suspended = []
  batches : ∀ batch ∈ w.accepted, batch ≠ [] ∧
    Threads AuditEntry.previousEntryHash AuditEntry.entryHash none batch

/-- Something was appended after the first accepted batch. -/
def Resumed (w : Lite) : Prop :=
  ∃ batch later, w.accepted = batch :: later ∧ later.flatten ++ w.chain.entries ≠ []

/-- A call appends an entry after a batch was accepted. -/
def Resumes (w : Lite) : Turn → Prop
  | .append _ => w.accepted ≠ [] ∧ w.chain.isFull = false
  | .replay _ => False

theorem settled_start (workerDid : String) (capacity : Int) :
    Settled sha256Hex (start workerDid capacity) where
  sound := sound_start workerDid capacity
  suspended := rfl
  batches := fun _ h => absurd h List.not_mem_nil

variable {w : Lite}

theorem Settled.turn_append (a : Appended) :
    (w.chain.isFull = true ∧ w.turn sha256Hex (.append a) = w) ∨
    w.chain.isFull = false ∧ ∃ e, w.turn sha256Hex (.append a) =
      { w with
        chain := { w.chain with entries := w.chain.entries ++ [e], lastHash := some e.entryHash }
        appended := w.appended ++ [e] } := by
  rw [turn, Lite.step]
  rcases w.chain.append_cases sha256Hex w.appended.length a with
    ⟨hfull, e, herror⟩ | ⟨hroom, e, hok, -⟩
  · exact .inl ⟨hfull, by rw [herror]⟩
  · exact .inr ⟨hroom, e, by rw [hok]⟩

theorem Settled.turn_replay (h : Settled sha256Hex w) (accept : Bool) :
    w.turn sha256Hex (.replay accept) =
      if w.chain.entries = [] ∨ accept = false then w
      else { w with chain := w.chain.clear, accepted := w.accepted ++ [w.chain.entries] } := by
  have hreplay := h.sound.step_replay
  obtain ⟨chain, suspended, appended, accepted⟩ := w
  obtain rfl : suspended = [] := h.suspended
  rw [Lite.turn, hreplay]
  by_cases hempty : chain.entries = []
  · rw [if_pos hempty, if_pos (.inl hempty)]
    rfl
  · rw [if_neg hempty]
    cases accept with
    | false =>
        rw [if_pos (.inr rfl)]
        rfl
    | true =>
        rw [if_neg (by simp [hempty])]
        rfl

theorem Settled.turn (h : Settled sha256Hex w) (t : Turn) :
    Settled sha256Hex (w.turn sha256Hex t) := by
  cases t with
  | append a =>
      have hsound : Sound sha256Hex (w.turn sha256Hex (.append a)) := h.sound.step (.append a)
      rcases @Settled.turn_append sha256Hex w a with
        ⟨-, hsame⟩ | ⟨-, e, hadded⟩
      · rwa [hsame]
      · rw [hadded] at hsound ⊢
        exact ⟨hsound, h.suspended, h.batches⟩
  | replay accept =>
      have hsound : Sound sha256Hex (w.turn sha256Hex (.replay accept)) :=
        (h.sound.step .replay).step (.answer 0 accept)
      rw [h.turn_replay] at hsound ⊢
      split at hsound
      next hsame =>
        rwa [if_pos hsame]
      next hcleared =>
        rw [if_neg hcleared]
        refine ⟨hsound, h.suspended, fun batch hbatch => ?_⟩
        rcases List.mem_append.1 hbatch with hbatch | hbatch
        · exact h.batches batch hbatch
        · rw [List.mem_singleton.1 hbatch]
          exact ⟨fun hempty => hcleared (.inl hempty), h.sound.threads⟩

theorem Settled.resumed_turn (h : Settled sha256Hex w) (t : Turn) :
    Resumed (w.turn sha256Hex t) ↔ Resumed w ∨ Resumes w t := by
  cases t with
  | append a =>
      rcases @Settled.turn_append sha256Hex w a with
        ⟨hfull, hsame⟩ | ⟨hroom, e, hadded⟩
      · simp [hsame, Resumes, hfull]
      · rw [hadded, Resumed, Resumed, Resumes]
        cases haccepted : w.accepted with
        | nil => simp
        | cons batch later => simp [hroom]
  | replay accept =>
      rw [h.turn_replay, Resumes, or_false]
      split
      next => exact Iff.rfl
      next hcleared =>
        rw [Resumed, Resumed]
        cases haccepted : w.accepted with
        | nil => simp [BufferedAuditChain.clear]
        | cons batch later => simp [BufferedAuditChain.clear, imp_iff_not_or]

theorem head_flatten {batches : List (List AuditEntry)}
    (h : ∀ batch ∈ batches,
      Threads AuditEntry.previousEntryHash AuditEntry.entryHash none batch) {e : AuditEntry}
    (he : batches.flatten.head? = some e) : e.previousEntryHash = none := by
  rw [List.head?_flatten] at he
  obtain ⟨batch, hbatch, hhead⟩ := List.exists_of_findSome?_eq_some he
  cases batch with
  | nil => cases hhead
  | cons x xs =>
      cases hhead
      exact (h _ hbatch).1

theorem Settled.linked_iff_not_resumed (h : Settled sha256Hex w) : Linked w ↔ ¬ Resumed w := by
  cases haccepted : w.accepted with
  | nil => simpa [Linked, Resumed, haccepted] using h.sound.threads
  | cons batch later =>
      have hbatches := h.batches
      rw [haccepted, List.forall_mem_cons] at hbatches
      obtain ⟨⟨hbatch, hchain⟩, hlater⟩ := hbatches
      have hresumed : Resumed w ↔ later.flatten ++ w.chain.entries ≠ [] := by
        simp [Resumed, haccepted]
      rw [Linked, haccepted, List.flatten_cons, List.append_assoc, threads_append, hresumed,
        not_not]
      cases hrest : later.flatten ++ w.chain.entries with
      | nil => simp [hchain, Threads]
      | cons e es =>
          have hall : ∀ b ∈ later ++ [w.chain.entries],
              Threads AuditEntry.previousEntryHash AuditEntry.entryHash none b := by
            intro b hb
            rcases List.mem_append.1 hb with hb | hb
            · exact (hlater b hb).2
            · exact List.mem_singleton.1 hb ▸ h.sound.threads
          have hnone : e.previousEntryHash = none := head_flatten hall (by simp [hrest])
          have htip : tip AuditEntry.entryHash none batch ≠ none := by
            simp [tip, hbatch]
          simp only [reduceCtorEq, iff_false, not_and]
          exact fun _ hlinked => htip (hlinked.1.symm.trans hnone)

/-- Over any number of replays the batches and the buffer are one chain exactly if nothing is
appended after a batch was accepted. -/
theorem linked_iff (sha256Hex : String → String) (workerDid : String) (capacity : Int)
    (turns : List Turn) :
    Linked (run (turn sha256Hex) (start workerDid capacity) turns) ↔
      ∀ before a after, turns = before ++ .append a :: after →
        (run (turn sha256Hex) (start workerDid capacity) before).accepted = [] ∨
        (run (turn sha256Hex) (start workerDid capacity) before).chain.isFull = true := by
  have hsettled : Settled sha256Hex (run (turn sha256Hex) (start workerDid capacity) turns) :=
    @run_invariant _ _ _ (Settled sha256Hex) (fun _ => True) (fun w t h _ => Settled.turn h t) _ _
      (settled_start workerDid capacity) fun _ _ => trivial
  have hresumed := run_becomes_iff (fun w t h => Settled.turn h t)
    (fun w t h => Settled.resumed_turn h t)
    (@settled_start sha256Hex workerDid capacity) turns
  have hstart : ¬ Resumed (start workerDid capacity) := by simp [Resumed, start]
  rw [hsettled.linked_iff_not_resumed, hresumed, or_iff_right hstart]
  constructor
  · intro hnone before a after hsplit
    by_contra hbreaks
    rw [not_or, Bool.not_eq_true] at hbreaks
    exact hnone ⟨before, .append a, after, hsplit, hbreaks⟩
  · rintro hall ⟨before, t, after, hsplit, hbreaks⟩
    cases t with
    | append a =>
        rcases hall before a after hsplit with hempty | hfull
        · exact hbreaks.1 hempty
        · exact Bool.false_ne_true (hbreaks.2.symm.trans hfull)
    | replay accept => exact hbreaks

theorem not_linked_of_prev
    (h : (w.accepted.flatten ++ w.chain.entries).map (·.previousEntryHash) = [none, none]) :
    ¬ Linked w := by
  intro hlinked
  have hprev := hlinked.map_prev
  have hlength := congrArg List.length h
  rw [List.length_map] at hlength
  rw [h, hlength] at hprev
  cases hentries : w.accepted.flatten ++ w.chain.entries with
  | nil => simp [hentries] at hlength
  | cons e es => simp [hentries] at hprev

/-- The entry after an accepted batch names no entry before it. -/
theorem second_batch_unlinked :
    ¬ Linked (run (turn Coordinator.localEnv.sha256Hex) (start "did:wcp:z" 10)
      [.append (plainAppend "e1"), .replay true, .append (plainAppend "e2")]) :=
  not_linked_of_prev (by decide +kernel)

end Lite

end Wcp.Sdk
