import Wcp.Sdk.WcpLite
/-!
# The offline chain

The walker of a buffered chain accepts a buffer exactly if appending its entries to a fresh
chain writes the same hashes and links again.  Between calls that do not overlap the buffer
always verifies and fits, and with the accepted batches it lists what was appended
(`offline_chain_exact`).
-/

namespace Wcp.Sdk

open Wcp.Base

/-- Every field but the signature. -/
def AuditEntry.unsigned (e : AuditEntry) : AuditEntry := { e with ref := 0, signature := "" }

namespace BufferedAuditChain

variable (sha256Hex : String → String)

/-- Appends in order, the objects numbered from `ref`. -/
def appendAll (chain : BufferedAuditChain) (ref : Nat) :
    List Appended → Except BufferOverflowError BufferedAuditChain
  | [] => .ok chain
  | a :: as =>
      match chain.append sha256Hex ref a with
      | .error e => .error e
      | .ok (_, chain) => appendAll chain (ref + 1) as

/-- An entry's own contents, to be appended again under some signature. -/
def ownContents (sign : AuditEntry → String) (now : DateTime) (e : AuditEntry) : Appended where
  entryId := e.entryId
  taskId := e.taskId
  claimId := e.claimId
  signerDid := e.signerDid
  payload := e.payload
  signature := sign e
  timestamp := some e.timestamp
  now := now

/-- The entry that a chain with this last hash makes of the contents of another. -/
def relinked (lastHash : Option String) (e : AuditEntry) : AuditEntry :=
  let linked := { e with previousEntryHash := lastHash }
  { linked with entryHash := expectedHash sha256Hex linked }

/-- A chain that adds an entry. -/
def added (chain : BufferedAuditChain) (e : AuditEntry) : BufferedAuditChain :=
  { chain with entries := chain.entries ++ [e], lastHash := some e.entryHash }

variable {sha256Hex} {chain : BufferedAuditChain} {sign : AuditEntry → String} {now : DateTime}
  {e : AuditEntry} {es : List AuditEntry}

theorem append_full (sha256Hex : String → String) (hfull : chain.isFull = true) (ref : Nat)
    (a : Appended) : chain.append sha256Hex ref a =
      .error ⟨chain.capacity, chain.entries.length + 1⟩ := by
  rw [append, if_pos hfull]

theorem append_ownContents (hroom : chain.isFull = false) (htimestamp : e.timestamp ≠ "")
    (ref : Nat) : ∃ new, chain.append sha256Hex ref (ownContents sign now e) =
        .ok (new, chain.added new) ∧
      new.unsigned = (relinked sha256Hex chain.lastHash e).unsigned := by
  refine ⟨{ relinked sha256Hex chain.lastHash e with ref := ref, signature := sign e }, ?_, rfl⟩
  rw [append, if_neg (by simp [hroom])]
  simp only [ownContents, if_neg htimestamp]
  rfl

theorem entryHash_of_unsigned {e e' : AuditEntry} (h : e.unsigned = e'.unsigned) :
    e.entryHash = e'.entryHash := by
  have hfield := congrArg AuditEntry.entryHash h
  exact hfield

/-- An entry is its own relinking exactly if it passes the walker's two tests. -/
theorem unsigned_relinked_iff {lastHash : Option String} :
    e.unsigned = (relinked sha256Hex lastHash e).unsigned ↔
      e.entryHash = expectedHash sha256Hex e ∧ e.previousEntryHash = lastHash := by
  constructor
  · intro h
    have hprev := congrArg AuditEntry.previousEntryHash h
    have hhash := entryHash_of_unsigned h
    replace hprev : e.previousEntryHash = lastHash := hprev
    subst hprev
    exact ⟨hhash, rfl⟩
  · rintro ⟨hhash, rfl⟩
    unfold AuditEntry.unsigned relinked
    dsimp only
    rw [hhash]
    rfl

theorem verifyFrom_cons_iff {lastHash : Option String} :
    verifyFrom sha256Hex lastHash (e :: es) = true ↔
      (e.entryHash = expectedHash sha256Hex e ∧ e.previousEntryHash = lastHash) ∧
        verifyFrom sha256Hex (some e.entryHash) es = true := by
  rw [verifyFrom]
  by_cases hhash : e.entryHash = expectedHash sha256Hex e
  · by_cases hprev : e.previousEntryHash = lastHash
    · rw [if_neg (not_not.2 hhash), if_neg (not_not.2 hprev)]
      simp [hhash, hprev]
    · simp [hprev]
  · simp [hhash]

theorem verifyFrom_iff_appendAll (sha256Hex : String → String) (sign : AuditEntry → String)
    (now : DateTime) (hroom : (chain.entries.length + es.length : Int) ≤ chain.capacity)
    (htimestamps : ∀ e ∈ es, e.timestamp ≠ "") (ref : Nat) :
    ∃ fresh new, chain.appendAll sha256Hex ref (es.map (ownContents sign now)) = .ok fresh ∧
      fresh.entries = chain.entries ++ new ∧
      (verifyFrom sha256Hex chain.lastHash es = true ↔
        es.map AuditEntry.unsigned = new.map AuditEntry.unsigned) := by
  induction es generalizing chain ref with
  | nil => exact ⟨chain, [], rfl, (List.append_nil _).symm, by simp [verifyFrom]⟩
  | cons e es ih =>
      rw [List.length_cons] at hroom
      have hfree : chain.isFull = false := by
        rw [isFull, decide_eq_false_iff_not]
        omega
      obtain ⟨first, hfirst, hsame⟩ := @append_ownContents sha256Hex chain sign now e hfree
        (htimestamps e List.mem_cons_self) ref
      have hrest : ((chain.added first).entries.length + es.length : Int) ≤
          (chain.added first).capacity := by
        rw [added, List.length_append, List.length_singleton]
        push_cast at hroom ⊢
        omega
      obtain ⟨fresh, new, happend, hentries, hiff⟩ :=
        ih hrest (fun x hx => htimestamps x (List.mem_cons_of_mem e hx)) (ref + 1)
      refine ⟨fresh, first :: new, ?_, ?_, ?_⟩
      · rw [List.map_cons, appendAll, hfirst]
        exact happend
      · rw [hentries, added, List.append_assoc, List.singleton_append]
      · rw [List.map_cons, List.map_cons, List.cons.injEq, ← hiff, verifyFrom_cons_iff]
        have hmatch : e.unsigned = first.unsigned ↔
            e.entryHash = expectedHash sha256Hex e ∧ e.previousEntryHash = chain.lastHash := by
          rw [hsame, unsigned_relinked_iff]
        rw [← hmatch]
        refine and_congr_right fun heq => ?_
        rw [added, entryHash_of_unsigned heq]

end BufferedAuditChain

/-! ## Calls that do not overlap -/

namespace Lite

variable {sha256Hex : String → String} {w : Lite}

variable (sha256Hex) in
/-- What every sequence of calls keeps. -/
structure Exact (capacity : Int) (w : Lite) : Prop where
  settled : Settled sha256Hex w
  bound : w.chain.capacity = capacity
  fits : (w.chain.entries.length : Int) ≤ capacity
  listed : w.accepted.flatten ++ w.chain.entries = w.appended

theorem exact_start {capacity : Int} (hcapacity : 0 ≤ capacity) (workerDid : String) :
    Exact sha256Hex capacity (start workerDid capacity) where
  settled := settled_start workerDid capacity
  bound := rfl
  fits := hcapacity
  listed := rfl

theorem Exact.turn {capacity : Int} (h : Exact sha256Hex capacity w) (t : Turn) :
    Exact sha256Hex capacity (w.turn sha256Hex t) := by
  have hsettled := h.settled.turn t
  cases t with
  | append a =>
      rcases @Settled.turn_append sha256Hex w a with ⟨-, hsame⟩ | ⟨hroom, e, hadded⟩
      · rw [hsame]
        exact h
      · rw [hadded] at hsettled ⊢
        refine ⟨hsettled, h.bound, ?_, ?_⟩
        · have hfree : ¬ w.chain.capacity ≤ w.chain.entries.length := by
            rwa [BufferedAuditChain.isFull, decide_eq_false_iff_not] at hroom
          have hcapacity := h.bound
          show ((w.chain.entries ++ [e]).length : Int) ≤ capacity
          rw [List.length_append, List.length_singleton]
          push_cast
          omega
        · show w.accepted.flatten ++ (w.chain.entries ++ [e]) = w.appended ++ [e]
          rw [← List.append_assoc, h.listed]
  | replay accept =>
      rw [h.settled.turn_replay] at hsettled ⊢
      split at hsettled
      next hsame =>
        rw [if_pos hsame]
        exact h
      next hcleared =>
        rw [if_neg hcleared]
        refine ⟨hsettled, h.bound, ?_, ?_⟩
        · have hfits := h.fits
          show ((0 : Nat) : Int) ≤ capacity
          omega
        · show (w.accepted ++ [w.chain.entries]).flatten ++ [] = w.appended
          rw [List.flatten_append, List.flatten_singleton, List.append_nil]
          exact h.listed

/-- The walk accepts exactly what appending the entries to a fresh chain writes.  Over any calls
that do not overlap, the buffer verifies and fits, and with the accepted batches it lists every
appended entry in order; an append to a full buffer raises and changes nothing, and neither does
a refused replay, nor a replay while it waits. -/
theorem offline_chain_exact (sha256Hex : String → String) :
    (∀ (chain : BufferedAuditChain) (sign : AuditEntry → String) (now : DateTime)
      (workerDid : String) (capacity : Int), (∀ e ∈ chain.entries, e.timestamp ≠ "") →
      chain.entries.length ≤ capacity →
      ∃ fresh, (BufferedAuditChain.init workerDid capacity).appendAll sha256Hex 0
          (chain.entries.map (BufferedAuditChain.ownContents sign now)) = .ok fresh ∧
        (chain.verifyChainIntegrity sha256Hex = true ↔
          chain.entries.map AuditEntry.unsigned = fresh.entries.map AuditEntry.unsigned)) ∧
    (∀ (workerDid : String) (capacity : Int) (turns : List Turn), 0 ≤ capacity →
      let w := run (turn sha256Hex) (start workerDid capacity) turns
      w.chain.verifyChainIntegrity sha256Hex = true ∧
      w.chain.entries.length ≤ capacity ∧
      w.accepted.flatten ++ w.chain.entries = w.appended ∧
      (∀ ref a, w.chain.entries.length = capacity →
        w.chain.append sha256Hex ref a = .error ⟨capacity, w.chain.entries.length + 1⟩ ∧
          w.turn sha256Hex (.append a) = w) ∧
      (∀ ref a, w.chain.entries.length < capacity →
        ∃ e chain, w.chain.append sha256Hex ref a = .ok (e, chain)) ∧
      (w.step sha256Hex .replay).chain = w.chain ∧
      w.turn sha256Hex (.replay false) = w) := by
  constructor
  · intro chain sign now workerDid capacity htimestamps hlength
    have hroom : (((BufferedAuditChain.init workerDid capacity).entries.length +
        chain.entries.length : Int)) ≤ (BufferedAuditChain.init workerDid capacity).capacity := by
      simpa [BufferedAuditChain.init] using hlength
    obtain ⟨fresh, new, happend, hentries, hiff⟩ :=
      BufferedAuditChain.verifyFrom_iff_appendAll sha256Hex sign now hroom htimestamps 0
    refine ⟨fresh, happend, ?_⟩
    rw [hentries]
    exact hiff
  · intro workerDid capacity turns hcapacity
    have hexact : Exact sha256Hex capacity
        (run (turn sha256Hex) (start workerDid capacity) turns) :=
      @run_invariant _ _ _ (Exact sha256Hex capacity) (fun _ => True) (fun _ t h _ => h.turn t) _ _
        (exact_start hcapacity workerDid) fun _ _ => trivial
    intro w
    have hsound := hexact.settled.sound
    refine ⟨?_, hexact.fits, hexact.listed, ?_, ?_, ?_, ?_⟩
    · exact (BufferedAuditChain.verifyFrom_iff _).2 ⟨hsound.threads, hsound.hashes⟩
    · intro ref a hlength
      have hfull : w.chain.isFull = true := by
        rw [BufferedAuditChain.isFull, decide_eq_true_eq, hexact.bound]
        exact hlength.ge
      have herror := fun ref => BufferedAuditChain.append_full sha256Hex hfull ref a
      rw [hexact.bound] at herror
      refine ⟨herror ref, ?_⟩
      rw [Lite.turn, Lite.step, herror]
    · intro ref a hlength
      rcases w.chain.append_cases sha256Hex ref a with ⟨hfull, -⟩ | ⟨-, e, hok, -⟩
      · rw [BufferedAuditChain.isFull, decide_eq_true_eq, hexact.bound] at hfull
        exact absurd hlength (not_lt.2 hfull)
      · exact ⟨e, _, hok⟩
    · rw [hsound.step_replay]
      split
      · rfl
      · rfl
    · rw [hexact.settled.turn_replay]
      exact if_pos (.inr rfl)

/-- The buffer of a worker that has appended two entries. -/
def pairChain : BufferedAuditChain :=
  (run (turn Coordinator.localEnv.sha256Hex) (start "did:wcp:z" 2)
    [.append (plainAppend "e1"), .append (plainAppend "e2")]).chain

/-- The two entries are what appends to a fresh chain write, and the other way round they are
not. -/
theorem offline_chain_exact_pair :
    (∃ fresh, (BufferedAuditChain.init "did:wcp:z" 2).appendAll Coordinator.localEnv.sha256Hex 0
        (pairChain.entries.map
          (BufferedAuditChain.ownContents (fun _ => "") ⟨0, none⟩)) = .ok fresh ∧
      pairChain.entries.map AuditEntry.unsigned = fresh.entries.map AuditEntry.unsigned) ∧
    (∃ fresh, (BufferedAuditChain.init "did:wcp:z" 2).appendAll Coordinator.localEnv.sha256Hex 0
        (pairChain.entries.reverse.map
          (BufferedAuditChain.ownContents (fun _ => "") ⟨0, none⟩)) = .ok fresh ∧
      pairChain.entries.reverse.map AuditEntry.unsigned ≠
        fresh.entries.map AuditEntry.unsigned) ∧
    pairChain.verifyChainIntegrity Coordinator.localEnv.sha256Hex = true := by
  have hexact := offline_chain_exact Coordinator.localEnv.sha256Hex
  have hverifies : pairChain.verifyChainIntegrity Coordinator.localEnv.sha256Hex = true :=
    (hexact.2 "did:wcp:z" 2 _ (by decide)).1
  have hreverse : BufferedAuditChain.verifyChainIntegrity Coordinator.localEnv.sha256Hex
      { pairChain with entries := pairChain.entries.reverse } ≠ true := by decide +kernel
  have htimestamps : ∀ e ∈ pairChain.entries, e.timestamp ≠ "" := by decide +kernel
  have hlength : (pairChain.entries.length : Int) ≤ 2 := by decide +kernel
  obtain ⟨fresh, hfresh, hiff⟩ :=
    hexact.1 pairChain (fun _ => "") ⟨0, none⟩ "did:wcp:z" 2 htimestamps hlength
  obtain ⟨fresh', hfresh', hiff'⟩ :=
    hexact.1 { pairChain with entries := pairChain.entries.reverse } (fun _ => "") ⟨0, none⟩
      "did:wcp:z" 2 (fun e he => htimestamps e (List.mem_reverse.1 he))
      (by rw [List.length_reverse]; exact hlength)
  exact ⟨⟨fresh, hfresh, hiff.1 hverifies⟩,
    ⟨fresh', hfresh', fun hsame => hreverse (hiff'.2 hsame)⟩,
    hverifies⟩

end Lite

end Wcp.Sdk
