import Wcp.Base.Correlator
import Wcp.Base.Json
import Wcp.Base.Runs
/-!
# The RPC client of the Go SDK

`Call` runs in any number of goroutines beside the one that reads the connection.
Every access to what they share is a step of its own: the atomic counter, the map
of pending calls, the mutex around the connection, a call's channel.  What the
network, the contexts and the scheduler do is in the list of steps.

A call is answered with a reply that bears its id and that nobody else gets, and the
reader never waits on a channel (`calls_matched`).  A call that waits can still
return while its context lives exactly if a reply is on its way to it or may still
be read (`waiting_returns_iff`): once the reader has ended, nothing else ends a call.
-/

namespace Wcp.Sdk.Go

open Wcp.Base

/-! ## Messages -/

/-- `RPCError`; an absent `data` is empty. -/
structure RPCError where
  code : Int
  message : String
  data : String
deriving DecidableEq

/-- `rpcReply`, as `json.Unmarshal` fills it in. -/
structure RpcReply where
  id : UInt64
  result : String
  error : Option RPCError
deriving DecidableEq

structure RpcResponse where
  result : String
  err : Option RPCError
deriving DecidableEq

structure RpcEnvelope where
  jsonrpc : String
  id : UInt64
  method : String
  params : Json
deriving DecidableEq

/-- What `Call` returns. -/
inductive Outcome where
  | result (raw : String)
  | rpcError (e : RPCError)
  | ctxErr
  | writeErr
deriving DecidableEq

def RpcReply.response (reply : RpcReply) : RpcResponse := ⟨reply.result, reply.error⟩

/-- The last lines of `Call`. -/
def RpcResponse.outcome (resp : RpcResponse) : Outcome :=
  match resp.err with
  | some e => .rpcError e
  | none => .result resp.result

/-! ## Goroutines -/

/-- How far a `Call` has come. -/
inductive CallPhase where
  | idle
  | numbered (envelope : RpcEnvelope)
  | stored (envelope : RpcEnvelope)
  /-- It holds the mutex and is about to write. -/
  | writing (envelope : RpcEnvelope)
  | written (id : UInt64) (failed : Bool)
  /-- In the `select`. -/
  | waiting (id : UInt64)
  /-- Only the deferred `Delete` is left. -/
  | leaving (id : UInt64) (o : Outcome)
  | returned (o : Outcome)
deriving DecidableEq

/-- How far `readLoop` has come. -/
inductive ReaderPhase where
  | checking
  | reading
  /-- It has taken a call out of the map and sends on its channel. -/
  | sending (call : Nat) (resp : RpcResponse)
  | ended
deriving DecidableEq

def CallPhase.outcome : CallPhase → Option Outcome
  | leaving _ o | returned o => some o
  | _ => none

/-- `RPCClient` and its goroutines; the calls are numbered by the program. -/
structure RPCClient where
  nextID : UInt64
  pending : Correlator UInt64 Nat RpcReply
  mu : Option Nat
  closed : Bool
  reader : ReaderPhase
  phase : Nat → CallPhase
  channel : Nat → List RpcResponse
  sent : List RpcEnvelope

/-- What happens next. -/
inductive Step where
  | call (i : Nat) (method : String) (params : Json)
  | store (i : Nat)
  | lock (i : Nat)
  | write (i : Nat) (ok : Bool)
  | unlock (i : Nat)
  /-- The `select` takes `ctx.Done()`. -/
  | done (i : Nat)
  /-- The `select` takes the call's channel. -/
  | receive (i : Nat)
  | delete (i : Nat)
  | check
  /-- A message was read; `none` where `json.Unmarshal` fails. -/
  | message (m : Option RpcReply)
  | readError
  | send
  | close
deriving DecidableEq

namespace RPCClient

/-- The client that `Dial` returns. -/
def dial : RPCClient where
  nextID := 0
  pending := Correlator.empty
  mu := none
  closed := false
  reader := .checking
  phase _ := .idle
  channel _ := []
  sent := []

def setPhase (c : RPCClient) (i : Nat) (p : CallPhase) : RPCClient :=
  { c with phase := Function.update c.phase i p }

def setChannel (c : RPCClient) (i : Nat) (q : List RpcResponse) : RPCClient :=
  { c with channel := Function.update c.channel i q }

/-- What `readLoop` does with a message. -/
def handle (c : RPCClient) : Option RpcReply → RPCClient
  | none => { c with reader := .checking }
  | some reply =>
      { c with
        pending := c.pending.receive RpcReply.id reply
        reader := match c.pending.pending reply.id with
          | some i => .sending i reply.response
          | none => .checking }

/-- One step; a step that is not due changes nothing. -/
def step (c : RPCClient) : Step → RPCClient
  | .call i method params =>
      match c.phase i with
      | .idle =>
          { c with nextID := c.nextID + 1 }.setPhase i
            (.numbered ⟨"2.0", c.nextID + 1, method, params⟩)
      | _ => c
  | .store i =>
      match c.phase i with
      | .numbered envelope =>
          { c with pending := c.pending.register i envelope.id }.setPhase i (.stored envelope)
      | _ => c
  | .lock i =>
      match c.phase i, c.mu with
      | .stored envelope, none => { c with mu := some i }.setPhase i (.writing envelope)
      | _, _ => c
  | .write i ok =>
      match c.phase i with
      | .writing envelope =>
          { c with sent := if ok then c.sent ++ [envelope] else c.sent }.setPhase i
            (.written envelope.id (!ok))
      | _ => c
  | .unlock i =>
      match c.phase i with
      | .written id failed =>
          { c with mu := none }.setPhase i (if failed then .leaving id .writeErr else .waiting id)
      | _ => c
  | .done i =>
      match c.phase i with
      | .waiting id => c.setPhase i (.leaving id .ctxErr)
      | _ => c
  | .receive i =>
      match c.phase i, c.channel i with
      | .waiting id, resp :: rest => (c.setChannel i rest).setPhase i (.leaving id resp.outcome)
      | _, _ => c
  | .delete i =>
      match c.phase i with
      | .leaving id o => { c with pending := c.pending.forget id }.setPhase i (.returned o)
      | _ => c
  | .check =>
      match c.reader with
      | .checking => { c with reader := if c.closed then .ended else .reading }
      | _ => c
  | .message m =>
      match c.reader with
      | .reading => c.handle m
      | _ => c
  | .readError =>
      match c.reader with
      | .reading => { c with reader := .ended }
      | _ => c
  -- the channel has room for one response
  | .send =>
      match c.reader with
      | .sending i resp =>
          if c.channel i = [] then { c with reader := .checking }.setChannel i [resp] else c
      | _ => c
  | .close => { c with closed := true }

/-- The client after some steps. -/
def after (steps : List Step) : RPCClient := run step dial steps

/-- What a call returns, once it is decided. -/
def outcome (c : RPCClient) (i : Nat) : Option Outcome := (c.phase i).outcome

end RPCClient

/-! ## What every step keeps -/

namespace CallPhase

/-- The call has not stored its channel. -/
def fresh : CallPhase → Bool
  | idle | numbered _ => true
  | _ => false

/-- The id under which the call has stored its channel and not yet deleted it. -/
def id : CallPhase → Option UInt64
  | stored envelope | writing envelope => some envelope.id
  | written id _ | waiting id | leaving id _ => some id
  | _ => none

/-- The call holds the mutex. -/
def locks : CallPhase → Bool
  | writing _ | written _ _ => true
  | _ => false

end CallPhase

namespace RPCClient

variable {c c' : RPCClient} {i : Nat} {p : CallPhase}

/-- What a step does. -/
inductive Effect (c : RPCClient) : Step → RPCClient → Prop
  | kept {s : Step} : Effect c s c
  /-- A call goes on, in a way that the map, the channels and the reader do not notice. -/
  | goes {s : Step} {c' : RPCClient} (i : Nat) (p : CallPhase)
      (hphase : c'.phase = Function.update c.phase i p) (hpending : c'.pending = c.pending)
      (hchannel : c'.channel = c.channel) (hreader : c'.reader = c.reader)
      (hclosed : c'.closed = c.closed) (hfresh : p.fresh = (c.phase i).fresh)
      (hid : p.id = (c.phase i).id)
      (houtcome : ∀ o, p.outcome = some o → o = .ctxErr ∨ o = .writeErr)
      (hwaiting : ∀ id, c.phase i = .waiting id → s = .done i)
      (hmu : (c'.mu = c.mu ∧ p.locks = (c.phase i).locks) ∨ (c.mu = none ∧ c'.mu = some i) ∨
        ((c.phase i).locks = true ∧ p.locks = false)) :
      Effect c s c'
  | stored (i : Nat) (envelope : RpcEnvelope) (hi : c.phase i = .numbered envelope) :
      Effect c (.store i)
        ({ c with pending := c.pending.register i envelope.id }.setPhase i (.stored envelope))
  | received (i : Nat) (id : UInt64) (resp : RpcResponse) (rest : List RpcResponse)
      (hi : c.phase i = .waiting id) (hchannel : c.channel i = resp :: rest) :
      Effect c (.receive i) ((c.setChannel i rest).setPhase i (.leaving id resp.outcome))
  | deleted (i : Nat) (id : UInt64) (o : Outcome) (hi : c.phase i = .leaving id o) :
      Effect c (.delete i) ({ c with pending := c.pending.forget id }.setPhase i (.returned o))
  | checked (hreader : c.reader = .checking) :
      Effect c .check { c with reader := if c.closed then .ended else .reading }
  | handled (m : Option RpcReply) (hreader : c.reader = .reading) :
      Effect c (.message m) (c.handle m)
  | failed (hreader : c.reader = .reading) : Effect c .readError { c with reader := .ended }
  | sent (i : Nat) (resp : RpcResponse) (hreader : c.reader = .sending i resp)
      (hnil : c.channel i = []) :
      Effect c .send ({ c with reader := .checking }.setChannel i [resp])
  | closed : Effect c .close { c with closed := true }

theorem step_effect (c : RPCClient) (s : Step) : Effect c s (c.step s) := by
  have hnone : ∀ {p : CallPhase}, p.outcome = none →
      ∀ o, p.outcome = some o → o = .ctxErr ∨ o = .writeErr := by
    intro p hp o ho
    rw [hp] at ho
    cases ho
  have hnot : ∀ {i : Nat} {p : CallPhase}, c.phase i = p → (∀ id, p ≠ .waiting id) →
      ∀ id, c.phase i = .waiting id → s = .done i :=
    fun hp hne id hi => absurd (hp.symm.trans hi) (hne id)
  cases s with
  | call i method params =>
      simp only [step]
      split
      · next hi =>
          exact .goes i _ rfl rfl rfl rfl rfl (by rw [hi]; rfl) (by rw [hi]; rfl) (hnone rfl)
            (hnot hi (by simp)) (.inl ⟨rfl, by rw [hi]; rfl⟩)
      · exact .kept
  | store i =>
      simp only [step]
      split
      · next envelope hi => exact .stored i envelope hi
      · exact .kept
  | lock i =>
      simp only [step]
      split
      · next envelope hi hmu =>
          exact .goes i _ rfl rfl rfl rfl rfl (by rw [hi]; rfl) (by rw [hi]; rfl) (hnone rfl)
            (hnot hi (by simp)) (.inr (.inl ⟨hmu, rfl⟩))
      · exact .kept
  | write i ok =>
      simp only [step]
      split
      · next envelope hi =>
          exact .goes i _ rfl rfl rfl rfl rfl (by rw [hi]; rfl) (by rw [hi]; rfl) (hnone rfl)
            (hnot hi (by simp)) (.inl ⟨rfl, by rw [hi]; rfl⟩)
      · exact .kept
  | unlock i =>
      simp only [step]
      split
      · next id failed hi =>
          have hlocks : (c.phase i).locks = true := by rw [hi]; rfl
          cases failed with
          | true =>
              exact .goes i _ rfl rfl rfl rfl rfl (by rw [hi]; rfl) (by rw [hi]; rfl)
                (fun o ho => .inr (Option.some.inj ho).symm) (hnot hi (by simp))
                (.inr (.inr ⟨hlocks, rfl⟩))
          | false =>
              exact .goes i _ rfl rfl rfl rfl rfl (by rw [hi]; rfl) (by rw [hi]; rfl) (hnone rfl)
                (hnot hi (by simp)) (.inr (.inr ⟨hlocks, rfl⟩))
      · exact .kept
  | done i =>
      simp only [step]
      split
      · next id hi =>
          exact .goes i _ rfl rfl rfl rfl rfl (by rw [hi]; rfl) (by rw [hi]; rfl)
            (fun o ho => .inl (Option.some.inj ho).symm) (fun _ _ => rfl)
            (.inl ⟨rfl, by rw [hi]; rfl⟩)
      · exact .kept
  | receive i =>
      simp only [step]
      split
      · next id resp rest hi hchannel => exact .received i id resp rest hi hchannel
      · exact .kept
  | delete i =>
      simp only [step]
      split
      · next id o hi => exact .deleted i id o hi
      · exact .kept
  | check =>
      simp only [step]
      split
      · next hreader => exact .checked hreader
      · exact .kept
  | message m =>
      simp only [step]
      split
      · next hreader => exact .handled m hreader
      · exact .kept
  | readError =>
      simp only [step]
      split
      · next hreader => exact .failed hreader
      · exact .kept
  | send =>
      simp only [step]
      split
      · next i resp hreader =>
          split
          · next hnil => exact .sent i resp hreader hnil
          · exact .kept
      · exact .kept
  | close => exact .closed

/-! ## Replies and calls -/

/-- A reply that was handed to a call. -/
def Replied (c : RPCClient) (i : Nat) (resp : RpcResponse) : Prop :=
  ∃ reply, c.pending.Answered i reply ∧ resp = reply.response

/-- What a call may return. -/
def Justified (c : RPCClient) (i : Nat) (o : Outcome) : Prop :=
  o = .ctxErr ∨ o = .writeErr ∨ ∃ resp, c.Replied i resp ∧ o = resp.outcome

/-- Replies and calls are paired off, and what is on its way to a call is its reply. -/
structure Paired (c : RPCClient) : Prop where
  matched : c.pending.Matched RpcReply.id
  unkeyed : ∀ i, (c.phase i).fresh = true → c.pending.key i = none
  keyed : ∀ i id, (c.phase i).id = some id → c.pending.key i = some id
  stored : ∀ id i, c.pending.pending id = some i → (c.phase i).id = some id
  channel : ∀ i, ∀ resp ∈ c.channel i, c.Replied i resp
  sending : ∀ i resp, c.reader = .sending i resp → c.channel i = [] ∧ c.Replied i resp
  outcome : ∀ i o, c.outcome i = some o → c.Justified i o

theorem dial_paired : Paired dial where
  matched := Correlator.matched_empty
  unkeyed _ _ := rfl
  keyed _ _ h := by cases h
  stored _ _ h := by cases h
  channel _ _ h := absurd h List.not_mem_nil
  sending _ _ h := by cases h
  outcome _ _ h := by cases h

theorem Paired.channel_nil (h : Paired c) {id : UInt64} (hi : c.pending.pending id = some i) :
    c.channel i = [] := by
  rw [List.eq_nil_iff_forall_not_mem]
  intro resp hresp
  obtain ⟨reply, ⟨p, hp, -⟩, -⟩ := h.channel i resp hresp
  exact (h.matched.pending id i hi).2 p hp

theorem Paired.goes (h : Paired c) (hphase : c'.phase = Function.update c.phase i p)
    (hpending : c'.pending = c.pending) (hreader : c'.reader = c.reader)
    (hchannel : ∀ j, c'.channel j ⊆ c.channel j) (hfresh : p.fresh = (c.phase i).fresh)
    (hid : p.id = (c.phase i).id) (houtcome : ∀ o, p.outcome = some o → c.Justified i o) :
    Paired c' := by
  have hreplied : c'.Replied = c.Replied := by
    unfold Replied
    rw [hpending]
  have hjustified : c'.Justified = c.Justified := by
    unfold Justified
    rw [hreplied]
  have hsame : ∀ j, (c'.phase j).fresh = (c.phase j).fresh ∧ (c'.phase j).id = (c.phase j).id := by
    intro j
    rw [hphase]
    by_cases hj : j = i
    · subst hj
      rw [Function.update_self]
      exact ⟨hfresh, hid⟩
    · rw [Function.update_of_ne hj]
      exact ⟨rfl, rfl⟩
  refine ⟨hpending ▸ h.matched, ?_, ?_, ?_, ?_, ?_, ?_⟩
  · intro j hj
    rw [hpending]
    exact h.unkeyed j ((hsame j).1.symm.trans hj)
  · intro j id hj
    rw [hpending]
    exact h.keyed j id ((hsame j).2.symm.trans hj)
  · intro id j hj
    rw [hpending] at hj
    exact (hsame j).2.trans (h.stored id j hj)
  · intro j resp hresp
    rw [hreplied]
    exact h.channel j resp (hchannel j hresp)
  · intro j resp hj
    obtain ⟨hnil, hresp⟩ := h.sending j resp (hreader ▸ hj)
    refine ⟨?_, hreplied ▸ hresp⟩
    have hsub := hchannel j
    rw [hnil] at hsub
    exact List.eq_nil_of_subset_nil hsub
  · intro j o hj
    rw [hjustified]
    unfold RPCClient.outcome at hj
    rw [hphase] at hj
    by_cases hji : j = i
    · subst hji
      rw [Function.update_self] at hj
      exact houtcome o hj
    · rw [Function.update_of_ne hji] at hj
      exact h.outcome j o hj

theorem Paired.store {envelope : RpcEnvelope} (h : Paired c)
    (hi : c.phase i = .numbered envelope) :
    Paired ({ c with pending := c.pending.register i envelope.id }.setPhase i
      (.stored envelope)) := by
  have hnew : c.pending.key i = none := h.unkeyed i (by rw [hi]; rfl)
  have hreplied : ∀ j resp, c.Replied j resp →
      Replied ({ c with pending := c.pending.register i envelope.id }.setPhase i
        (.stored envelope)) j resp := fun _ _ hresp => hresp
  refine ⟨h.matched.register hnew, ?_, ?_, ?_, ?_, ?_, ?_⟩
  · intro j hj
    by_cases hji : j = i
    · subst hji
      simp [setPhase, CallPhase.fresh] at hj
    · have hold := h.unkeyed j (by simpa [setPhase, hji] using hj)
      simpa [setPhase, Correlator.register, hji] using hold
  · intro j id hj
    by_cases hji : j = i
    · subst hji
      simpa [setPhase, Correlator.register, CallPhase.id] using hj
    · have hold := h.keyed j id (by simpa [setPhase, hji] using hj)
      simpa [setPhase, Correlator.register, hji] using hold
  · intro id j hj
    by_cases hid : id = envelope.id
    · subst hid
      obtain rfl : i = j := by simpa [setPhase, Correlator.register] using hj
      simp [setPhase, CallPhase.id]
    · have hold := h.stored id j (by simpa [setPhase, Correlator.register, hid] using hj)
      have hji : j ≠ i := by
        rintro rfl
        rw [hi] at hold
        cases hold
      simpa [setPhase, hji] using hold
  · exact fun j resp hresp => hreplied j resp (h.channel j resp hresp)
  · intro j resp hj
    obtain ⟨hnil, hresp⟩ := h.sending j resp hj
    exact ⟨hnil, hreplied j resp hresp⟩
  · intro j o hj
    by_cases hji : j = i
    · subst hji
      simp [RPCClient.outcome, setPhase, CallPhase.outcome] at hj
    · refine h.outcome j o ?_
      simpa [RPCClient.outcome, setPhase, hji] using hj

theorem Paired.delete {id : UInt64} {o : Outcome} (h : Paired c)
    (hi : c.phase i = .leaving id o) :
    Paired ({ c with pending := c.pending.forget id }.setPhase i (.returned o)) := by
  have hkey : c.pending.key i = some id := h.keyed i id (by rw [hi]; rfl)
  refine ⟨h.matched.forget id, ?_, ?_, ?_, h.channel, h.sending, ?_⟩
  · intro j hj
    by_cases hji : j = i
    · subst hji
      simp [setPhase, CallPhase.fresh] at hj
    · exact h.unkeyed j (by simpa [setPhase, hji] using hj)
  · intro j id' hj
    by_cases hji : j = i
    · subst hji
      simp [setPhase, CallPhase.id] at hj
    · exact h.keyed j id' (by simpa [setPhase, hji] using hj)
  · intro id' j hj
    by_cases hid : id' = id
    · subst hid
      simp [setPhase, Correlator.forget] at hj
    · have hj' : c.pending.pending id' = some j := by
        simpa [setPhase, Correlator.forget, hid] using hj
      -- the call that leaves was stored under the id that is deleted
      have hji : j ≠ i := by
        rintro rfl
        exact hid (Option.some.inj ((h.matched.pending id' j hj').1.symm.trans hkey))
      simpa [setPhase, hji] using h.stored id' j hj'
  · intro j o' hj
    by_cases hji : j = i
    · subst hji
      have ho : o = o' := by simpa [RPCClient.outcome, setPhase, CallPhase.outcome] using hj
      subst ho
      exact h.outcome j o (by rw [RPCClient.outcome, hi]; rfl)
    · exact h.outcome j o' (by simpa [RPCClient.outcome, setPhase, hji] using hj)

theorem Paired.reads (h : Paired c) (hphase : c'.phase = c.phase)
    (hpending : c'.pending = c.pending)
    (hchannel : c'.channel = c.channel) (hreader : ∀ i resp, c'.reader ≠ .sending i resp) :
    Paired c' := by
  have hreplied : c'.Replied = c.Replied := by
    unfold Replied
    rw [hpending]
  refine ⟨hpending ▸ h.matched, ?_, ?_, ?_, ?_, ?_, ?_⟩
  · rw [hphase, hpending]
    exact h.unkeyed
  · rw [hphase, hpending]
    exact h.keyed
  · rw [hphase, hpending]
    exact h.stored
  · rw [hchannel, hreplied]
    exact h.channel
  · intro i resp hi
    exact absurd hi (hreader i resp)
  · unfold RPCClient.outcome Justified
    rw [hphase, hreplied]
    exact h.outcome

theorem Paired.handle (h : Paired c) (m : Option RpcReply) : Paired (c.handle m) := by
  cases m with
  | none =>
      refine h.reads rfl rfl rfl ?_
      intro i resp hi
      cases hi
  | some reply =>
      have hreplied : ∀ i resp, c.Replied i resp → (c.handle (some reply)).Replied i resp := by
        rintro i resp ⟨old, hold, rfl⟩
        exact ⟨old, hold.receive reply, rfl⟩
      refine ⟨h.matched.receive reply, h.unkeyed, h.keyed, ?_, ?_, ?_, ?_⟩
      · intro id i hi
        by_cases hid : id = reply.id
        · subst hid
          simp [RPCClient.handle, Correlator.receive] at hi
        · exact h.stored id i (by simpa [RPCClient.handle, Correlator.receive, hid] using hi)
      · exact fun i resp hresp => hreplied i resp (h.channel i resp hresp)
      · intro i resp hi
        cases hpending : c.pending.pending reply.id with
        | none => simp [RPCClient.handle, hpending] at hi
        | some j =>
            simp only [RPCClient.handle, hpending, ReaderPhase.sending.injEq] at hi
            obtain ⟨rfl, rfl⟩ := hi
            exact ⟨h.channel_nil hpending, reply, Correlator.answered_receive hpending, rfl⟩
      · intro i o ho
        rcases h.outcome i o ho with ho | ho | ⟨resp, hresp, rfl⟩
        · exact .inl ho
        · exact .inr (.inl ho)
        · exact .inr (.inr ⟨resp, hreplied i resp hresp, rfl⟩)

theorem Paired.send {resp : RpcResponse} (h : Paired c) (hi : c.reader = .sending i resp) :
    Paired ({ c with reader := .checking }.setChannel i [resp]) := by
  obtain ⟨-, hresp⟩ := h.sending i resp hi
  refine ⟨h.matched, h.unkeyed, h.keyed, h.stored, ?_, ?_, h.outcome⟩
  · intro j r hr
    by_cases hji : j = i
    · subst hji
      obtain rfl : r = resp := by simpa [setChannel] using hr
      exact hresp
    · exact h.channel j r (by simpa [setChannel, hji] using hr)
  · intro j r hj
    cases hj

theorem Paired.step (h : Paired c) (s : Step) : Paired (c.step s) := by
  have heffect := step_effect c s
  generalize c.step s = c' at heffect ⊢
  cases heffect with
  | kept => exact h
  | goes i p hphase hpending hchannel hreader hclosed hfresh hid houtcome hwaiting hmu =>
      refine h.goes hphase hpending hreader ?_ hfresh hid ?_
      · intro j
        rw [hchannel]
        exact List.Subset.refl _
      · exact fun o ho => (houtcome o ho).imp id .inl
  | stored i envelope hi => exact h.store hi
  | received i id resp rest hi hchannel =>
      refine h.goes rfl rfl rfl ?_ (by rw [hi]; rfl) (by rw [hi]; rfl) ?_
      · intro j
        by_cases hji : j = i
        · subst hji
          show Function.update c.channel j rest j ⊆ c.channel j
          rw [Function.update_self, hchannel]
          exact List.subset_cons_self resp rest
        · show Function.update c.channel i rest j ⊆ c.channel j
          rw [Function.update_of_ne hji]
          exact List.Subset.refl _
      · intro o ho
        cases ho
        exact .inr (.inr ⟨resp, h.channel i resp (by rw [hchannel]; simp), rfl⟩)
  | deleted i id o hi => exact h.delete hi
  | checked hreader =>
      refine h.reads rfl rfl rfl ?_
      intro i resp hi
      dsimp only at hi
      split at hi <;> cases hi
  | handled m hreader => exact h.handle m
  | failed hreader =>
      refine h.reads rfl rfl rfl ?_
      intro i resp hi
      cases hi
  | sent i resp hreader hnil => exact h.send hreader
  | closed => exact ⟨h.matched, h.unkeyed, h.keyed, h.stored, h.channel, h.sending, h.outcome⟩

theorem after_paired (steps : List Step) : Paired (after steps) :=
  @run_invariant _ _ step Paired (fun _ => True) (fun _ s h _ => h.step s) dial steps dial_paired
    fun _ _ => trivial

/-! ## The mutex -/

/-- Whoever holds the mutex is on record. -/
def Locked (c : RPCClient) : Prop := ∀ i, (c.phase i).locks = true → c.mu = some i

theorem Locked.goes (h : Locked c) (hphase : c'.phase = Function.update c.phase i p)
    (hmu : c'.mu = c.mu) (hlocks : p.locks = true → (c.phase i).locks = true) : Locked c' := by
  intro j hj
  rw [hmu]
  rw [hphase] at hj
  by_cases hji : j = i
  · subst hji
    exact h j (hlocks (by simpa using hj))
  · exact h j (by simpa [hji] using hj)

theorem Locked.step (h : Locked c) (s : Step) : Locked (c.step s) := by
  have heffect := step_effect c s
  generalize c.step s = c' at heffect ⊢
  cases heffect with
  | kept => exact h
  | goes i p hphase hpending hchannel hreader hclosed hfresh hid houtcome hwaiting hmu =>
      rcases hmu with ⟨hmu, hlocks⟩ | ⟨hfree, hmu⟩ | ⟨hlocks, hfree⟩
      · exact h.goes hphase hmu (fun hp => hlocks.symm.trans hp)
      · intro j hj
        rw [hphase] at hj
        by_cases hji : j = i
        · rw [hji, hmu]
        · have hlocked := h j (by simpa [hji] using hj)
          rw [hfree] at hlocked
          cases hlocked
      · intro j hj
        rw [hphase] at hj
        by_cases hji : j = i
        · subst hji
          rw [Function.update_self, hfree] at hj
          cases hj
        · rw [Function.update_of_ne hji] at hj
          exact absurd (Option.some.inj ((h j hj).symm.trans (h i hlocks))) hji
  | stored i envelope hi => exact h.goes rfl rfl (fun hlocks => by cases hlocks)
  | received i id resp rest hi hchannel => exact h.goes rfl rfl (fun hlocks => by cases hlocks)
  | deleted i id o hi => exact h.goes rfl rfl (fun hlocks => by cases hlocks)
  | handled m hreader => cases m <;> exact h
  | _ => exact h

theorem after_locked (steps : List Step) : Locked (after steps) :=
  @run_invariant _ _ step Locked (fun _ => True) (fun _ s h _ => h.step s) dial steps
    (fun _ h => by cases h) fun _ _ => trivial

/-! ## Replies -/

/-- What the calls of a client rely on. -/
structure Sound (c : RPCClient) : Prop where
  /-- No call gets two replies, and no reply goes to two calls. -/
  paired : (c.pending.answers.map Prod.fst).Nodup ∧ (c.pending.answers.map Prod.snd).Nodup
  /-- A call that neither its context nor the write ended returns what a reply says that bears its
  id and was read after the call had stored its channel. -/
  answered : ∀ i o, c.outcome i = some o → o = .ctxErr ∨ o = .writeErr ∨
    ∃ n reply, (i, n) ∈ c.pending.answers ∧ c.pending.read[n]? = some reply ∧
      c.pending.key i = some reply.id ∧ c.pending.since i ≤ n ∧ o = reply.response.outcome
  /-- The reader finds room in the channel that it sends on. -/
  room : ∀ i resp, c.reader = .sending i resp → c.channel i = []
  /-- The map holds no call that has returned. -/
  released : ∀ id i, c.pending.pending id = some i → ∀ o, c.phase i ≠ .returned o
  /-- One call at a time writes to the connection. -/
  oneWriter : ∀ i j, (c.phase i).locks = true → (c.phase j).locks = true → i = j

/-- Whatever the goroutines, the network and the contexts do, every reply goes to the one call
that it answers. -/
theorem calls_matched (steps : List Step) : Sound (after steps) := by
  have h := after_paired steps
  refine ⟨⟨h.matched.waiters, h.matched.frames⟩, ?_, ?_, ?_, ?_⟩
  · intro i o ho
    rcases h.outcome i o ho with ho | ho | ⟨resp, ⟨reply, ⟨n, hn, hreply⟩, rfl⟩, rfl⟩
    · exact .inl ho
    · exact .inr (.inl ho)
    · obtain ⟨reply', hreply', hkey, hsince⟩ := h.matched.answers i n hn
      obtain rfl : reply = reply' := Option.some.inj (hreply.symm.trans hreply')
      exact .inr (.inr ⟨n, reply, hn, hreply, hkey, hsince, rfl⟩)
  · exact fun i resp hi => (h.sending i resp hi).1
  · intro id i hi o ho
    have hid := h.stored id i hi
    rw [ho] at hid
    cases hid
  · intro i j hi hj
    have hlocked := after_locked steps
    exact Option.some.inj ((hlocked i hi).symm.trans (hlocked j hj))

/-! ## Calls that wait -/

/-- The reader may read another message. -/
def reads (c : RPCClient) : Bool :=
  match c.reader with
  | .reading => true
  | .checking | .sending _ _ => !c.closed
  | .ended => false

/-- A reply is on its way to a call, or may still be read. -/
def Answerable (c : RPCClient) (i : Nat) (id : UInt64) : Prop :=
  c.channel i ≠ [] ∨ (∃ resp, c.reader = .sending i resp) ∨
    (c.pending.pending id = some i ∧ c.reads = true)

/-- The call can return while its context lives. -/
def Returns (c : RPCClient) (i : Nat) : Prop :=
  ∃ later, Step.done i ∉ later ∧ ((run step c later).outcome i).isSome = true

theorem Returns.of_step {s : Step} (h : (c.step s).Returns i) (hs : s ≠ .done i) : c.Returns i := by
  obtain ⟨later, hdone, ho⟩ := h
  exact ⟨s :: later, by simp [Ne.symm hs, hdone], ho⟩

theorem returns_of_channel {id : UInt64} (hi : c.phase i = .waiting id) (h : c.channel i ≠ []) :
    c.Returns i := by
  refine ⟨[.receive i], by simp, ?_⟩
  cases hchannel : c.channel i with
  | nil => exact absurd hchannel h
  | cons resp rest =>
      simp [RPCClient.step, hi, hchannel, outcome, setPhase, CallPhase.outcome]

theorem returns_of_sending {id : UInt64} {resp : RpcResponse} (h : Paired c)
    (hi : c.phase i = .waiting id) (hreader : c.reader = .sending i resp) : c.Returns i := by
  have hnil := (h.sending i resp hreader).1
  have hs : c.step .send = { c with reader := .checking }.setChannel i [resp] := by
    simp only [RPCClient.step, hreader, hnil, if_true]
  refine Returns.of_step (s := .send) ?_ (by simp)
  rw [hs]
  exact returns_of_channel hi (by simp [setChannel])

theorem returns_of_reading {id : UInt64} (h : Paired c) (hi : c.phase i = .waiting id)
    (hpending : c.pending.pending id = some i) (hreader : c.reader = .reading) : c.Returns i := by
  have hs : c.step (.message (some ⟨id, "", none⟩)) = c.handle (some ⟨id, "", none⟩) := by
    simp only [RPCClient.step, hreader]
  refine Returns.of_step (s := .message (some ⟨id, "", none⟩)) ?_ (by simp)
  rw [hs]
  refine @returns_of_sending _ i id ⟨"", none⟩ (h.handle _) hi ?_
  simp [RPCClient.handle, hpending, RpcReply.response]

theorem returns_of_checking {id : UInt64} (h : Paired c) (hi : c.phase i = .waiting id)
    (hpending : c.pending.pending id = some i) (hreader : c.reader = .checking)
    (hclosed : c.closed = false) : c.Returns i := by
  have hs : c.step .check = { c with reader := .reading } := by
    simp only [RPCClient.step, hreader, hclosed, Bool.false_eq_true, if_false]
  refine Returns.of_step (s := .check) ?_ (by simp)
  have hpaired := h.step .check
  rw [hs] at hpaired ⊢
  exact returns_of_reading hpaired hi hpending rfl

/-- A call that nothing can answer waits on, whatever happens. -/
structure Stranded (c : RPCClient) (i : Nat) (id : UInt64) : Prop where
  paired : Paired c
  phase : c.phase i = .waiting id
  channel : c.channel i = []
  sending : ∀ resp, c.reader ≠ .sending i resp
  pending : c.pending.pending id = some i → c.reads = false

theorem Stranded.goes {id : UInt64} (h : Stranded c i id) (hpaired : Paired c')
    (hphase : c'.phase i = c.phase i) (hchannel : c'.channel i = c.channel i)
    (hreader : c'.reader = c.reader) (hclosed : c'.closed = c.closed)
    (hpending : c'.pending.pending id = some i → c.pending.pending id = some i) :
    Stranded c' i id := by
  refine ⟨hpaired, hphase.trans h.phase, hchannel.trans h.channel, ?_, ?_⟩
  · rw [hreader]
    exact h.sending
  · intro hi
    unfold reads
    rw [hreader, hclosed]
    exact h.pending (hpending hi)

theorem Stranded.handle {id : UInt64} (h : Stranded c i id) (hreader : c.reader = .reading)
    (m : Option RpcReply) : Stranded (c.handle m) i id := by
  -- the reader reads, so the call is not in the map
  have hgone : c.pending.pending id ≠ some i := by
    intro hi
    have hreads := h.pending hi
    simp [reads, hreader] at hreads
  cases m with
  | none =>
      refine ⟨h.paired.handle none, h.phase, h.channel, ?_, fun hi => absurd hi hgone⟩
      intro resp hi
      cases hi
  | some reply =>
      refine ⟨h.paired.handle (some reply), h.phase, h.channel, ?_, ?_⟩
      · intro resp hi
        cases hpending : c.pending.pending reply.id with
        | none => simp [RPCClient.handle, hpending] at hi
        | some j =>
            simp only [RPCClient.handle, hpending, ReaderPhase.sending.injEq] at hi
            obtain ⟨rfl, -⟩ := hi
            have hkey := h.paired.keyed j id (by rw [h.phase]; rfl)
            have hreply := (h.paired.matched.pending _ _ hpending).1
            rw [hkey] at hreply
            exact hgone (Option.some.inj hreply ▸ hpending)
      · intro hi
        by_cases hid : id = reply.id
        · subst hid
          simp [RPCClient.handle, Correlator.receive] at hi
        · exact absurd (by simpa [RPCClient.handle, Correlator.receive, hid] using hi) hgone

theorem Stranded.step {id : UInt64} (h : Stranded c i id) {s : Step} (hs : s ≠ .done i) :
    Stranded (c.step s) i id := by
  have hpaired := h.paired.step s
  have hne : ∀ {j : Nat} {q : CallPhase}, c.phase j = q → q ≠ .waiting id → i ≠ j := by
    rintro j q hj hq rfl
    exact hq (hj.symm.trans h.phase)
  have heffect := step_effect c s
  generalize c.step s = c' at hpaired heffect ⊢
  cases heffect with
  | kept => exact h
  | goes j p hphase hpending hchannel hreader hclosed hfresh hid houtcome hwaiting hmu =>
      have hji : i ≠ j := by
        rintro rfl
        exact hs (hwaiting id h.phase)
      refine h.goes hpaired ?_ ?_ hreader hclosed ?_
      · rw [hphase, Function.update_of_ne hji]
      · rw [hchannel]
      · rw [hpending]
        exact fun hi => hi
  | stored j envelope hj =>
      have hji := hne hj (by simp)
      refine h.goes hpaired (Function.update_of_ne hji _ _) rfl rfl rfl ?_
      intro hi
      by_cases hid : id = envelope.id
      · subst hid
        exact absurd (by simpa [setPhase, Correlator.register] using hi) hji.symm
      · simpa [setPhase, Correlator.register, hid] using hi
  | received j id' resp rest hj hchannel =>
      have hji : i ≠ j := by
        rintro rfl
        rw [h.channel] at hchannel
        cases hchannel
      exact h.goes hpaired (Function.update_of_ne hji _ _) (Function.update_of_ne hji _ _) rfl rfl
        (fun hi => hi)
  | deleted j id' o hj =>
      have hji := hne hj (by simp)
      refine h.goes hpaired (Function.update_of_ne hji _ _) rfl rfl rfl ?_
      intro hi
      by_cases hid : id = id'
      · subst hid
        simp [setPhase, Correlator.forget] at hi
      · simpa [setPhase, Correlator.forget, hid] using hi
  | checked hreader =>
      refine ⟨hpaired, h.phase, h.channel, ?_, ?_⟩
      · intro resp hi
        dsimp only at hi
        split at hi <;> cases hi
      · intro hi
        have hclosed := h.pending hi
        simp only [reads, hreader, Bool.not_eq_false'] at hclosed
        simp [reads, hclosed]
  | handled m hreader => exact h.handle hreader m
  | failed hreader =>
      refine ⟨hpaired, h.phase, h.channel, ?_, fun _ => rfl⟩
      intro resp hi
      cases hi
  | sent j resp hreader hnil =>
      have hji : i ≠ j := by
        rintro rfl
        exact h.sending resp hreader
      refine ⟨hpaired, h.phase, (Function.update_of_ne hji _ _).trans h.channel, ?_, ?_⟩
      · intro r hi
        cases hi
      · intro hi
        have hreads := h.pending hi
        rw [reads, hreader] at hreads
        exact hreads
  | closed =>
      refine ⟨hpaired, h.phase, h.channel, h.sending, ?_⟩
      intro hi
      have hreads := h.pending hi
      simp only [reads] at hreads ⊢
      split
      · next hreader =>
          rw [hreader] at hreads
          cases hreads
      · rfl
      · rfl
      · rfl

/-- A call that waits can return while its context lives exactly if its reply is on its way or
may still be read. -/
theorem waiting_returns_iff (steps : List Step) (i : Nat) (id : UInt64)
    (hi : (after steps).phase i = .waiting id) :
    (∃ later, Step.done i ∉ later ∧ ((after (steps ++ later)).outcome i).isSome = true) ↔
      (after steps).Answerable i id := by
  have hpaired := after_paired steps
  have hrun : ∀ later, after (steps ++ later) = run step (after steps) later :=
    fun later => run_append step dial steps later
  simp only [hrun]
  constructor
  · rintro ⟨later, hdone, ho⟩
    by_contra hnot
    simp only [Answerable, not_or, not_exists, not_and, Bool.not_eq_true, ne_eq, not_not] at hnot
    have hstranded : Stranded (after steps) i id := ⟨hpaired, hi, hnot.1, hnot.2.1, hnot.2.2⟩
    have hend := @run_invariant _ _ step (fun c => Stranded c i id) (fun s => s ≠ .done i)
      (fun _ s h hs => h.step hs) (after steps) later hstranded
      (fun s hs hsi => hdone (hsi ▸ hs))
    rw [outcome, hend.phase] at ho
    cases ho
  · rintro (hchannel | ⟨resp, hreader⟩ | ⟨hpending, hreads⟩)
    · exact returns_of_channel hi hchannel
    · exact returns_of_sending hpaired hi hreader
    · unfold reads at hreads
      split at hreads
      · next hreader => exact returns_of_reading hpaired hi hpending hreader
      · next hreader =>
          exact returns_of_checking hpaired hi hpending hreader (by simpa using hreads)
      · next j resp hreader =>
          have hnil := (hpaired.sending j resp hreader).1
          have hs : (after steps).step .send =
              { after steps with reader := .checking }.setChannel j [resp] := by
            simp only [RPCClient.step, hreader, hnil, if_true]
          have hnext := hpaired.step .send
          refine Returns.of_step (s := .send) ?_ (by simp)
          rw [hs] at hnext ⊢
          have hclosed : (after steps).closed = false := by simpa using hreads
          exact returns_of_checking hnext hi hpending rfl hclosed
      · cases hreads

/-- The connection broke while a call waited: nobody answers it. -/
def brokenWhileWaiting : List Step :=
  [.check, .call 0 "tasks/post" .null, .store 0, .lock 0, .write 0 true, .unlock 0, .readError]

theorem waiting_returns_iff_broken :
    ¬ ∃ later, Step.done 0 ∉ later ∧
      ((after (brokenWhileWaiting ++ later)).outcome 0).isSome = true := by
  have hi : (after brokenWhileWaiting).phase 0 = .waiting 1 := by decide +kernel
  rw [waiting_returns_iff brokenWhileWaiting 0 1 hi]
  rintro (hchannel | ⟨resp, hreader⟩ | ⟨-, hreads⟩)
  · exact hchannel rfl
  · have hended : (after brokenWhileWaiting).reader = .ended := by decide +kernel
    rw [hended] at hreader
    cases hreader
  · have hended : (after brokenWhileWaiting).reads = false := by decide +kernel
    rw [hended] at hreads
    cases hreads

end RPCClient

end Wcp.Sdk.Go
