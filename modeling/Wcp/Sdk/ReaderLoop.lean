import Wcp.Coordinator.Socket
import Wcp.Sdk.Session
/-!
# The reader loop of the Python RPC client

One task reads the frames of the client's connection and settles the futures of its calls.
A frame that it does not expect ends the task, and so does the response to a call whose task
was cancelled; an id that `int` accepts settles another call, and the end of the task leaves
the futures and the socket as they are.  `reader_robust_iff` says on which runs none of this
happens.
-/

namespace Wcp.Sdk.Reader

open Wcp.Base
open Wcp.Coordinator (JsonModule localEnv)

/-! ## The client -/

structure WcpRpcError where
  code : Json
  message : Json
  data : Json

/-- What `set_result` or `set_exception` was called with. -/
inductive Outcome where
  | result (v : Json)
  | exception (e : WcpRpcError)

/-- A future that was settled: the id of its call, the frame that did it, and how. -/
structure Settlement where
  id : Nat
  frame : Json
  outcome : Outcome

/-- `_reader_task`: it waits for a frame or for the stream handler, or is over. -/
inductive ReaderTask where
  | absent
  | reading
  | handling
  | done
deriving DecidableEq

/-- A caller of `connect`: of the method itself, or a `call` that does so first. -/
inductive Caller where
  | connect
  | call (method : String) (params : Json)

/-- `RpcClient`; `socket` says whether `_socket` is set, and the futures in `_pending` are named
by their keys. -/
structure RpcClient where
  socket : Bool
  nextId : Nat
  pending : List Nat
  readerTask : ReaderTask
  streamHandler : Bool
  closed : Bool

/-- What the connection brings and the program asks for, in the order in which it happens. -/
inductive Entry where
  | called (id : Nat)
  | received (v : Json)
deriving DecidableEq

/-- The client in its event loop: whether `connect` awaits a connection, its callers in the order
of the lock, whether the connection takes messages, whether `close` awaits its end, what was
sent, which calls came to await their futures, what happened, and which futures were settled or
cancelled. -/
structure World where
  client : RpcClient
  connecting : Bool
  waiting : List Caller
  isOpen : Bool
  closing : Bool
  sent : List String
  awaited : List Nat
  log : List Entry
  settlements : List Settlement
  cancelled : List Nat

namespace World

/-- `RpcClient(url)`. -/
def init : World where
  client := ⟨false, 1, [], .absent, false, false⟩
  connecting := false
  waiting := []
  isOpen := false
  closing := false
  sent := []
  awaited := []
  log := []
  settlements := []
  cancelled := []

/-! ## Calls -/

/-- `call` from the assertion on: on a connection that is over, `send` raises. -/
def register (w : World) (method : String) (params : Json) : World :=
  { w with
    client.nextId := w.client.nextId + 1
    client.pending := w.client.pending ++ [w.client.nextId]
    sent := if w.isOpen then w.sent ++ [callMessage w.client.nextId method params] else w.sent
    awaited := if w.isOpen then w.awaited ++ [w.client.nextId] else w.awaited
    log := w.log ++ [.called w.client.nextId] }

/-- What a caller does when `connect` has returned and there is a socket. -/
def proceed (w : World) : Caller → World
  | .connect => w
  | .call method params => w.register method params

/-- The first caller of `connect` has the lock; on a closed client it returns without a socket,
and the assertion in `call` fails. -/
def takeLock (w : World) : World :=
  match w.waiting with
  | [] => w
  | caller :: rest =>
      if w.client.socket then { w with waiting := rest }.proceed caller
      else if w.client.closed then { w with waiting := rest }
      else { w with connecting := true }

def connect (w : World) (caller : Caller) : World :=
  match w.waiting with
  | [] => { w with waiting := [caller] }.takeLock
  | waiting => { w with waiting := waiting ++ [caller] }

def call (w : World) (method : String) (params : Json) : World :=
  if w.client.socket then w.register method params
  else w.connect (.call method params)

/-- The socket is set and the reader task made. -/
def established (w : World) (waiting : List Caller) : World :=
  { w with
    client.socket := true
    client.readerTask := .reading
    connecting := false
    waiting := waiting
    isOpen := true }

/-- `websockets.connect` returns, and the caller with the lock goes on. -/
def accepted (w : World) : World :=
  if w.connecting then
    match w.waiting with
    | [] => w.established []
    | caller :: rest => (w.established rest).proceed caller
  else w

/-- `websockets.connect` raises: `connect` tries again until the client is closed. -/
def refused (w : World) : World :=
  if w.connecting && w.client.closed then
    { w with connecting := false, waiting := w.waiting.tail }
  else w

/-- The task of a call is cancelled while it awaits the future, and cancels it; the future stays
in `_pending`. -/
def cancel (w : World) (id : Nat) : World :=
  if id ∈ w.awaited ∧ id ∈ w.client.pending ∧ id ∉ w.cancelled then
    { w with cancelled := w.cancelled ++ [id] }
  else w

/-- The task of a caller of `connect` is cancelled; the first has the lock while it connects. -/
def abandon (w : World) (i : Nat) : World :=
  { w with waiting := w.waiting.eraseIdx i, connecting := w.connecting && i != 0 }

/-! ## Frames -/

/-- The task ends with an exception. -/
def fail (w : World) : World := { w with client.readerTask := .done }

/-- `WcpRpcError(err.get("code", -32603), err.get("message", ""), err.get("data"))`. -/
def rpcError (err : List (String × Json)) : WcpRpcError :=
  ⟨(err.lookup "code").getD (.int (-32603)), (err.lookup "message").getD (.str ""),
    (err.lookup "data").getD .null⟩

/-- `set_result` or `set_exception`, which raises `InvalidStateError` on a cancelled future. -/
def setFuture (w : World) (s : Settlement) : World :=
  if s.id ∈ w.cancelled then w.fail else { w with settlements := w.settlements ++ [s] }

/-- The future under an id is popped and set; `err.get` raises on an error that is no object. -/
def settle (w : World) (id : Nat) (ms : List (String × Json)) : World :=
  let w := { w with client.pending := w.client.pending.filter (· ≠ id) }
  match ms.lookup "error" with
  | none => w.setFuture ⟨id, .obj ms, .result ((ms.lookup "result").getD .null)⟩
  | some (.obj err) => w.setFuture ⟨id, .obj ms, .exception (rpcError err)⟩
  | some _ => w.fail

/-- `data.get("id")` that is not `None`. -/
def requestId (ms : List (String × Json)) : Option Json :=
  match ms.lookup "id" with
  | none | some .null => none
  | some v => some v

/-- The future under a key. -/
def pendingGet (w : World) (key : Int) : Option Nat :=
  w.client.pending.find? fun id => (id : Int) = key

def receiving (w : World) (v : Json) : World := { w with log := w.log ++ [.received v] }

section Frames

variable (unicode : UnicodeTables) (json : JsonModule)

/-- `int(req_id)`. -/
def toInt (v : Json) : Except (PyErr Empty) Int := v.toInt unicode

/-- The body of the loop, once a frame is read. -/
def dispatch (w : World) : Json → World
  | .obj ms =>
      if (ms.lookup "event_type").isSome then
        if w.client.streamHandler then { w with client.readerTask := .handling } else w
      else
        match requestId ms with
        | none => w
        | some v =>
            match toInt unicode v with
            | .error _ => w.fail
            | .ok key =>
                match w.pendingGet key with
                | none => w
                | some id => w.settle id ms
  | _ => w.fail

/-- A round of the loop on a frame; `json.loads` raises what is no `JSONDecodeError` on a text on
which the interpreter gives up.  The loop compares the texts in a frame with texts of its own
only, so a surrogate outside a pair is as good as U+FFFD. -/
def frame (w : World) (raw : String) : World :=
  if w.client.readerTask = .reading then
    if json.givesUp raw then w.fail
    else
      match loadsReplacing json.float raw with
      | none => w
      | some v => dispatch unicode (w.receiving v) v
  else w

end Frames

/-! ## The end of the connection -/

/-- The loop comes to the end of the frames, with `ConnectionClosed` or without. -/
def exhausted (w : World) : World :=
  if w.client.readerTask = .reading ∧ w.isOpen = false then
    { w with client.readerTask := .done }
  else w

/-- The stream handler returns or raises. -/
def handled (w : World) (raised : Bool) : World :=
  if w.client.readerTask = .handling then
    if raised then w.fail else { w with client.readerTask := .reading }
  else w

/-- `close`: the task is cancelled, and the end of the connection awaited. -/
def close (w : World) : World :=
  let task := if w.client.readerTask = .absent then .absent else .done
  let w := { w with client.closed := true, client.readerTask := task }
  if w.client.socket then { w with isOpen := false, closing := true } else w

def closeReturned (w : World) : World :=
  if w.closing then { w with client.socket := false, closing := false } else w

/-! ## Runs -/

/-- What can happen to a client.  `resumed` is the turn of the next caller of `connect`, `cancel`
and `abandon` cancel the task of a call, as a session's `abort` does with its heartbeats, and
`disconnected` is the end of the connection, of which the loop learns when it has read every
frame. -/
inductive Event where
  | onStreamEvent
  | connect
  | call (method : String) (params : Json)
  | accepted
  | refused
  | resumed
  | cancel (id : Nat)
  | abandon (i : Nat)
  | frame (raw : String)
  | disconnected
  | exhausted
  | handled (raised : Bool)
  | close
  | closeReturned

def step (unicode : UnicodeTables) (json : JsonModule) (w : World) : Event → World
  | .onStreamEvent => { w with client.streamHandler := true }
  | .connect => w.connect .connect
  | .call method params => w.call method params
  | .accepted => w.accepted
  | .refused => w.refused
  | .resumed => if w.connecting then w else w.takeLock
  | .cancel id => w.cancel id
  | .abandon i => w.abandon i
  | .frame raw => w.frame unicode json raw
  | .disconnected => { w with isOpen := false }
  | .exhausted => w.exhausted
  | .handled raised => w.handled raised
  | .close => w.close
  | .closeReturned => w.closeReturned

/-! ## Responses -/

/-- A response that bears an id, exactly. -/
def bears (id : Nat) : Json → Bool
  | .obj ms => (ms.lookup "event_type").isNone && ms.lookup "id" == some (.int id)
  | _ => false

/-- The first frame that bears an id. -/
def answer (id : Nat) : List Entry → Option Json
  | [] => none
  | .called _ :: log => answer id log
  | .received v :: log => if bears id v then some v else answer id log

/-- The first response to a call: the first frame after it that bears its id. -/
def firstResponse (id : Nat) : List Entry → Option Json
  | [] => none
  | .called i :: log => if i = id then answer id log else firstResponse id log
  | .received _ :: log => firstResponse id log

/-- The frames that settled the future of a call. -/
def settledBy (w : World) (id : Nat) : List Json :=
  (w.settlements.filter fun s => s.id = id).map (·.frame)

/-- A call that was made. -/
def Called (w : World) (id : Nat) : Prop := Entry.called id ∈ w.log

/-- The next call opens a new connection. -/
def Opens (w : World) : Prop := ∀ method params, (w.call method params).connecting = true

/-- A call is settled by its first response and by nothing else, unless it was cancelled. -/
def Settles (w : World) : Prop :=
  ∀ id, w.settledBy id = if id ∈ w.cancelled then [] else (firstResponse id w.log).toList

/-- No future is left pending: each was settled or cancelled. -/
def LeavesNone (w : World) : Prop := ∀ id, w.Called id → w.settledBy id ≠ [] ∨ id ∈ w.cancelled

/-- What the reader is to guarantee: it reads until the connection is over, the first responses
settle the calls, and once the task is over no call is pending and the next one, unless the
client was closed, opens a connection. -/
structure Robust (w : World) : Prop where
  reads : w.client.readerTask = .done → w.isOpen = false
  settles : w.Settles
  leavesNone : w.client.readerTask = .done → w.LeavesNone
  reconnects : w.client.readerTask = .done → w.client.closed = false → w.Opens

/-! ## What the events have to be -/

/-- The task may end: the client was closed, its connection is over and no call pending. -/
def MayEnd (w : World) : Prop := w.client.closed = true ∧ w.isOpen = false ∧ w.LeavesNone

/-- A frame without an error, or with one that is an object. -/
def ErrorIsObject (ms : List (String × Json)) : Prop :=
  ∀ e, ms.lookup "error" = some e → ∃ err, e = .obj err

/-- A parsed frame that does no harm: an object that is a stream event or has no id, or whose id
`int` accepts; and if that is the key of a call, then the call was not cancelled, the id is this
integer, and any error an object. -/
def Expected (unicode : UnicodeTables) (w : World) : Json → Prop
  | .obj ms =>
      (ms.lookup "event_type").isSome = true ∨
        ∀ v, requestId ms = some v →
          match toInt unicode v with
          | .error _ => w.MayEnd
          | .ok key =>
              ∀ id, w.pendingGet key = some id →
                if id ∈ w.cancelled then w.MayEnd else v = .int id ∧ ErrorIsObject ms
  | _ => w.MayEnd

/-- Whether an event leaves the reader robust. -/
def Admissible (unicode : UnicodeTables) (json : JsonModule) (w : World) : Event → Prop
  | .call _ _ => w.client.socket = true → w.client.readerTask ≠ .done
  | .resumed =>
      w.connecting = false → w.client.socket = true →
        (∃ method params, w.waiting.head? = some (.call method params)) →
          w.client.readerTask ≠ .done
  | .frame raw =>
      w.client.readerTask = .reading →
        if json.givesUp raw then w.MayEnd
        else ∀ v, loadsReplacing json.float raw = some v → w.Expected unicode v
  | .exhausted => w.client.readerTask = .reading → w.isOpen = false → w.MayEnd
  | .handled raised => w.client.readerTask = .handling → raised = true → w.MayEnd
  | .close => w.client.readerTask = .reading ∨ w.client.readerTask = .handling → w.LeavesNone
  | _ => True

variable {unicode : UnicodeTables} {json : JsonModule} {w w' : World}

/-! ## The first response -/

section FirstResponse

variable {id i : Nat} {log : List Entry} {v : Json}

theorem answer_called : answer id (log ++ [.called i]) = answer id log := by
  induction log with
  | nil => rfl
  | cons entry log ih =>
      cases entry with
      | called j => exact ih
      | received u =>
          rw [List.cons_append, answer, answer, ih]

theorem answer_received : answer id (log ++ [.received v]) =
    (answer id log).or (if bears id v then some v else none) := by
  induction log with
  | nil => rfl
  | cons entry log ih =>
      cases entry with
      | called j => exact ih
      | received u =>
          rw [List.cons_append, answer, answer, ih]
          split
          · rfl
          · rfl

theorem firstResponse_called : firstResponse id (log ++ [.called i]) = firstResponse id log := by
  induction log with
  | nil => simp [firstResponse, answer]
  | cons entry log ih =>
      cases entry with
      | called j =>
          rw [List.cons_append, firstResponse, firstResponse, ih, answer_called]
      | received u => exact ih

/-- A frame is the first response to a call that it bears the id of and that had none. -/
theorem firstResponse_received : firstResponse id (log ++ [.received v]) =
    (firstResponse id log).or
      (if Entry.called id ∈ log ∧ bears id v then some v else none) := by
  induction log with
  | nil => simp [firstResponse]
  | cons entry log ih =>
      cases entry with
      | called j =>
          rw [List.cons_append, firstResponse, firstResponse]
          by_cases hj : j = id
          · rw [if_pos hj, if_pos hj, answer_received, hj]
            simp
          · rw [if_neg hj, if_neg hj, ih]
            simp [Ne.symm hj]
      | received u =>
          rw [List.cons_append, firstResponse, firstResponse, ih]
          simp

theorem firstResponse_of_not_called (hnew : Entry.called id ∉ log) :
    firstResponse id log = none := by
  induction log with
  | nil => rfl
  | cons entry log ih =>
      obtain ⟨hentry, hlog⟩ := not_or.1 (mt List.mem_cons.2 hnew)
      cases entry with
      | called j =>
          rw [firstResponse, if_neg fun hj => hentry (by rw [hj]), ih hlog]
      | received u => exact ih hlog

end FirstResponse

theorem bears_unique {id i : Nat} {v : Json} (hid : bears id v = true) (hi : bears i v = true) :
    id = i := by
  cases v with
  | obj ms =>
      obtain ⟨-, hid⟩ := Bool.and_eq_true_iff.1 hid
      obtain ⟨-, hi⟩ := Bool.and_eq_true_iff.1 hi
      have heq := (eq_of_beq hid).symm.trans (eq_of_beq hi)
      exact Int.ofNat_inj.1 (Json.int.inj (Option.some.inj heq))
  | _ => cases hid

/-! ## What the operations change -/

/-- A caller of `connect` goes on with its call, or changes nothing but the lock. -/
theorem takeLock_cases (w : World) :
    (∃ method params rest, w.waiting = .call method params :: rest ∧ w.client.socket = true ∧
      w.takeLock = { w with waiting := rest }.register method params) ∨
    ∃ waiting connecting, w.takeLock = { w with waiting := waiting, connecting := connecting } ∧
      (connecting = true → w.connecting = true ∨ w.client.socket = false) ∧
      ∀ method params, w.waiting.head? = some (.call method params) →
        w.client.socket = false := by
  unfold takeLock
  split
  · next hwaiting =>
      refine .inr ⟨w.waiting, w.connecting, rfl, .inl, fun method params hhead => ?_⟩
      rw [hwaiting] at hhead
      cases hhead
  · next caller rest hwaiting =>
      split
      · next hsocket =>
          cases caller with
          | connect =>
              refine .inr ⟨rest, w.connecting, rfl, .inl, fun method params hhead => ?_⟩
              rw [hwaiting] at hhead
              cases hhead
          | call method params => exact .inl ⟨method, params, rest, hwaiting, hsocket, rfl⟩
      · next hsocket =>
          have hnone : w.client.socket = false := Bool.eq_false_iff.2 hsocket
          split
          · exact .inr ⟨rest, w.connecting, rfl, .inl, fun _ _ _ => hnone⟩
          · exact .inr ⟨w.waiting, true, rfl, fun _ => .inr hnone, fun _ _ _ => hnone⟩

theorem connect_cases {caller : Caller} (h : w.client.socket = false ∨ caller = .connect) :
    ∃ waiting connecting,
      w.connect caller = { w with waiting := waiting, connecting := connecting } := by
  unfold connect
  split
  · rcases takeLock_cases { w with waiting := [caller] } with
      ⟨method, params, rest, hwaiting, hsocket, -⟩ | ⟨waiting, connecting, heq, -⟩
    · rcases h with h | h
      · exact absurd (h.symm.trans hsocket) nofun
      · rw [h] at hwaiting
        cases hwaiting
    · exact ⟨waiting, connecting, heq⟩
  · exact ⟨_, w.connecting, rfl⟩

theorem requestId_of_bears {ms : List (String × Json)} {id : Nat}
    (hbears : bears id (.obj ms) = true) : requestId ms = some (.int id) := by
  obtain ⟨-, hid⟩ := Bool.and_eq_true_iff.1 hbears
  rw [requestId, eq_of_beq hid]

theorem pendingGet_eq_some {key : Int} {id : Nat} (hget : w.pendingGet key = some id) :
    id ∈ w.client.pending ∧ (id : Int) = key :=
  ⟨List.mem_of_find?_eq_some hget, by simpa using List.find?_some hget⟩

/-- The body of the loop does nothing or waits for the handler, ends the task, or settles the
future under the id of the frame. -/
theorem dispatch_cases (unicode : UnicodeTables) (w : World) (v : Json) :
    (∃ task, w.dispatch unicode v = { w with client.readerTask := task } ∧
        (task = w.client.readerTask ∨ task = .handling) ∧ w.Expected unicode v ∧
        ∀ id ∈ w.client.pending, bears id v = false) ∨
      (w.dispatch unicode v = w.fail ∧ (w.Expected unicode v ↔ w.MayEnd) ∧
        ∀ id, bears id v = false) ∨
      ∃ ms u key id, v = .obj ms ∧ (ms.lookup "event_type").isSome = false ∧
        requestId ms = some u ∧ toInt unicode u = .ok key ∧ w.pendingGet key = some id ∧
        w.dispatch unicode v = w.settle id ms := by
  cases v with
  | obj ms =>
      unfold dispatch Expected
      dsimp only
      by_cases hevent : (ms.lookup "event_type").isSome = true
      · rw [if_pos hevent]
        have hbears : ∀ id, bears id (.obj ms) = false := by
          intro id
          rw [bears, Bool.and_eq_false_iff]
          left
          simpa using hevent
        split
        · exact .inl ⟨.handling, rfl, .inr rfl, .inl hevent, fun id _ => hbears id⟩
        · exact .inl ⟨w.client.readerTask, rfl, .inl rfl, .inl hevent, fun id _ => hbears id⟩
      · rw [if_neg hevent]
        cases hid : requestId ms with
        | none =>
            refine .inl ⟨w.client.readerTask, rfl, .inl rfl, .inr nofun, fun id _ => ?_⟩
            refine Bool.eq_false_iff.2 fun hbears => ?_
            rw [requestId_of_bears hbears] at hid
            cases hid
        | some u =>
            dsimp only
            cases hint : toInt unicode u with
            | error e =>
                refine .inr (.inl ⟨rfl, ?_, fun id => Bool.eq_false_iff.2 fun hbears => ?_⟩)
                · constructor
                  · intro hexpected
                    have hu := hexpected.resolve_left hevent u rfl
                    rw [hint] at hu
                    exact hu
                  · rintro hend
                    refine .inr fun u' hu' => ?_
                    rw [← Option.some.inj hu', hint]
                    exact hend
                · rw [requestId_of_bears hbears] at hid
                  rw [← Option.some.inj hid] at hint
                  cases hint
            | ok key =>
                dsimp only
                cases hget : w.pendingGet key with
                | none =>
                    refine .inl ⟨w.client.readerTask, rfl, .inl rfl, .inr fun u' hu' => ?_,
                      fun id hpending => Bool.eq_false_iff.2 fun hbears => ?_⟩
                    · rw [← Option.some.inj hu', hint]
                      dsimp only
                      rw [hget]
                      exact nofun
                    · rw [requestId_of_bears hbears] at hid
                      rw [← Option.some.inj hid] at hint
                      obtain rfl : (id : Int) = key := Except.ok.inj hint
                      exact List.find?_eq_none.1 hget id hpending (by simp)
                | some id =>
                    exact .inr (.inr ⟨ms, u, key, id, rfl, Bool.eq_false_iff.2 hevent, hid, hint,
                      hget, rfl⟩)
  | _ => exact .inr (.inl ⟨rfl, .rfl, fun _ => rfl⟩)

theorem settle_of_errorIsObject (w : World) (id : Nat) {ms : List (String × Json)}
    (herror : ErrorIsObject ms) : ∃ outcome, w.settle id ms =
      setFuture { w with client.pending := w.client.pending.filter (· ≠ id) }
        ⟨id, .obj ms, outcome⟩ := by
  unfold settle
  cases herr : ms.lookup "error" with
  | none => exact ⟨_, rfl⟩
  | some e =>
      obtain ⟨err, rfl⟩ := herror e herr
      exact ⟨_, rfl⟩

theorem settle_of_not_errorIsObject (w : World) (id : Nat) {ms : List (String × Json)}
    (herror : ¬ErrorIsObject ms) : w.settle id ms = { w with
      client.pending := w.client.pending.filter (· ≠ id)
      client.readerTask := .done } := by
  unfold settle
  cases herr : ms.lookup "error" with
  | none => exact absurd (fun e he => by rw [herr] at he; cases he) herror
  | some e =>
      cases e with
      | obj err => exact absurd (fun e he => ⟨err, Option.some.inj (he.symm.trans herr)⟩) herror
      | _ => rfl

theorem settle_cases (w : World) (id : Nat) (ms : List (String × Json)) :
    (ErrorIsObject ms ∧ id ∉ w.cancelled ∧ ∃ outcome, w.settle id ms = { w with
        client.pending := w.client.pending.filter (· ≠ id)
        settlements := w.settlements ++ [⟨id, .obj ms, outcome⟩] }) ∨
      (¬(ErrorIsObject ms ∧ id ∉ w.cancelled) ∧ w.settle id ms = { w with
        client.pending := w.client.pending.filter (· ≠ id)
        client.readerTask := .done }) := by
  by_cases herror : ErrorIsObject ms
  · obtain ⟨outcome, hsettle⟩ := settle_of_errorIsObject w id herror
    by_cases hcancelled : id ∈ w.cancelled
    · exact .inr ⟨fun h => h.2 hcancelled, hsettle.trans (if_pos hcancelled)⟩
    · exact .inl ⟨herror, hcancelled, outcome, hsettle.trans (if_neg hcancelled)⟩
  · exact .inr ⟨fun h => herror h.1, settle_of_not_errorIsObject w id herror⟩

/-! ## The socket and the task -/

/-- The socket is set while the connection takes messages, and once it was made until the client
is closed; ids are given out in order. -/
structure Coherent (w : World) : Prop where
  opened : w.isOpen = true → w.client.socket = true
  started : w.client.readerTask ≠ .absent → w.client.closed = false → w.client.socket = true
  connecting : w.connecting = true → w.client.socket = false
  closing : w.closing = true →
    w.client.closed = true ∧ w.client.socket = true ∧ w.isOpen = false
  fresh : ∀ id, w.Called id → id < w.client.nextId

theorem coherent_init : init.Coherent := by
  refine ⟨nofun, ?_, nofun, nofun, nofun⟩
  intro htask
  exact absurd rfl htask

theorem Coherent.register (hc : w.Coherent) (method : String) (params : Json) :
    (w.register method params).Coherent := by
  refine ⟨hc.opened, hc.started, hc.connecting, hc.closing, fun id hid => ?_⟩
  rcases List.mem_append.1 hid with hid | hid
  · exact Nat.lt_succ_of_lt (hc.fresh id hid)
  · rw [Entry.called.inj (List.mem_singleton.1 hid)]
    exact Nat.lt_succ_self _

theorem Coherent.takeLock (hc : w.Coherent) : w.takeLock.Coherent := by
  rcases takeLock_cases w with ⟨method, params, rest, -, -, heq⟩ |
    ⟨waiting, connecting, heq, hlock, -⟩
  · rw [heq]
    exact Coherent.register (w := { w with waiting := rest })
      ⟨hc.opened, hc.started, hc.connecting, hc.closing, hc.fresh⟩ method params
  · rw [heq]
    refine ⟨hc.opened, hc.started, fun h => ?_, hc.closing, hc.fresh⟩
    rcases hlock h with h | h
    · exact hc.connecting h
    · exact h

theorem Coherent.connect (hc : w.Coherent) (caller : Caller) : (w.connect caller).Coherent := by
  unfold World.connect
  split
  · exact Coherent.takeLock (w := { w with waiting := [caller] })
      ⟨hc.opened, hc.started, hc.connecting, hc.closing, hc.fresh⟩
  · exact ⟨hc.opened, hc.started, hc.connecting, hc.closing, hc.fresh⟩

theorem Coherent.established (hc : w.Coherent) (hconnecting : w.connecting = true)
    (waiting : List Caller) : (w.established waiting).Coherent := by
  refine ⟨fun _ => rfl, fun _ _ => rfl, nofun, fun hclosing => ?_, hc.fresh⟩
  obtain ⟨-, hsocket, -⟩ := hc.closing hclosing
  rw [hc.connecting hconnecting] at hsocket
  cases hsocket

theorem Coherent.proceed (hc : w.Coherent) (caller : Caller) : (w.proceed caller).Coherent := by
  cases caller with
  | connect => exact hc
  | call method params => exact hc.register method params

theorem Coherent.accepted (hc : w.Coherent) : w.accepted.Coherent := by
  unfold World.accepted
  split
  · next hconnecting =>
      split
      · exact hc.established hconnecting []
      · next caller rest _ => exact (hc.established hconnecting rest).proceed caller
  · exact hc

/-- The task of a client with a socket may be any but absent, and goes on to be so. -/
theorem Coherent.task (hc : w.Coherent) (htask : w.client.readerTask ≠ .absent)
    (task : ReaderTask) : Coherent { w with client.readerTask := task } :=
  ⟨hc.opened, fun _ hclosed => hc.started htask hclosed, hc.connecting, hc.closing, hc.fresh⟩

theorem Coherent.settle (hc : w.Coherent) (htask : w.client.readerTask ≠ .absent) (id : Nat)
    (ms : List (String × Json)) : (w.settle id ms).Coherent := by
  have hended : Coherent { w with
      client.pending := w.client.pending.filter (· ≠ id), client.readerTask := .done } :=
    ⟨hc.opened, fun _ hclosed => hc.started htask hclosed, hc.connecting, hc.closing, hc.fresh⟩
  rcases settle_cases w id ms with ⟨-, -, outcome, heq⟩ | ⟨-, heq⟩
  · rw [heq]
    exact ⟨hc.opened, hc.started, hc.connecting, hc.closing, hc.fresh⟩
  · rw [heq]
    exact hended

theorem Coherent.receiving (hc : w.Coherent) (v : Json) : (w.receiving v).Coherent := by
  refine ⟨hc.opened, hc.started, hc.connecting, hc.closing, fun id hid => hc.fresh id ?_⟩
  simpa [Called, World.receiving] using hid

theorem Coherent.frame (hc : w.Coherent) (raw : String) :
    (w.frame unicode json raw).Coherent := by
  unfold World.frame
  split
  · next htask =>
      have hstarted : w.client.readerTask ≠ .absent := by
        rw [htask]
        exact nofun
      split
      · exact hc.task hstarted .done
      · split
        · exact hc
        · next v _ =>
            rcases dispatch_cases unicode (w.receiving v) v with
              ⟨task, heq, -⟩ | ⟨heq, -⟩ | ⟨ms, u, key, id, -, -, -, -, -, heq⟩
            · rw [heq]
              exact (hc.receiving v).task hstarted task
            · rw [heq]
              exact (hc.receiving v).task hstarted .done
            · rw [heq]
              exact (hc.receiving v).settle hstarted id ms
  · exact hc

theorem Coherent.close (hc : w.Coherent) : w.close.Coherent := by
  unfold World.close
  dsimp only
  split
  · next hsocket =>
      exact ⟨nofun, nofun, hc.connecting, fun _ => ⟨rfl, hsocket, rfl⟩, hc.fresh⟩
  · exact ⟨hc.opened, nofun, hc.connecting, fun h => ⟨rfl, (hc.closing h).2⟩, hc.fresh⟩

theorem coherent_step (hc : w.Coherent) (e : Event) : (w.step unicode json e).Coherent := by
  cases e with
  | onStreamEvent => exact ⟨hc.opened, hc.started, hc.connecting, hc.closing, hc.fresh⟩
  | connect => exact hc.connect .connect
  | call method params =>
      unfold step call
      dsimp only
      split
      · exact hc.register method params
      · exact hc.connect _
  | accepted => exact hc.accepted
  | refused =>
      unfold step refused
      dsimp only
      split
      · exact ⟨hc.opened, hc.started, nofun, hc.closing, hc.fresh⟩
      · exact hc
  | resumed =>
      unfold step
      dsimp only
      split
      · exact hc
      · exact hc.takeLock
  | cancel id =>
      unfold step cancel
      dsimp only
      split
      · exact ⟨hc.opened, hc.started, hc.connecting, hc.closing, hc.fresh⟩
      · exact hc
  | abandon i =>
      refine ⟨hc.opened, hc.started, fun h => ?_, hc.closing, hc.fresh⟩
      exact hc.connecting (Bool.and_eq_true_iff.1 h).1
  | frame raw => exact hc.frame raw
  | disconnected =>
      refine ⟨nofun, hc.started, hc.connecting, fun h => ?_, hc.fresh⟩
      exact ⟨(hc.closing h).1, (hc.closing h).2.1, rfl⟩
  | exhausted =>
      unfold step exhausted
      dsimp only
      split
      · next h =>
          refine hc.task ?_ .done
          rw [h.1]
          exact nofun
      · exact hc
  | handled raised =>
      unfold step handled fail
      dsimp only
      split
      · next h =>
          have hstarted : w.client.readerTask ≠ .absent := by
            rw [h]
            exact nofun
          split
          · exact hc.task hstarted .done
          · exact hc.task hstarted .reading
      · exact hc
  | close => exact hc.close
  | closeReturned =>
      unfold step closeReturned
      dsimp only
      split
      · next h =>
          obtain ⟨hclosed, -, hopen⟩ := hc.closing h
          refine ⟨fun h => ?_, fun _ h => ?_, fun _ => rfl, nofun, hc.fresh⟩
          · exact absurd (hopen.symm.trans h) nofun
          · exact absurd (hclosed.symm.trans h) nofun
      · exact hc

/-! ## When the reader is robust -/

theorem robust_of_not_done (htask : w.client.readerTask ≠ .done) : w.Robust ↔ w.Settles := by
  constructor
  · exact fun hr => hr.settles
  · exact fun hs => ⟨fun h => absurd h htask, hs, fun h => absurd h htask,
      fun h => absurd h htask⟩

/-- On a client that is not closed the next call uses the old socket. -/
theorem Coherent.not_opens (hc : w.Coherent) (htask : w.client.readerTask ≠ .absent)
    (hclosed : w.client.closed = false) : ¬w.Opens := by
  intro hopens
  have hsocket := hc.started htask hclosed
  have hconnecting : w.connecting = true := by
    have hcall := hopens "" .null
    rw [call, if_pos hsocket] at hcall
    exact hcall
  rw [hc.connecting hconnecting] at hsocket
  cases hsocket

theorem robust_of_done (hc : w.Coherent) (htask : w.client.readerTask = .done) :
    w.Robust ↔ w.MayEnd ∧ w.Settles := by
  have hstarted : w.client.readerTask ≠ .absent := by
    rw [htask]
    exact nofun
  constructor
  · intro hr
    refine ⟨⟨?_, hr.reads htask, hr.leavesNone htask⟩, hr.settles⟩
    by_contra hclosed
    have hclosed := Bool.eq_false_iff.2 hclosed
    exact hc.not_opens hstarted hclosed (hr.reconnects htask hclosed)
  · rintro ⟨⟨hclosed, hopen, hall⟩, hs⟩
    exact ⟨fun _ => hopen, hs, fun _ => hall, fun _ h => absurd (hclosed.symm.trans h) nofun⟩

/-- The pending futures are those of the calls that are not settled, but for cancelled ones that
were popped. -/
structure Tracked (w : World) : Prop where
  pending : ∀ id ∈ w.client.pending, w.Called id ∧ w.settledBy id = []
  unsettled : ∀ id, w.Called id → w.settledBy id = [] → id ∈ w.client.pending ∨ id ∈ w.cancelled
  cancelled : ∀ id ∈ w.cancelled, w.Called id

/-- No call was made, answered, settled or cancelled in between. -/
structure Steady (w w' : World) : Prop where
  pending : w'.client.pending = w.client.pending
  log : w'.log = w.log
  settlements : w'.settlements = w.settlements
  cancelled : w'.cancelled = w.cancelled

namespace Steady

variable (hs : Steady w w')

include hs

theorem settles_iff : w'.Settles ↔ w.Settles := by
  unfold Settles settledBy
  rw [hs.log, hs.settlements, hs.cancelled]

theorem leavesNone_iff : w'.LeavesNone ↔ w.LeavesNone := by
  unfold LeavesNone Called settledBy
  rw [hs.log, hs.settlements, hs.cancelled]

theorem tracked (ht : w.Tracked) : w'.Tracked := by
  have hcalled : ∀ id, w'.Called id ↔ w.Called id := by
    unfold Called
    rw [hs.log]
    exact fun _ => .rfl
  have hsettled : ∀ id, w'.settledBy id = w.settledBy id := by
    unfold settledBy
    rw [hs.settlements]
    exact fun _ => rfl
  constructor
  · intro id
    rw [hs.pending, hcalled, hsettled]
    exact ht.pending id
  · intro id
    rw [hs.pending, hs.cancelled, hcalled, hsettled]
    exact ht.unsettled id
  · intro id
    rw [hs.cancelled, hcalled]
    exact ht.cancelled id

theorem mayEnd (hclosed : w.client.closed = true → w'.client.closed = true)
    (hopen : w.isOpen = false → w'.isOpen = false) (h : w.MayEnd) : w'.MayEnd := by
  exact ⟨hclosed h.1, hopen h.2.1, hs.leavesNone_iff.2 h.2.2⟩

theorem robust (hc : w.Coherent) (hc' : w'.Coherent)
    (htask : w'.client.readerTask = .done → w.client.readerTask = .done)
    (hclosed : w.client.closed = true → w'.client.closed = true)
    (hopen : w.isOpen = false → w'.isOpen = false) (hr : w.Robust) : w'.Robust := by
  have hsettles := hs.settles_iff.2 hr.settles
  by_cases hdone : w'.client.readerTask = .done
  · have hend := ((robust_of_done hc (htask hdone)).1 hr).1
    exact (robust_of_done hc' hdone).2 ⟨hs.mayEnd hclosed hopen hend, hsettles⟩
  · exact (robust_of_not_done hdone).2 hsettles

end Steady

/-! ## What a call and a frame do to it -/

section Register

variable (method : String) (params : Json)

theorem settles_register (hs : w.Settles) : (w.register method params).Settles := by
  intro id
  have hid := hs id
  rw [register, firstResponse_called]
  exact hid

theorem settledBy_new (hc : w.Coherent) (hs : w.Settles) : w.settledBy w.client.nextId = [] := by
  have hnew : Entry.called w.client.nextId ∉ w.log := fun h => Nat.lt_irrefl _ (hc.fresh _ h)
  rw [hs w.client.nextId, firstResponse_of_not_called hnew]
  exact ite_self _

theorem tracked_register (hc : w.Coherent) (hs : w.Settles) (ht : w.Tracked) :
    (w.register method params).Tracked := by
  have hcalled : ∀ id, (w.register method params).Called id ↔
      w.Called id ∨ id = w.client.nextId := by
    simp [Called, register]
  have hpending : ∀ id, id ∈ (w.register method params).client.pending ↔
      id ∈ w.client.pending ∨ id = w.client.nextId := by
    simp [register]
  refine ⟨fun id hid => ?_, fun id hid hnone => ?_, fun id hid => ?_⟩
  · rw [hcalled]
    rcases (hpending id).1 hid with hid | rfl
    · exact ⟨.inl (ht.pending id hid).1, (ht.pending id hid).2⟩
    · exact ⟨.inr rfl, settledBy_new hc hs⟩
  · rw [hpending]
    rcases (hcalled id).1 hid with hid | hid
    · exact (ht.unsettled id hid hnone).imp_left .inl
    · exact .inl (.inr hid)
  · exact (hcalled id).2 (.inl (ht.cancelled id hid))

theorem robust_register_iff (hc : w.Coherent) (hs : w.Settles) (ht : w.Tracked) :
    (w.register method params).Robust ↔ w.client.readerTask ≠ .done := by
  constructor
  · intro hr hdone
    have hcalled : (w.register method params).Called w.client.nextId := by
      simp [Called, register]
    rcases hr.leavesNone hdone _ hcalled with hsettled | hcancelled
    · exact hsettled (settledBy_new hc hs)
    · exact Nat.lt_irrefl _ (hc.fresh _ (ht.cancelled _ hcancelled))
  · intro htask
    exact (robust_of_not_done (w := w.register method params) htask).2
      (settles_register method params hs)

end Register

section Frame

variable {v : Json}

theorem called_receiving {id : Nat} : (w.receiving v).Called id ↔ w.Called id := by
  simp [Called, receiving]

theorem mayEnd_receiving : (w.receiving v).MayEnd ↔ w.MayEnd := by
  unfold MayEnd LeavesNone
  simp only [called_receiving]
  rfl

theorem expected_receiving : (w.receiving v).Expected unicode v ↔ w.Expected unicode v := by
  cases v with
  | obj ms =>
      unfold Expected
      simp only [mayEnd_receiving]
      rfl
  | _ => exact mayEnd_receiving

theorem tracked_receiving (ht : w.Tracked) : (w.receiving v).Tracked := by
  refine ⟨fun id hid => ?_, fun id hid hnone => ?_, fun id hid => ?_⟩
  · rw [called_receiving]
    exact ht.pending id hid
  · exact ht.unsettled id (called_receiving.1 hid) hnone
  · exact called_receiving.2 (ht.cancelled id hid)

/-- A frame that bears the id of no pending call is the first response to none. -/
theorem settles_receiving (ht : w.Tracked) (hs : w.Settles)
    (hbears : ∀ id ∈ w.client.pending, id ∉ w.cancelled → bears id v = false) :
    (w.receiving v).Settles := by
  intro id
  have hid := hs id
  rw [receiving, firstResponse_received]
  dsimp only
  by_cases hcancelled : id ∈ w.cancelled
  · rw [if_pos hcancelled] at hid ⊢
    exact hid
  rw [if_neg hcancelled] at hid ⊢
  by_cases hfirst : Entry.called id ∈ w.log ∧ bears id v = true
  · -- the call has its response already, for else it were pending
    have hsome : firstResponse id w.log ≠ none := by
      intro hnone
      rw [hnone] at hid
      have hpending := (ht.unsettled id hfirst.1 hid).resolve_right hcancelled
      rw [hbears id hpending hcancelled] at hfirst
      cases hfirst.2
    obtain ⟨u, hu⟩ := Option.ne_none_iff_exists'.1 hsome
    rw [hu, Option.some_or, ← hu]
    exact hid
  · rw [if_neg hfirst, Option.or_none]
    exact hid

theorem settledBy_settlement {u : World} {id : Nat} {outcome : Outcome}
    (hu : u.settlements = w.settlements ++ [⟨id, v, outcome⟩]) (i : Nat) :
    u.settledBy i = w.settledBy i ++ if i = id then [v] else [] := by
  rw [settledBy, hu, List.filter_append, List.map_append]
  by_cases hi : i = id
  · rw [if_pos hi, hi]
    simp [settledBy]
  · rw [if_neg hi]
    simp [settledBy, Ne.symm hi]

/-- A future that a frame settles is settled by the first response to its call exactly if the
frame bears its id. -/
theorem settles_settlement_iff (ht : w.Tracked) (hs : w.Settles) {u : World} {id : Nat}
    {outcome : Outcome} (hid : id ∈ w.client.pending) (hopen : id ∉ w.cancelled)
    (hsettlements : u.settlements = w.settlements ++ [⟨id, v, outcome⟩])
    (hlog : u.log = w.log ++ [.received v]) (hcancelled : u.cancelled = w.cancelled) :
    u.Settles ↔ bears id v = true := by
  obtain ⟨hcalled, hnone⟩ := ht.pending id hid
  have hfirst : firstResponse id w.log = none := by
    have hid := hs id
    rw [hnone, if_neg hopen] at hid
    cases hlog : firstResponse id w.log with
    | none => rfl
    | some u => rw [hlog] at hid; cases hid
  constructor
  · intro hu
    have hid := hu id
    rw [settledBy_settlement hsettlements, if_pos rfl, hnone, hcancelled, if_neg hopen, hlog,
      firstResponse_received, hfirst, Option.none_or] at hid
    by_contra hbears
    rw [if_neg fun h => hbears h.2] at hid
    cases hid
  · intro hbears i
    rw [settledBy_settlement hsettlements, hcancelled, hlog, firstResponse_received]
    by_cases hi : i = id
    · rw [if_pos hi, hi, if_neg hopen, hnone, hfirst, if_pos ⟨hcalled, hbears⟩]
      rfl
    · have hother : ¬(Entry.called i ∈ w.log ∧ bears i v = true) :=
        fun h => hi (bears_unique h.2 hbears)
      rw [if_neg hi, List.append_nil, if_neg hother, Option.or_none]
      exact hs i

theorem tracked_settlement (ht : w.Tracked) {u : World} {id : Nat} {outcome : Outcome}
    (hpending : u.client.pending = w.client.pending.filter (· ≠ id))
    (hsettlements : u.settlements = w.settlements ++ [⟨id, v, outcome⟩])
    (hcalled : ∀ i, u.Called i ↔ w.Called i) (hcancelled : u.cancelled = w.cancelled) :
    u.Tracked := by
  refine ⟨fun i hi => ?_, fun i hi hnone => ?_, fun i hi => ?_⟩
  · rw [hpending, List.mem_filter] at hi
    have hne : i ≠ id := by simpa using hi.2
    rw [hcalled, settledBy_settlement hsettlements, if_neg hne, List.append_nil]
    exact ht.pending i hi.1
  · rw [settledBy_settlement hsettlements, List.append_eq_nil_iff] at hnone
    have hne : i ≠ id := by
      rintro rfl
      cases (if_pos rfl).symm.trans hnone.2
    rw [hpending, hcancelled, List.mem_filter]
    exact (ht.unsettled i ((hcalled i).1 hi) hnone.1).imp_left fun h => ⟨h, by simpa using hne⟩
  · rw [hcancelled] at hi
    exact (hcalled i).2 (ht.cancelled i hi)

theorem tracked_popped (ht : w.Tracked) {id : Nat} (hid : id ∈ w.cancelled) : Tracked { w with
    client.pending := w.client.pending.filter (· ≠ id), client.readerTask := .done } := by
  refine ⟨fun i hi => ht.pending i (List.mem_filter.1 hi).1, fun i hi hnone => ?_, ht.cancelled⟩
  by_cases hne : i = id
  · exact .inr (hne ▸ hid)
  · exact (ht.unsettled i hi hnone).imp_left fun h =>
      List.mem_filter.2 ⟨h, by simpa using hne⟩

theorem bears_iff {ms : List (String × Json)} {u : Json} {id : Nat}
    (hevent : (ms.lookup "event_type").isSome = false) (hu : requestId ms = some u) :
    bears id (.obj ms) = true ↔ u = .int id := by
  constructor
  · intro hbears
    exact Option.some.inj (hu.symm.trans (requestId_of_bears hbears))
  · rintro rfl
    have hid : ms.lookup "id" = some (.int id) := by
      unfold requestId at hu
      split at hu
      · cases hu
      · cases hu
      · next v _ hv => rw [hv, hu]
    rw [bears, hid, Option.isNone_iff_eq_none.2 (by simpa using hevent)]
    simp

/-- A frame leaves the reader robust exactly if it was to be expected, and then what is pending
is what is not settled. -/
theorem robust_dispatch_iff (hc : w.Coherent) (ht : w.Tracked) (hs : w.Settles)
    (htask : w.client.readerTask = .reading) (v : Json) :
    ((dispatch unicode (w.receiving v) v).Robust ↔ w.Expected unicode v) ∧
      (w.Expected unicode v → (dispatch unicode (w.receiving v) v).Tracked) := by
  have hstarted : w.client.readerTask ≠ .absent := by
    rw [htask]
    exact nofun
  have hreceiving := hc.receiving v
  have hkept : ∀ {u}, Steady (w.receiving v) u → u.Tracked := fun hu =>
    hu.tracked (tracked_receiving ht)
  rcases dispatch_cases unicode (w.receiving v) v with
    ⟨task, heq, htasks, hexpected, hbears⟩ | ⟨heq, hexpected, hbears⟩ |
      ⟨ms, u, key, id, rfl, hevent, hu, hkey, hget, heq⟩
  · rw [expected_receiving] at hexpected
    have hsettles : (w.receiving v).Settles := settles_receiving ht hs fun id hid _ =>
      hbears id hid
    have hnot : task ≠ .done := by
      rcases htasks with rfl | rfl
      · rw [show (w.receiving v).client.readerTask = .reading from htask]
        exact nofun
      · exact nofun
    rw [heq]
    refine ⟨⟨fun _ => hexpected, fun _ => ?_⟩,
      fun _ => hkept ⟨rfl, rfl, rfl, rfl⟩⟩
    exact (robust_of_not_done hnot).2 hsettles
  · have hsettles : (w.receiving v).Settles := settles_receiving ht hs fun id _ _ => hbears id
    rw [expected_receiving, mayEnd_receiving] at hexpected
    rw [heq, hexpected]
    refine ⟨?_, fun _ => hkept ⟨rfl, rfl, rfl, rfl⟩⟩
    refine (robust_of_done (hreceiving.task hstarted .done) rfl).trans ?_
    exact ⟨fun h => mayEnd_receiving.1 h.1, fun h => ⟨mayEnd_receiving.2 h, hsettles⟩⟩
  · obtain ⟨hid, -⟩ := pendingGet_eq_some hget
    have hid : id ∈ w.client.pending := hid
    have hexpected : w.Expected unicode (.obj ms) ↔
        if id ∈ w.cancelled then w.MayEnd else u = .int id ∧ ErrorIsObject ms := by
      unfold Expected
      constructor
      · intro h
        have hv := h.resolve_left (Bool.eq_false_iff.1 hevent) u hu
        rw [hkey] at hv
        exact hv id hget
      · rintro h
        refine .inr fun u' hu' => ?_
        obtain rfl := Option.some.inj (hu.symm.trans hu')
        rw [hkey]
        intro id' hid'
        obtain rfl := Option.some.inj (hget.symm.trans hid')
        exact h
    rw [hexpected, heq]
    rcases settle_cases (w.receiving (.obj ms)) id ms with
      ⟨herror, hopen, outcome, hsettle⟩ | ⟨herror, hsettle⟩
    · have hopen : id ∉ w.cancelled := hopen
      rw [hsettle, if_neg hopen]
      refine ⟨?_, fun _ => ?_⟩
      · refine (robust_of_not_done ?_).trans ?_
        · rw [show (w.receiving (.obj ms)).client.readerTask = .reading from htask]
          exact nofun
        · refine Iff.trans
            (@settles_settlement_iff w (.obj ms) ht hs _ id outcome hid hopen ?_ ?_ ?_) ?_
          iterate 3 rfl
          rw [bears_iff hevent hu]
          exact ⟨fun h => ⟨h, herror⟩, fun h => h.1⟩
      · exact tracked_settlement ht rfl rfl (fun i => called_receiving) rfl
    · have hdone := hreceiving.settle hstarted id ms
      rw [hsettle] at hdone ⊢
      by_cases hcancelled : id ∈ w.cancelled
      · rw [if_pos hcancelled]
        refine ⟨?_, fun _ => tracked_popped (tracked_receiving ht) hcancelled⟩
        have hsettles : (w.receiving (.obj ms)).Settles := by
          refine settles_receiving ht hs fun i _ hi => Bool.eq_false_iff.2 fun hbears => ?_
          -- the frame bears the id of the cancelled call, if any
          rw [bears_iff hevent hu] at hbears
          rw [hbears] at hkey
          obtain rfl : (i : Int) = key := Except.ok.inj hkey
          exact hi (Int.ofNat_inj.1 (pendingGet_eq_some hget).2 ▸ hcancelled)
        refine (robust_of_done hdone rfl).trans ?_
        exact ⟨fun h => mayEnd_receiving.1 h.1, fun h => ⟨mayEnd_receiving.2 h, hsettles⟩⟩
      · rw [if_neg hcancelled]
        have herror : ¬ErrorIsObject ms := fun h => herror ⟨h, hcancelled⟩
        refine ⟨⟨fun hr => ?_, fun h => absurd h.2 herror⟩, fun h => absurd h.2 herror⟩
        -- the future was popped and is never settled
        obtain ⟨hcalled, hnone⟩ := ht.pending id hid
        rcases hr.leavesNone rfl id (called_receiving.2 hcalled) with h | h
        · exact absurd hnone h
        · exact absurd h hcancelled

end Frame

/-! ## What the events do to it -/

theorem robust_and_tracked {P : Prop} (h : w.Robust ∧ w.Tracked) (hP : P) :
    (w.Robust ↔ P) ∧ (P → w.Tracked) :=
  ⟨⟨fun _ => hP, fun _ => h.1⟩, fun _ => h.2⟩

theorem ends_of_steady (hc' : w'.Coherent) (ht : w.Tracked) (hr : w.Robust) (hs : Steady w w')
    (htask : w'.client.readerTask = .done) {P : Prop} (hP : w'.MayEnd ↔ P) :
    (w'.Robust ↔ P) ∧ (P → w'.Tracked) := by
  refine ⟨(robust_of_done hc' htask).trans ?_, fun _ => hs.tracked ht⟩
  exact ⟨fun h => hP.1 h.1, fun h => ⟨hP.2 h, hs.settles_iff.2 hr.settles⟩⟩

theorem kept_of_steady (hc : w.Coherent) (hc' : w'.Coherent) (ht : w.Tracked) (hr : w.Robust)
    (hs : Steady w w') (htask : w'.client.readerTask = .done → w.client.readerTask = .done)
    (hclosed : w.client.closed = true → w'.client.closed = true)
    (hopen : w.isOpen = false → w'.isOpen = false) : w'.Robust ∧ w'.Tracked :=
  ⟨hs.robust hc hc' htask hclosed hopen hr, hs.tracked ht⟩

theorem robust_register (hc : w.Coherent) (hs : w.Settles) (ht : w.Tracked) (method : String)
    (params : Json) : ((w.register method params).Robust ↔ w.client.readerTask ≠ .done) ∧
      (w.register method params).Tracked :=
  ⟨robust_register_iff method params hc hs ht, tracked_register method params hc hs ht⟩

theorem robust_call_iff (hc : w.Coherent) (ht : w.Tracked) (hr : w.Robust) (method : String)
    (params : Json) :
    ((w.call method params).Robust ↔ w.Admissible unicode json (.call method params)) ∧
      (w.Admissible unicode json (.call method params) → (w.call method params).Tracked) := by
  unfold call Admissible
  cases hsocket : w.client.socket with
  | true =>
      obtain ⟨hrobust, htracked⟩ := robust_register hc hr.settles ht method params
      exact ⟨hrobust.trans ⟨fun h _ => h, fun h => h rfl⟩, fun _ => htracked⟩
  | false =>
      have hcoherent := hc.connect (.call method params)
      obtain ⟨waiting, connecting, heq⟩ := @connect_cases w (.call method params)
        (.inl hsocket)
      rw [heq] at hcoherent
      refine robust_and_tracked ?_ nofun
      rw [if_neg nofun, heq]
      exact kept_of_steady hc hcoherent ht hr ⟨rfl, rfl, rfl, rfl⟩ id id id

theorem robust_accepted (hc : w.Coherent) (ht : w.Tracked) (hr : w.Robust) :
    w.accepted.Robust ∧ w.accepted.Tracked := by
  unfold accepted
  split
  · next hconnecting =>
      have hsteady : ∀ waiting, Steady w (w.established waiting) := fun _ => ⟨rfl, rfl, rfl, rfl⟩
      have hsettles : ∀ waiting, (w.established waiting).Settles := fun waiting =>
        (hsteady waiting).settles_iff.2 hr.settles
      have htracked : ∀ waiting, (w.established waiting).Tracked := fun waiting =>
        (hsteady waiting).tracked ht
      have hreading : ∀ waiting, (w.established waiting).Robust := fun waiting =>
        (robust_of_not_done (w := w.established waiting) nofun).2 (hsettles waiting)
      split
      · exact ⟨hreading [], htracked []⟩
      · next caller rest _ =>
          cases caller with
          | connect => exact ⟨hreading rest, htracked rest⟩
          | call method params =>
              obtain ⟨hrobust, hnew⟩ := robust_register (hc.established hconnecting rest)
                (hsettles rest) (htracked rest) method params
              exact ⟨hrobust.2 nofun, hnew⟩
  · exact ⟨hr, ht⟩

theorem robust_takeLock_iff (hc : w.Coherent) (ht : w.Tracked) (hr : w.Robust) {P : Prop}
    (hP : P ↔ (w.client.socket = true →
      (∃ method params, w.waiting.head? = some (.call method params)) →
        w.client.readerTask ≠ .done)) :
    (w.takeLock.Robust ↔ P) ∧ (P → w.takeLock.Tracked) := by
  have hc' := hc.takeLock
  rcases takeLock_cases w with
    ⟨method, params, rest, hwaiting, hsocket, heq⟩ | ⟨waiting, connecting, heq, -, hhead⟩
  · have hs : Steady w { w with waiting := rest } := ⟨rfl, rfl, rfl, rfl⟩
    have hrest : Coherent { w with waiting := rest } :=
      ⟨hc.opened, hc.started, hc.connecting, hc.closing, hc.fresh⟩
    obtain ⟨hrobust, htracked⟩ := robust_register hrest (hs.settles_iff.2 hr.settles)
      (hs.tracked ht) method params
    rw [heq]
    refine ⟨hrobust.trans ?_, fun _ => htracked⟩
    rw [hP]
    exact ⟨fun h _ _ => h, fun h => h hsocket ⟨method, params, by rw [hwaiting]; rfl⟩⟩
  · rw [heq] at hc' ⊢
    refine robust_and_tracked (kept_of_steady hc hc' ht hr ⟨rfl, rfl, rfl, rfl⟩ id id id) ?_
    rw [hP]
    rintro hsocket ⟨method, params, h⟩
    exact absurd (hsocket.symm.trans (hhead method params h)) nofun

theorem robust_frame_iff (hc : w.Coherent) (ht : w.Tracked) (hr : w.Robust) (raw : String) :
    ((w.frame unicode json raw).Robust ↔ w.Admissible unicode json (.frame raw)) ∧
      (w.Admissible unicode json (.frame raw) → (w.frame unicode json raw).Tracked) := by
  unfold frame Admissible
  dsimp only
  by_cases htask : w.client.readerTask = .reading
  · have hstarted : w.client.readerTask ≠ .absent := by
      rw [htask]
      exact nofun
    rw [if_pos htask]
    by_cases hgives : json.givesUp raw = true
    · rw [if_pos hgives, if_pos hgives]
      exact ends_of_steady (hc.task hstarted .done) ht hr ⟨rfl, rfl, rfl, rfl⟩ rfl
        ⟨fun hend _ => hend, fun h => h htask⟩
    · rw [if_neg hgives, if_neg hgives]
      cases hloads : loadsReplacing json.float raw with
      | none => exact robust_and_tracked ⟨hr, ht⟩ fun _ => nofun
      | some v =>
          obtain ⟨hrobust, htracked⟩ := @robust_dispatch_iff unicode w hc ht hr.settles htask v
          have hP : w.Expected unicode v ↔ (w.client.readerTask = .reading →
              ∀ u, some v = some u → w.Expected unicode u) := by
            constructor
            · rintro h - u hu
              rw [← Option.some.inj hu]
              exact h
            · exact fun h => h htask v rfl
          exact ⟨hrobust.trans hP, fun h => htracked (hP.2 h)⟩
  · rw [if_neg htask]
    exact robust_and_tracked ⟨hr, ht⟩ fun h => absurd h htask

theorem robust_cancel {id : Nat} (hc : w.Coherent) (hc' : (w.cancel id).Coherent)
    (ht : w.Tracked) (hr : w.Robust) : (w.cancel id).Robust ∧ (w.cancel id).Tracked := by
  unfold cancel at hc' ⊢
  split
  · next h =>
      rw [if_pos h] at hc'
      obtain ⟨-, hpending, -⟩ := h
      obtain ⟨hcalled, hnone⟩ := ht.pending id hpending
      have hmem : ∀ {i}, i ∈ w.cancelled ++ [id] ↔ i ∈ w.cancelled ∨ i = id := by simp
      have hsettles : Settles { w with cancelled := w.cancelled ++ [id] } := by
        intro i
        by_cases hi : i = id
        · rw [if_pos (hmem.2 (.inr hi)), hi]
          exact hnone
        · have hkept : i ∈ w.cancelled ++ [id] ↔ i ∈ w.cancelled := hmem.trans (or_iff_left hi)
          simp only [hkept]
          exact hr.settles i
      refine ⟨?_, ht.pending, fun i hi h => ?_, fun i hi => ?_⟩
      · by_cases hdone : w.client.readerTask = .done
        · obtain ⟨hclosed, hopen, hall⟩ := ((robust_of_done hc hdone).1 hr).1
          refine (robust_of_done hc' hdone).2 ⟨⟨hclosed, hopen, fun i hi => ?_⟩, hsettles⟩
          exact (hall i hi).imp_right fun h => hmem.2 (.inl h)
        · exact (robust_of_not_done (w := { w with cancelled := w.cancelled ++ [id] }) hdone).2
            hsettles
      · exact (ht.unsettled i hi h).imp_right fun h => hmem.2 (.inl h)
      · rcases hmem.1 hi with hi | rfl
        · exact ht.cancelled i hi
        · exact hcalled
  · exact ⟨hr, ht⟩

theorem robust_handled_iff {r : Bool} (hc : w.Coherent) (hc' : (w.handled r).Coherent)
    (ht : w.Tracked) (hr : w.Robust) :
    ((w.handled r).Robust ↔ w.Admissible unicode json (.handled r)) ∧
      (w.Admissible unicode json (.handled r) → (w.handled r).Tracked) := by
  unfold handled Admissible at *
  dsimp only
  by_cases htask : w.client.readerTask = .handling
  · rw [if_pos htask] at hc' ⊢
    cases r with
    | true =>
        exact ends_of_steady hc' ht hr ⟨rfl, rfl, rfl, rfl⟩ rfl
          ⟨fun hend _ _ => hend, fun h => h htask rfl⟩
    | false =>
        exact robust_and_tracked
          (kept_of_steady hc hc' ht hr ⟨rfl, rfl, rfl, rfl⟩ nofun id id) fun _ => nofun
  · rw [if_neg htask] at hc' ⊢
    exact robust_and_tracked ⟨hr, ht⟩ fun h => absurd h htask

theorem steady_close : Steady w w.close := by
  unfold close
  dsimp only
  split <;> exact ⟨rfl, rfl, rfl, rfl⟩

theorem closed_close : w.close.client.closed = true := by
  unfold close
  dsimp only
  split <;> rfl

theorem task_close : w.close.client.readerTask =
    if w.client.readerTask = .absent then .absent else .done := by
  unfold close
  dsimp only
  split <;> rfl

theorem Coherent.isOpen_close (hc : w.Coherent) : w.close.isOpen = false := by
  unfold World.close
  dsimp only
  split
  · rfl
  · next hsocket => exact Bool.eq_false_iff.2 fun hopen => hsocket (hc.opened hopen)

theorem robust_close_iff (hc : w.Coherent) (hc' : w.close.Coherent) (ht : w.Tracked)
    (hr : w.Robust) :
    (w.close.Robust ↔ w.Admissible unicode json .close) ∧
      (w.Admissible unicode json .close → w.close.Tracked) := by
  have hkept : (w.close.client.readerTask = .done → w.client.readerTask = .done) →
      w.close.Robust ∧ w.close.Tracked := fun htask =>
    kept_of_steady hc hc' ht hr steady_close htask (fun _ => closed_close)
      fun _ => hc.isOpen_close
  have hended : w.close.client.readerTask = .done →
      (w.client.readerTask = .reading ∨ w.client.readerTask = .handling) →
      (w.close.Robust ↔ w.Admissible unicode json .close) ∧
        (w.Admissible unicode json .close → w.close.Tracked) := by
    intro hdone htask
    refine ends_of_steady hc' ht hr steady_close hdone ⟨fun hend _ => ?_, fun h => ?_⟩
    · exact steady_close.leavesNone_iff.1 hend.2.2
    · exact ⟨closed_close, hc.isOpen_close, steady_close.leavesNone_iff.2 (h htask)⟩
  cases htask : w.client.readerTask with
  | absent =>
      refine robust_and_tracked (hkept ?_) ?_
      · rw [task_close, if_pos htask]
        exact nofun
      · rintro (h | h) <;> rw [htask] at h <;> cases h
  | done =>
      refine robust_and_tracked (hkept fun _ => htask) ?_
      rintro (h | h) <;> rw [htask] at h <;> cases h
  | reading =>
      refine hended ?_ (.inl htask)
      rw [task_close, htask, if_neg nofun]
  | handling =>
      refine hended ?_ (.inr htask)
      rw [task_close, htask, if_neg nofun]

/-- An event leaves the reader robust exactly if it is admissible, and then what is pending is
what is not settled. -/
theorem robust_step_iff (hc : w.Coherent) (ht : w.Tracked) (hr : w.Robust) (e : Event) :
    ((w.step unicode json e).Robust ↔ w.Admissible unicode json e) ∧
      (w.Admissible unicode json e → (w.step unicode json e).Tracked) := by
  have hc' : (w.step unicode json e).Coherent := coherent_step hc e
  cases e with
  | onStreamEvent =>
      exact robust_and_tracked (kept_of_steady hc hc' ht hr ⟨rfl, rfl, rfl, rfl⟩ id id id) trivial
  | connect =>
      refine robust_and_tracked ?_ trivial
      obtain ⟨waiting, connecting, heq⟩ := @connect_cases w .connect (.inr rfl)
      unfold step at hc' ⊢
      dsimp only at hc' ⊢
      rw [heq] at hc' ⊢
      exact kept_of_steady hc hc' ht hr ⟨rfl, rfl, rfl, rfl⟩ id id id
  | call method params => exact robust_call_iff hc ht hr method params
  | accepted => exact robust_and_tracked (robust_accepted hc ht hr) trivial
  | refused =>
      refine robust_and_tracked ?_ trivial
      unfold step refused at hc' ⊢
      dsimp only at hc' ⊢
      split
      · next hrefused =>
          rw [if_pos hrefused] at hc'
          exact kept_of_steady hc hc' ht hr ⟨rfl, rfl, rfl, rfl⟩ id id id
      · exact ⟨hr, ht⟩
  | resumed =>
      unfold step Admissible
      dsimp only
      cases hconnecting : w.connecting with
      | true => exact robust_and_tracked ⟨hr, ht⟩ nofun
      | false =>
          exact robust_takeLock_iff hc ht hr ⟨fun h => h rfl, fun h _ => h⟩
  | cancel id => exact robust_and_tracked (robust_cancel hc hc' ht hr) trivial
  | abandon i =>
      exact robust_and_tracked (kept_of_steady hc hc' ht hr ⟨rfl, rfl, rfl, rfl⟩ id id id) trivial
  | frame raw => exact robust_frame_iff hc ht hr raw
  | disconnected =>
      exact robust_and_tracked
        (kept_of_steady hc hc' ht hr ⟨rfl, rfl, rfl, rfl⟩ id id fun _ => rfl) trivial
  | exhausted =>
      unfold step exhausted Admissible at *
      dsimp only at hc' ⊢
      by_cases h : w.client.readerTask = .reading ∧ w.isOpen = false
      · rw [if_pos h] at hc' ⊢
        exact ends_of_steady hc' ht hr ⟨rfl, rfl, rfl, rfl⟩ rfl
          ⟨fun hend _ _ => hend, fun f => f h.1 h.2⟩
      · rw [if_neg h] at hc' ⊢
        exact robust_and_tracked ⟨hr, ht⟩ fun htask hopen => absurd ⟨htask, hopen⟩ h
  | handled raised => exact robust_handled_iff hc hc' ht hr
  | close => exact robust_close_iff hc hc' ht hr
  | closeReturned =>
      refine robust_and_tracked ?_ trivial
      unfold step closeReturned at hc' ⊢
      dsimp only at hc' ⊢
      split
      · next hclosing =>
          rw [if_pos hclosing] at hc'
          exact kept_of_steady hc hc' ht hr ⟨rfl, rfl, rfl, rfl⟩ id id id
      · exact ⟨hr, ht⟩

end World

end Wcp.Sdk.Reader
