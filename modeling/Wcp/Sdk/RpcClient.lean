import Wcp.Base.Json
import Wcp.Base.Runs
/-!
# The RPC client of the TypeScript SDK

A call is sent on the socket if that is open and waits in a queue of 64 requests if not.
Nothing but a response settles its promise: a request that is pushed out of the full queue,
or under way when its socket goes, or outstanding at `close()` stays pending for ever.
`calls_kept_iff` says which runs strand no call.
-/

namespace Wcp.Sdk

open Wcp.Base

/-! ## The client -/

/-- `JSON.stringify({ jsonrpc: "2.0", id, method, params })`, by what it is the text of. -/
structure Request where
  id : Nat
  method : String
  params : Json
deriving DecidableEq

/-- The `readyState` of a socket, from `CONNECTING` to `CLOSED`. -/
inductive ReadyState where
  | connecting
  | opened
  | closing
  | closed
deriving DecidableEq

/-- A `WebSocket`, with the requests that were sent on it. -/
structure WebSocket where
  readyState : ReadyState
  sent : List Request
deriving DecidableEq

/-- `WcpRpcError`, by the members it is made of; `none` is `undefined`. -/
structure WcpRpcError where
  code : Option Json
  message : Option Json
  data : Option Json
deriving DecidableEq

/-- How a promise was settled. -/
inductive Outcome where
  | resolved (result : Option Json)
  | rejected (e : WcpRpcError)
deriving DecidableEq

/-- `RpcClient`; its socket is given by its place among the sockets that were made. -/
structure RpcClient where
  socket : Option Nat
  nextId : Nat
  pending : List Nat
  queue : List Request
  reconnectAttempt : Nat
  streamHandler : Bool
  closed : Bool

/-- The client in the program that uses it: the sockets and reconnect timers it made, the
promises that `call` returned, how they were settled, and the `nextId` of the last `close()`. -/
structure RpcWorld where
  client : RpcClient
  sockets : List WebSocket
  timers : Nat
  promises : List Nat
  outcomes : List (Nat × Outcome)
  closedAt : Nat

namespace RpcWorld

/-- `new RpcClient(url)`. -/
def init : RpcWorld where
  client := ⟨none, 1, [], [], 0, false, false⟩
  sockets := []
  timers := 0
  promises := []
  outcomes := []
  closedAt := 0

def readyState (w : RpcWorld) (s : Nat) : Option ReadyState :=
  w.sockets[s]?.map (·.readyState)

/-- `this.socket && this.socket.readyState === 1`. -/
def isOpen (w : RpcWorld) : Bool :=
  w.client.socket.any fun s => w.readyState s = some .opened

def setReadyState (w : RpcWorld) (s : Nat) (r : ReadyState) : RpcWorld :=
  { w with sockets := w.sockets.modify s fun ws => { ws with readyState := r } }

/-- `this.socket.send(msg)`. -/
def send (w : RpcWorld) (msg : Request) : RpcWorld :=
  match w.client.socket with
  | some s =>
      { w with sockets := w.sockets.modify s fun ws => { ws with sent := ws.sent ++ [msg] } }
  | none => w

/-- `connect`: the new socket replaces any other. -/
def connect (w : RpcWorld) : RpcWorld :=
  { w with
    client.socket := some w.sockets.length
    sockets := w.sockets ++ [⟨.connecting, []⟩] }

/-- The loop of `flushQueue`. -/
def flush (w : RpcWorld) : List Request → RpcWorld
  | [] => { w with client.queue := [] }
  | msg :: queue => (w.send msg).flush queue

def flushQueue (w : RpcWorld) : RpcWorld :=
  if w.isOpen then w.flush w.client.queue else w

/-- The `onopen` of a socket: it flushes the queue on the socket the client has now. -/
def onopen (w : RpcWorld) (s : Nat) : RpcWorld :=
  { w.setReadyState s .opened with client.reconnectAttempt := 0 }.flushQueue

def scheduleReconnect (w : RpcWorld) : RpcWorld :=
  { w with
    client.reconnectAttempt := w.client.reconnectAttempt + 1
    timers := w.timers + 1 }

/-- The `onclose` of a socket, whether or not the client has it still. -/
def onclose (w : RpcWorld) (s : Nat) : RpcWorld :=
  let w := { w.setReadyState s .closed with client.socket := none }
  if w.client.closed then w else w.scheduleReconnect

/-- The timer that `scheduleReconnect` set. -/
def reconnect (w : RpcWorld) : RpcWorld :=
  if w.timers = 0 then w
  else
    let w := { w with timers := w.timers - 1 }
    if w.client.closed then w else w.connect

/-! ## Messages -/

mutual

/-- Whether the conversion of a value to a string throws: an object does that has a `toString`
of its own, which is no function, and an array with such an element. -/
def stringThrows : Json → Bool
  | .obj ms => (ms.lookup "toString").isSome
  | .arr xs => anyThrows xs
  | _ => false

def anyThrows : List Json → Bool
  | [] => false
  | x :: xs => stringThrows x || anyThrows xs

end

/-- `new WcpRpcError(e.code, e.message, e.data)`; `none` where it throws. -/
def rpcError : Json → Option WcpRpcError
  | .null => none
  | .obj ms =>
      if (ms.lookup "message").any stringThrows then none
      else some ⟨ms.lookup "code", ms.lookup "message", ms.lookup "data"⟩
  | _ => some ⟨none, none, none⟩

/-- The number that a value is, a double. -/
def number : Json → Option FloatValue
  | .int i => some (.fin (roundDouble i))
  | .float f => some f.value
  | _ => none

/-- `this.pending.get(id)`. -/
def pendingGet (w : RpcWorld) (id : Json) : Option Nat :=
  w.client.pending.find? fun n => number id = some (.fin n)

/-- A promise is resolved or rejected. -/
def settle (w : RpcWorld) (id : Nat) (o : Outcome) : RpcWorld :=
  { w with outcomes := w.outcomes ++ [(id, o)] }

/-- What `handleMessage` does with the call that a response bears the id of. -/
def respond (w : RpcWorld) (id : Nat) (ms : List (String × Json)) : RpcWorld :=
  let w := { w with client.pending := w.client.pending.filter (· ≠ id) }
  match ms.lookup "error" with
  | some e =>
      match rpcError e with
      | some e => w.settle id (.rejected e)
      | none => w
  | none => w.settle id (.resolved (ms.lookup "result"))

/-- `handleMessage` of a parsed frame, `none` where `JSON.parse` throws.  A frame that is no
object has no `id`, or `in` throws on it. -/
def handleMessage (w : RpcWorld) : Option Json → RpcWorld
  | some (.obj ms) =>
      if (ms.lookup "event_type").isSome && w.client.streamHandler then w
      else
        match (ms.lookup "id").bind w.pendingGet with
        | some id => w.respond id ms
        | none => w
  | _ => w

/-! ## Calls -/

/-- The queue with a message at its end; a full one loses its first. -/
def enqueue (queue : List Request) (msg : Request) : List Request :=
  (if 64 ≤ queue.length then queue.tail else queue) ++ [msg]

/-- The promise of the next call. -/
def newPromise (w : RpcWorld) : RpcWorld :=
  { w with
    client.nextId := w.client.nextId + 1
    client.pending := w.client.pending ++ [w.client.nextId]
    promises := w.promises ++ [w.client.nextId] }

/-- `call`; `JSON.stringify` throws on parameters that are `none`. -/
def call (w : RpcWorld) (method : String) : Option Json → RpcWorld
  | none => { w with client.nextId := w.client.nextId + 1 }
  | some params =>
      let msg := ⟨w.client.nextId, method, params⟩
      let w := w.newPromise
      if w.isOpen then w.send msg
      else { w with client.queue := enqueue w.client.queue msg }

def closeSocket (w : RpcWorld) (s : Nat) : RpcWorld :=
  match w.readyState s with
  | some .connecting | some .opened => w.setReadyState s .closing
  | _ => w

/-- `this.socket?.close()`. -/
def shut (w : RpcWorld) : RpcWorld :=
  match w.client.socket with
  | some s => w.closeSocket s
  | none => w

def close (w : RpcWorld) : RpcWorld :=
  let w := { w with client.closed := true }.shut
  { w with client.pending := [], closedAt := w.client.nextId }

/-! ## Runs -/

/-- What can happen to a client; a socket starts to close when either end asks for it. -/
inductive Event where
  | onStreamEvent
  | call (method : String) (params : Option Json)
  | connect
  | opened (s : Nat)
  | message (s : Nat) (frame : Option Json)
  | closing (s : Nat)
  | dropped (s : Nat)
  | reconnect
  | close

def step (w : RpcWorld) : Event → RpcWorld
  | .onStreamEvent => { w with client.streamHandler := true }
  | .call method params => w.call method params
  | .connect => w.connect
  | .opened s => if w.readyState s = some .connecting then w.onopen s else w
  | .message s frame => if w.readyState s = some .opened then w.handleMessage frame else w
  | .closing s => w.closeSocket s
  | .dropped s =>
      match w.readyState s with
      | none | some .closed => w
      | some _ => w.onclose s
  | .reconnect => w.reconnect
  | .close => w.close

/-- The promises that were settled. -/
def settled (w : RpcWorld) : List Nat := w.outcomes.map (·.1)

/-- The calls whose request is in the queue. -/
def queued (w : RpcWorld) : List Nat := w.client.queue.map (·.id)

/-- The calls whose request was sent on the socket that the client has open. -/
def underWay (w : RpcWorld) : List Nat :=
  match w.client.socket.bind (w.sockets[·]?) with
  | some ws => if ws.readyState = .opened then ws.sent.map (·.id) else []
  | none => []

/-- No call is stranded: each is settled or queued or under way, and those that were made
before the last `close()` are settled. -/
structure Kept (w : RpcWorld) : Prop where
  carried : ∀ id ∈ w.promises, id ∈ w.settled ∨ id ∈ w.queued ∨ id ∈ w.underWay
  rejected : ∀ id ∈ w.promises, id < w.closedAt → id ∈ w.settled

/-- Every call is settled or queued: none is under way. -/
def Idle (w : RpcWorld) : Prop := ∀ id ∈ w.promises, id ∈ w.settled ∨ id ∈ w.queued

/-- Whether an event strands no call: the queue has room or its first call is settled, no call
is under way when a socket goes or is replaced, and none outstanding at `close()`. -/
def Admissible (w : RpcWorld) : Event → Prop
  | .call _ (some _) =>
      w.isOpen = true ∨ w.client.queue.length < 64 ∨
        ∀ r ∈ w.client.queue.head?, r.id ∈ w.settled
  | .connect => w.Idle
  | .reconnect => w.timers ≠ 0 → w.client.closed = false → w.Idle
  | .closing s => w.client.socket = some s → w.Idle
  | .dropped s =>
      match w.readyState s with
      | none | some .closed => True
      | some _ => w.Idle
  | .close => ∀ id ∈ w.promises, id ∈ w.settled
  | _ => True

variable {w w' : RpcWorld} {s : Nat}

/-! ## What is under way -/

theorem underWay_of_none (hsocket : w.client.socket = none) : w.underWay = [] := by
  rw [underWay, hsocket]
  rfl

theorem isOpen_iff : w.isOpen = true ↔ ∃ s, w.client.socket = some s ∧
    w.readyState s = some .opened := by
  unfold isOpen
  cases w.client.socket <;> simp

theorem underWay_of_closed (hclosed : w.isOpen = false) : w.underWay = [] := by
  unfold underWay
  cases hsocket : w.client.socket with
  | none => rfl
  | some s =>
      rw [Option.bind_some]
      cases hs : w.sockets[s]? with
      | none => rfl
      | some ws =>
          have hready : ws.readyState ≠ .opened := by
            intro hready
            have hopen : w.isOpen = true :=
              isOpen_iff.2 ⟨s, hsocket, by rw [readyState, hs, Option.map_some, hready]⟩
            rw [hclosed] at hopen
            cases hopen
          exact if_neg hready

theorem underWay_of_opened {ws : WebSocket} (hsocket : w.client.socket = some s)
    (hs : w.sockets[s]? = some ws) (hready : ws.readyState = .opened) :
    w.underWay = ws.sent.map (·.id) := by
  rw [underWay, hsocket, Option.bind_some, hs]
  exact if_pos hready

theorem isOpen_cases (hopen : w.isOpen = true) : ∃ s ws, w.client.socket = some s ∧
    w.sockets[s]? = some ws ∧ ws.readyState = .opened := by
  obtain ⟨s, hsocket, hready⟩ := isOpen_iff.1 hopen
  obtain ⟨ws, hs, hws⟩ := Option.map_eq_some_iff.1 hready
  exact ⟨s, ws, hsocket, hs, hws⟩

theorem send_of_socket (hsocket : w.client.socket = some s) (msg : Request) :
    w.send msg = { w with
      sockets := w.sockets.modify s fun ws => { ws with sent := ws.sent ++ [msg] } } := by
  rw [send, hsocket]

theorem flush_of_socket (hsocket : w.client.socket = some s) (msgs : List Request) :
    w.flush msgs = { w with
      client.queue := []
      sockets := w.sockets.modify s fun ws => { ws with sent := ws.sent ++ msgs } } := by
  induction msgs generalizing w with
  | nil =>
      have hsame : (fun ws : WebSocket => { ws with sent := ws.sent ++ [] }) = id := by
        funext ws
        rw [List.append_nil]
        rfl
      rw [flush, hsame, List.modify_id]
  | cons msg msgs ih =>
      rw [flush, send_of_socket hsocket, ih, List.modify_modify_eq]
      · simp only [Function.comp_def, List.append_assoc, List.singleton_append]
      · exact hsocket

theorem underWay_sent (hopen : w.isOpen = true) (hsocket : w'.client.socket = w.client.socket)
    {msgs : List Request} (hsockets : ∀ s, w.client.socket = some s → w'.sockets =
      w.sockets.modify s fun ws => { ws with sent := ws.sent ++ msgs }) :
    w'.underWay = w.underWay ++ msgs.map (·.id) := by
  obtain ⟨s, ws, hs, hws, hready⟩ := isOpen_cases hopen
  have hws' : w'.sockets[s]? = some { ws with sent := ws.sent ++ msgs } := by
    rw [hsockets s hs, List.getElem?_modify_eq, hws]
    rfl
  rw [underWay_of_opened hs hws hready, underWay_of_opened (hsocket.trans hs) hws' hready,
    List.map_append]

theorem underWay_send (hopen : w.isOpen = true) (msg : Request) :
    (w.send msg).underWay = w.underWay ++ [msg.id] := by
  obtain ⟨s, hs, -⟩ := isOpen_iff.1 hopen
  have hsend := send_of_socket hs msg
  refine @underWay_sent w (w.send msg) hopen (by rw [hsend]) [msg] fun t ht => ?_
  rw [hsend, Option.some.inj (hs.symm.trans ht)]

theorem underWay_flush (hopen : w.isOpen = true) (msgs : List Request) :
    (w.flush msgs).underWay = w.underWay ++ msgs.map (·.id) := by
  obtain ⟨s, hs, -⟩ := isOpen_iff.1 hopen
  have hflush := flush_of_socket hs msgs
  refine @underWay_sent w (w.flush msgs) hopen (by rw [hflush]) msgs fun t ht => ?_
  rw [hflush, Option.some.inj (hs.symm.trans ht)]

theorem underWay_connect : w.connect.underWay = [] := by
  refine underWay_of_closed ?_
  rw [← Bool.not_eq_true, isOpen_iff]
  rintro ⟨s, hsocket, hready⟩
  obtain rfl : w.sockets.length = s := Option.some.inj hsocket
  rw [readyState, connect, List.getElem?_concat_length] at hready
  cases hready

theorem underWay_setReadyState_ne (hsocket : w.client.socket ≠ some s) (r : ReadyState) :
    (w.setReadyState s r).underWay = w.underWay := by
  unfold underWay setReadyState
  dsimp only
  cases hcurrent : w.client.socket with
  | none => rfl
  | some t =>
      have hne : s ≠ t := fun h => hsocket (by rw [hcurrent, h])
      rw [Option.bind_some, Option.bind_some, List.getElem?_modify_ne _ _ hne]

theorem underWay_setReadyState_closed {r : ReadyState} (hsocket : w.client.socket = some s)
    (hr : r ≠ .opened) : (w.setReadyState s r).underWay = [] := by
  refine underWay_of_closed ?_
  rw [← Bool.not_eq_true, isOpen_iff]
  rintro ⟨t, ht, hready⟩
  obtain rfl : s = t := Option.some.inj (hsocket.symm.trans ht)
  rw [readyState, setReadyState, List.getElem?_modify_eq] at hready
  cases hs : w.sockets[s]? with
  | none => simp [hs] at hready
  | some ws => exact hr (by simpa [hs] using hready)

/-! ## What the events change -/

/-- Nothing was called or closed in between, and the queue was kept or flushed. -/
structure Quiet (w w' : RpcWorld) : Prop where
  promises : w'.promises = w.promises
  nextId : w'.client.nextId = w.client.nextId
  closedAt : w'.closedAt = w.closedAt
  queue : w'.client.queue = w.client.queue ∨ w'.client.queue = []
  settled : ∀ id ∈ w.settled, id ∈ w'.settled

theorem Quiet.refl : Quiet w w := ⟨rfl, rfl, rfl, .inl rfl, fun _ h => h⟩

theorem quiet_setReadyState (r : ReadyState) : Quiet w (w.setReadyState s r) :=
  ⟨rfl, rfl, rfl, .inl rfl, fun _ h => h⟩

theorem quiet_connect : Quiet w w.connect := ⟨rfl, rfl, rfl, .inl rfl, fun _ h => h⟩

theorem quiet_onclose : Quiet w (w.onclose s) := by
  unfold onclose scheduleReconnect
  dsimp only
  split <;> exact ⟨rfl, rfl, rfl, .inl rfl, fun _ h => h⟩

theorem quiet_closeSocket : Quiet w (w.closeSocket s) := by
  unfold closeSocket
  split
  · exact quiet_setReadyState .closing
  · exact quiet_setReadyState .closing
  · exact .refl

theorem quiet_shut : Quiet w { w with client.closed := true }.shut := by
  unfold shut
  split
  · have hq := @quiet_closeSocket { w with client.closed := true }
    exact ⟨hq.promises, hq.nextId, hq.closedAt, hq.queue, hq.settled⟩
  · exact ⟨rfl, rfl, rfl, .inl rfl, fun _ h => h⟩

theorem quiet_onopen : Quiet w (w.onopen s) := by
  unfold onopen flushQueue
  split
  · next hopen =>
      obtain ⟨t, hsocket, -⟩ := isOpen_iff.1 hopen
      rw [flush_of_socket hsocket]
      exact ⟨rfl, rfl, rfl, .inr rfl, fun _ h => h⟩
  · exact ⟨rfl, rfl, rfl, .inl rfl, fun _ h => h⟩

/-- A message changes what is pending and settles promises, and nothing else. -/
theorem handleMessage_cases (w : RpcWorld) (frame : Option Json) : ∃ pending new,
    w.handleMessage frame =
      { w with client.pending := pending, outcomes := w.outcomes ++ new } := by
  have hsame : ∃ pending new,
      w = { w with client.pending := pending, outcomes := w.outcomes ++ new } :=
    ⟨w.client.pending, [], by rw [List.append_nil]⟩
  unfold handleMessage
  split
  · split
    · exact hsame
    · split
      · next ms _ id _ =>
          unfold respond
          dsimp only
          split
          · split
            · exact ⟨_, [_], rfl⟩
            · exact ⟨w.client.pending.filter (· ≠ id), [], by rw [List.append_nil]⟩
          · exact ⟨_, [_], rfl⟩
      · exact hsame
  · exact hsame

theorem quiet_handleMessage (frame : Option Json) : Quiet w (w.handleMessage frame) := by
  obtain ⟨pending, new, heq⟩ := handleMessage_cases w frame
  rw [heq]
  refine ⟨rfl, rfl, rfl, .inl rfl, fun id hid => ?_⟩
  rw [settled, List.map_append]
  exact List.mem_append_left _ hid

theorem carried_handleMessage (frame : Option Json) :
    (w.handleMessage frame).queued = w.queued ∧
      (w.handleMessage frame).underWay = w.underWay := by
  obtain ⟨pending, new, heq⟩ := handleMessage_cases w frame
  rw [heq]
  exact ⟨rfl, rfl⟩

/-! ## Ids -/

/-- Ids are given out in order, and a call is queued at most once. -/
structure Ordered (w : RpcWorld) : Prop where
  fresh : ∀ id ∈ w.promises, id < w.client.nextId
  queued : ∀ id ∈ w.queued, id ∈ w.promises
  distinct : w.queued.Nodup
  closed : w.closedAt ≤ w.client.nextId

theorem ordered_init : init.Ordered where
  fresh := by simp [init]
  queued := by simp [init, RpcWorld.queued]
  distinct := by simp [init, RpcWorld.queued]
  closed := by simp [init]

theorem Ordered.quiet (ho : w.Ordered) (hq : Quiet w w') : w'.Ordered where
  fresh := by
    rw [hq.promises, hq.nextId]
    exact ho.fresh
  queued := by
    rw [hq.promises]
    rcases hq.queue with hqueue | hqueue
    · rw [RpcWorld.queued, hqueue]
      exact ho.queued
    · simp [RpcWorld.queued, hqueue]
  distinct := by
    rcases hq.queue with hqueue | hqueue
    · rw [RpcWorld.queued, hqueue]
      exact ho.distinct
    · simp [RpcWorld.queued, hqueue]
  closed := by
    rw [hq.closedAt, hq.nextId]
    exact ho.closed

theorem enqueue_room {queue : List Request} (hroom : queue.length < 64) (msg : Request) :
    enqueue queue msg = queue ++ [msg] := by
  rw [enqueue, if_neg (Nat.not_le_of_lt hroom)]

theorem enqueue_full {queue : List Request} (hfull : 64 ≤ queue.length) (msg : Request) :
    enqueue queue msg = queue.tail ++ [msg] := by
  rw [enqueue, if_pos hfull]

theorem enqueue_sublist (queue : List Request) (msg : Request) :
    (enqueue queue msg).Sublist (queue ++ [msg]) := by
  unfold enqueue
  split
  · exact (List.tail_sublist queue).append_right [msg]
  · exact .refl _

theorem ordered_newPromise (ho : w.Ordered) : w.newPromise.Ordered where
  fresh := by
    intro id hid
    rcases List.mem_append.1 hid with hid | hid
    · exact Nat.lt_succ_of_lt (ho.fresh id hid)
    · rw [List.mem_singleton.1 hid]
      exact Nat.lt_succ_self _
  queued id hid := List.mem_append_left _ (ho.queued id hid)
  distinct := ho.distinct
  closed := Nat.le_succ_of_le ho.closed

theorem ordered_enqueue (ho : w.Ordered) (method : String) (params : Json) :
    Ordered { w.newPromise with
      client.queue := enqueue w.client.queue ⟨w.client.nextId, method, params⟩ } := by
  have hsub := (enqueue_sublist w.client.queue ⟨w.client.nextId, method, params⟩).map (·.id)
  rw [List.map_append, List.map_singleton] at hsub
  refine ⟨(ordered_newPromise ho).fresh, fun id hid => ?_, ?_, (ordered_newPromise ho).closed⟩
  · rcases List.mem_append.1 (hsub.subset hid) with hid | hid
    · exact List.mem_append_left _ (ho.queued id hid)
    · exact List.mem_append_right _ hid
  · refine hsub.nodup ?_
    rw [← List.concat_eq_append, List.nodup_concat]
    exact ⟨fun hmem => Nat.lt_irrefl _ (ho.fresh _ (ho.queued _ hmem)), ho.distinct⟩

theorem quiet_send (msg : Request) : Quiet w (w.send msg) := by
  unfold send
  split <;> exact ⟨rfl, rfl, rfl, .inl rfl, fun _ h => h⟩

theorem ordered_call (ho : w.Ordered) (method : String) (params : Option Json) :
    (w.call method params).Ordered := by
  unfold call
  cases params with
  | none => exact ⟨fun id hid => Nat.lt_succ_of_lt (ho.fresh id hid), ho.queued, ho.distinct,
      Nat.le_succ_of_le ho.closed⟩
  | some params =>
      dsimp only
      split
      · exact (ordered_newPromise ho).quiet (quiet_send _)
      · exact ordered_enqueue ho method params

theorem ordered_close (ho : w.Ordered) : w.close.Ordered := by
  have hshut := ho.quiet (quiet_shut (w := w))
  unfold close
  exact ⟨hshut.fresh, hshut.queued, hshut.distinct, Nat.le_refl _⟩

theorem ordered_step (ho : w.Ordered) (e : Event) : (w.step e).Ordered := by
  cases e with
  | onStreamEvent => exact ⟨ho.fresh, ho.queued, ho.distinct, ho.closed⟩
  | call method params => exact ordered_call ho method params
  | connect => exact ho.quiet quiet_connect
  | opened s =>
      unfold step
      dsimp only
      split
      · exact ho.quiet quiet_onopen
      · exact ho
  | message s frame =>
      unfold step
      dsimp only
      split
      · exact ho.quiet (quiet_handleMessage frame)
      · exact ho
  | closing s => exact ho.quiet quiet_closeSocket
  | dropped s =>
      unfold step
      dsimp only
      split
      · exact ho
      · exact ho
      · exact ho.quiet quiet_onclose
  | reconnect =>
      unfold step reconnect
      dsimp only
      split
      · exact ho
      · split
        · exact ⟨ho.fresh, ho.queued, ho.distinct, ho.closed⟩
        · exact ⟨ho.fresh, ho.queued, ho.distinct, ho.closed⟩
  | close => exact ordered_close ho

/-! ## What the events strand -/

/-- With nothing under way, every call of a state that strands none is settled or queued. -/
theorem Kept.idle (hk : w.Kept) (hnone : w.underWay = []) : w.Idle := by
  intro id hid
  rcases hk.carried id hid with hsettled | hqueued | hway
  · exact .inl hsettled
  · exact .inr hqueued
  · rw [hnone] at hway
    cases hway

theorem Kept.quiet (hk : w.Kept) (hq : Quiet w w')
    (hcarried : ∀ id, id ∈ w.queued ∨ id ∈ w.underWay →
      id ∈ w'.queued ∨ id ∈ w'.underWay) : w'.Kept where
  carried := by
    rw [hq.promises]
    intro id hid
    rcases hk.carried id hid with hsettled | hrest
    · exact .inl (hq.settled id hsettled)
    · exact .inr (hcarried id hrest)
  rejected := by
    rw [hq.promises, hq.closedAt]
    intro id hid hlt
    exact hq.settled id (hk.rejected id hid hlt)

/-- The client has lost its socket, and nothing else changed. -/
structure Lost (w w' : RpcWorld) : Prop where
  promises : w'.promises = w.promises
  settled : w'.settled = w.settled
  queued : w'.queued = w.queued
  closedAt : w'.closedAt = w.closedAt
  underWay : w'.underWay = []

/-- A socket is lost without stranding a call exactly if none is under way. -/
theorem Lost.kept_iff_idle (hl : Lost w w') (hk : w.Kept) : w'.Kept ↔ w.Idle := by
  constructor
  · intro hkept
    have hidle := hkept.idle hl.underWay
    unfold Idle at hidle
    rw [hl.promises, hl.settled, hl.queued] at hidle
    exact hidle
  · intro hidle
    refine ⟨?_, ?_⟩
    · rw [hl.promises, hl.settled, hl.queued]
      intro id hid
      exact (hidle id hid).imp_right .inl
    · rw [hl.promises, hl.settled, hl.closedAt]
      exact hk.rejected

theorem lost_connect : Lost w w.connect := ⟨rfl, rfl, rfl, rfl, underWay_connect⟩

theorem lost_onclose : Lost w (w.onclose s) := by
  unfold onclose scheduleReconnect
  dsimp only
  split <;> exact ⟨rfl, rfl, rfl, rfl, underWay_of_none rfl⟩

theorem kept_closeSocket_iff (hk : w.Kept) :
    (w.closeSocket s).Kept ↔ (w.client.socket = some s → w.Idle) := by
  have hchanged : (w.setReadyState s .closing).Kept ↔ (w.client.socket = some s → w.Idle) := by
    by_cases hsocket : w.client.socket = some s
    · have hlost : Lost w (w.setReadyState s .closing) :=
        ⟨rfl, rfl, rfl, rfl, underWay_setReadyState_closed hsocket nofun⟩
      rw [hlost.kept_iff_idle hk]
      exact ⟨fun hidle _ => hidle, fun h => h hsocket⟩
    · have hkept : (w.setReadyState s .closing).Kept := by
        refine hk.quiet (quiet_setReadyState .closing) fun id hid => ?_
        rw [underWay_setReadyState_ne hsocket]
        exact hid
      exact ⟨fun _ h => absurd h hsocket, fun _ => hkept⟩
  unfold closeSocket
  split
  · exact hchanged
  · exact hchanged
  · next hready hopened =>
      refine ⟨fun _ hsocket => hk.idle (underWay_of_closed ?_), fun _ => hk⟩
      rw [← Bool.not_eq_true, isOpen_iff]
      rintro ⟨t, ht, hopen⟩
      obtain rfl : s = t := Option.some.inj (hsocket.symm.trans ht)
      exact hopened hopen

theorem kept_onopen (hk : w.Kept) (hready : w.readyState s = some .connecting) :
    (w.onopen s).Kept := by
  have hway : ∀ id ∈ w.underWay, id ∈ (w.setReadyState s .opened).underWay := by
    intro id hid
    by_cases hsocket : w.client.socket = some s
    · have hclosed : w.isOpen = false := by
        rw [← Bool.not_eq_true, isOpen_iff]
        rintro ⟨t, ht, hopen⟩
        obtain rfl : s = t := Option.some.inj (hsocket.symm.trans ht)
        rw [hready] at hopen
        cases hopen
      rw [underWay_of_closed hclosed] at hid
      cases hid
    · rw [underWay_setReadyState_ne hsocket]
      exact hid
  refine hk.quiet quiet_onopen fun id hid => ?_
  unfold onopen flushQueue
  split
  · next hopen =>
      -- what was queued is under way on the open socket
      right
      rw [underWay_flush hopen]
      rcases hid with hid | hid
      · exact List.mem_append_right _ hid
      · exact List.mem_append_left _ (hway id hid)
  · exact hid.imp_right (hway id)

theorem settled_shut : { w with client.closed := true }.shut.settled = w.settled := by
  unfold shut closeSocket
  split
  · split <;> rfl
  · rfl

theorem kept_close_iff (ho : w.Ordered) :
    w.close.Kept ↔ ∀ id ∈ w.promises, id ∈ w.settled := by
  have hq := @quiet_shut w
  have hsettled : w.close.settled = w.settled := settled_shut
  have hpromises : w.close.promises = w.promises := hq.promises
  have hclosedAt : w.close.closedAt = w.client.nextId := hq.nextId
  constructor
  · intro hkept id hid
    rw [← hsettled]
    exact hkept.rejected id (by rw [hpromises]; exact hid) (by
      rw [hclosedAt]
      exact ho.fresh id hid)
  · intro hall
    refine ⟨?_, ?_⟩
    · rw [hpromises, hsettled]
      exact fun id hid => .inl (hall id hid)
    · rw [hpromises, hsettled]
      exact fun id hid _ => hall id hid

theorem kept_send (ho : w.Ordered) (hk : w.Kept) (hopen : w.isOpen = true) {msg : Request}
    (hmsg : msg.id = w.client.nextId) : (w.newPromise.send msg).Kept := by
  have hq := @quiet_send w.newPromise msg
  obtain ⟨s, hs, -⟩ := isOpen_iff.1 hopen
  have hsettled : (w.newPromise.send msg).settled = w.settled := by
    rw [send_of_socket (w := w.newPromise) hs]
    rfl
  have hqueued : (w.newPromise.send msg).queued = w.queued := by
    rw [send_of_socket (w := w.newPromise) hs]
    rfl
  have hway : (w.newPromise.send msg).underWay = w.underWay ++ [msg.id] :=
    underWay_send (w := w.newPromise) hopen msg
  refine ⟨?_, ?_⟩
  · rw [hq.promises, hsettled, hqueued, hway]
    intro id hid
    rcases List.mem_append.1 hid with hid | hid
    · exact (hk.carried id hid).imp_right fun h => h.imp_right (List.mem_append_left _)
    · rw [List.mem_singleton.1 hid, ← hmsg]
      exact .inr (.inr (List.mem_append_right _ (List.mem_singleton_self _)))
  · rw [hq.promises, hq.closedAt, hsettled]
    intro id hid hlt
    rcases List.mem_append.1 hid with hid | hid
    · exact hk.rejected id hid hlt
    · rw [List.mem_singleton.1 hid] at hlt
      exact absurd hlt (Nat.not_lt.2 ho.closed)

/-- A call that has to wait strands none exactly if the queue has room or its first call is
settled. -/
theorem kept_enqueue_iff (ho : w.Ordered) (hk : w.Kept) (hclosed : w.isOpen = false)
    {msg : Request} (hmsg : msg.id = w.client.nextId) :
    Kept { w.newPromise with client.queue := enqueue w.client.queue msg } ↔
      w.client.queue.length < 64 ∨ ∀ r ∈ w.client.queue.head?, r.id ∈ w.settled := by
  have hidle := hk.idle (underWay_of_closed hclosed)
  have hway : underWay { w.newPromise with client.queue := enqueue w.client.queue msg } = [] :=
    underWay_of_closed hclosed
  constructor
  · intro hkept
    by_cases hroom : w.client.queue.length < 64
    · exact .inl hroom
    · right
      intro r hr
      obtain ⟨queue, hqueue⟩ : ∃ queue, w.client.queue = r :: queue := by
        cases hq : w.client.queue with
        | nil => rw [hq] at hr; cases hr
        | cons r' queue =>
            rw [hq] at hr
            exact ⟨queue, by rw [Option.some.inj hr]⟩
      have hdistinct := ho.distinct
      rw [queued, hqueue, List.map_cons, List.nodup_cons] at hdistinct
      have hmem : r.id ∈ w.promises := by
        refine ho.queued r.id ?_
        rw [queued, hqueue]
        exact List.mem_cons_self
      -- the first request is no longer queued, and its id is not the new one
      rcases hkept.idle hway r.id (List.mem_append_left _ hmem) with hsettled | hin
      · exact hsettled
      · rw [queued, enqueue_full (Nat.not_lt.1 hroom), hqueue, List.tail_cons, List.map_append,
          List.map_singleton, hmsg] at hin
        rcases List.mem_append.1 hin with hin | hin
        · exact absurd hin hdistinct.1
        · have hlt := ho.fresh r.id hmem
          rw [List.mem_singleton.1 hin] at hlt
          exact absurd hlt (Nat.lt_irrefl _)
  · intro hfits
    have hcarried : ∀ id ∈ w.promises, id ∈ w.settled ∨
        id ∈ (enqueue w.client.queue msg).map (·.id) := by
      intro id hid
      rcases hidle id hid with hsettled | hin
      · exact .inl hsettled
      · by_cases hroom : w.client.queue.length < 64
        · rw [enqueue_room hroom, List.map_append]
          exact .inr (List.mem_append_left _ hin)
        · have hhead := hfits.resolve_left hroom
          rw [enqueue_full (Nat.not_lt.1 hroom), List.map_append]
          cases hqueue : w.client.queue with
          | nil => rw [queued, hqueue] at hin; cases hin
          | cons r queue =>
              rw [queued, hqueue, List.map_cons] at hin
              rcases List.mem_cons.1 hin with rfl | hin
              · exact .inl (hhead r (by rw [hqueue]; rfl))
              · exact .inr (List.mem_append_left _ hin)
    refine ⟨fun id hid => ?_, fun id hid hlt => ?_⟩
    · rcases List.mem_append.1 hid with hid | hid
      · exact (hcarried id hid).imp_right .inl
      · refine .inr (.inl ?_)
        rw [List.mem_singleton.1 hid, ← hmsg, queued, enqueue, List.map_append]
        exact List.mem_append_right _ (List.mem_singleton_self _)
    · rcases List.mem_append.1 hid with hid | hid
      · exact hk.rejected id hid hlt
      · rw [List.mem_singleton.1 hid] at hlt
        exact absurd hlt (Nat.not_lt.2 ho.closed)

theorem kept_call_iff (ho : w.Ordered) (hk : w.Kept) (method : String) (params : Option Json) :
    (w.call method params).Kept ↔ w.Admissible (.call method params) := by
  cases params with
  | none => exact ⟨fun _ => trivial, fun _ => ⟨hk.carried, hk.rejected⟩⟩
  | some params =>
      unfold call Admissible
      dsimp only
      cases hopen : w.isOpen with
      | true =>
          rw [if_pos (show w.newPromise.isOpen = true from hopen)]
          exact ⟨fun _ => .inl rfl, fun _ => kept_send ho hk hopen rfl⟩
      | false =>
          rw [if_neg (by rw [show w.newPromise.isOpen = false from hopen]; exact nofun)]
          have hiff := @kept_enqueue_iff w ho hk hopen ⟨w.client.nextId, method, params⟩ rfl
          exact hiff.trans ⟨.inr, fun h => h.resolve_left nofun⟩

theorem kept_step_iff (ho : w.Ordered) (hk : w.Kept) (e : Event) :
    (w.step e).Kept ↔ w.Admissible e := by
  cases e with
  | onStreamEvent => exact ⟨fun _ => trivial, fun _ => ⟨hk.carried, hk.rejected⟩⟩
  | call method params => exact kept_call_iff ho hk method params
  | connect => exact lost_connect.kept_iff_idle hk
  | opened s =>
      refine ⟨fun _ => trivial, fun _ => ?_⟩
      unfold step
      dsimp only
      split
      · next hready => exact kept_onopen hk hready
      · exact hk
  | message s frame =>
      refine ⟨fun _ => trivial, fun _ => ?_⟩
      unfold step
      dsimp only
      split
      · refine hk.quiet (quiet_handleMessage frame) fun id hid => ?_
        obtain ⟨hqueued, hway⟩ := @carried_handleMessage w frame
        rw [hqueued, hway]
        exact hid
      · exact hk
  | closing s => exact kept_closeSocket_iff hk
  | dropped s =>
      unfold step Admissible
      dsimp only
      split
      · exact ⟨fun _ => trivial, fun _ => hk⟩
      · exact ⟨fun _ => trivial, fun _ => hk⟩
      · exact lost_onclose.kept_iff_idle hk
  | reconnect =>
      unfold step reconnect Admissible
      dsimp only
      split
      · next htimers => exact ⟨fun _ h => absurd htimers h, fun _ => hk⟩
      · next htimers =>
          have hfired : Kept { w with timers := w.timers - 1 } := ⟨hk.carried, hk.rejected⟩
          cases hclosed : w.client.closed with
          | true => exact ⟨fun _ _ h => (nofun : true ≠ false) h |>.elim, fun _ => hfired⟩
          | false =>
              have hiff := (@lost_connect { w with timers := w.timers - 1 }).kept_iff_idle hfired
              exact ⟨fun h _ _ => hiff.1 h, fun h => hiff.2 (h htimers rfl)⟩
  | close => exact kept_close_iff ho

/-- A run strands no call at any moment exactly if each of its events is admissible where it
comes. -/
theorem calls_kept_iff (events : List Event) :
    (∀ before, before <+: events → (run step init before).Kept) ↔
      ∀ before e after, events = before ++ e :: after →
        (run step init before).Admissible e := by
  refine @run_good_iff _ _ step (fun w => w.Ordered ∧ w.Kept) Kept Admissible ?_ ?_ ?_ init ?_
    events
  · exact fun w e hinv hok => ⟨ordered_step hinv.1 e, (kept_step_iff hinv.1 hinv.2 e).2 hok⟩
  · exact fun w hinv => hinv.2
  · exact fun w e hinv hbad hkept => hbad ((kept_step_iff hinv.1 hinv.2 e).1 hkept)
  · exact ⟨ordered_init, ⟨nofun, nofun⟩⟩

/-- Calls are stranded under way when the socket goes, outstanding at `close()`, and first of 65
that wait. -/
theorem calls_stranded :
    ¬ (run step init [.connect, .opened 0, .call "tasks/claim" (some (.obj [])),
        .dropped 0]).Kept ∧
      ¬ (run step init [.connect, .opened 0, .call "tasks/claim" (some (.obj [])),
        .close]).Kept ∧
      ¬ (run step init (List.replicate 65 (.call "tasks/claim" (some (.obj []))))).Kept := by
  refine ⟨fun hkept => ?_, fun hkept => ?_, fun hkept => ?_⟩
  · exact absurd (hkept.carried 1 (by decide +kernel)) (by decide +kernel)
  · exact absurd (hkept.carried 1 (by decide +kernel)) (by decide +kernel)
  · exact absurd (hkept.carried 1 (by decide +kernel)) (by decide +kernel)

end RpcWorld

end Wcp.Sdk
