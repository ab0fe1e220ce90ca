import Wcp.Base.Rounding
import Wcp.Sdk.RpcOrder
/-!
# The RPC client of the web app

The client of `pwa/wcp` queues requests, not texts: `JSON.stringify` runs when a request is
sent, and one on which it throws ends the flush that met it, so that the rest of the queue
waits for the next socket while later calls go out at once.  Nothing is ever sent twice
(`requests_once`), and without such requests the order of the calls is kept.

The constructor connects, and whatever closes a socket sets a timer that makes the next:
there is always one socket that lives or one timer that is set, also after `close()`.
So a call is settled in some continuation exactly if it is still pending
(`promise_settles_iff`).
-/

namespace Wcp.Sdk.Pwa

open Wcp.Base

/-! ## The client -/

/-- `JsonRpcRequest`; its parameters are `none` where `JSON.stringify` throws on them. -/
structure JsonRpcRequest where
  id : Nat
  method : String
  params : Option Json
deriving DecidableEq

/-- How the promise of a call was settled; `threw` if `JSON.stringify` threw in it. -/
inductive Settlement where
  | resolved (result : Option Json)
  | rejected (e : WcpRpcError)
  | threw
deriving DecidableEq

/-- `WcpRpcClient` in its websocket mode; the handlers are told apart by numbers. -/
structure WcpRpcClient where
  socket : Option Nat
  nextId : Nat
  pending : List Nat
  queue : List JsonRpcRequest
  reconnectAttempt : Nat
  streamHandlers : List Nat

/-- What is handed to a stream handler. -/
structure StreamEvent where
  eventType : Json
  payload : Option Json
deriving DecidableEq

/-- The client in its page: the sockets and timers it made, the promises that `call` returned
and how they were settled, and what the stream handlers were called with. -/
structure Page where
  client : WcpRpcClient
  sockets : List WebSocket
  timers : Nat
  promises : List Nat
  outcomes : List (Nat × Settlement)
  delivered : List (Nat × StreamEvent)

namespace Page

def readyState (w : Page) (s : Nat) : Option ReadyState := w.sockets[s]?.map (·.readyState)

/-- `this.socket && this.socket.readyState === 1`. -/
def isOpen (w : Page) : Bool := w.client.socket.any fun s => w.readyState s = some .opened

def setReadyState (w : Page) (s : Nat) (r : ReadyState) : Page :=
  { w with sockets := w.sockets.modify s fun ws => { ws with readyState := r } }

/-- `this.socket.send(JSON.stringify(req))`, of what the text is of. -/
def send (w : Page) (msg : Request) : Page :=
  match w.client.socket with
  | some s =>
      { w with sockets := w.sockets.modify s fun ws => { ws with sent := ws.sent ++ [msg] } }
  | none => w

def connect (w : Page) : Page :=
  { w with
    client.socket := some w.sockets.length
    sockets := w.sockets ++ [⟨.connecting, []⟩] }

/-- `new WcpRpcClient({ url })`. -/
def init : Page := connect ⟨⟨none, 1, [], [], 0, []⟩, [], 0, [], [], []⟩

/-- The loop of `flushQueue`; it ends where `JSON.stringify` throws. -/
def flush (w : Page) : List JsonRpcRequest → Page
  | [] => { w with client.queue := [] }
  | req :: queue =>
      match req.params with
      | some params => (w.send ⟨req.id, req.method, params⟩).flush queue
      | none => { w with client.queue := queue }

def flushQueue (w : Page) : Page := if w.isOpen then w.flush w.client.queue else w

/-- The `onopen` of a socket. -/
def onopen (w : Page) (s : Nat) : Page :=
  { w.setReadyState s .opened with client.reconnectAttempt := 0 }.flushQueue

def scheduleReconnect (w : Page) : Page :=
  { w with
    client.reconnectAttempt := w.client.reconnectAttempt + 1
    timers := w.timers + 1 }

/-- The `onclose` of a socket: the client keeps it, and connects again. -/
def onclose (w : Page) (s : Nat) : Page := (w.setReadyState s .closed).scheduleReconnect

/-- The timer that `scheduleReconnect` set. -/
def reconnect (w : Page) : Page :=
  if w.timers = 0 then w else { w with timers := w.timers - 1 }.connect

def closeSocket (w : Page) (s : Nat) : Page :=
  match w.readyState s with
  | some .connecting | some .opened => w.setReadyState s .closing
  | _ => w

/-- `this.socket?.close()`, which is also the `onerror` of every socket. -/
def shut (w : Page) : Page :=
  match w.client.socket with
  | some s => w.closeSocket s
  | none => w

/-! ## Messages -/

/-- Whether a condition on a value holds. -/
def truthy : Json → Bool
  | .null => false
  | .bool b => b
  | .int i => i ≠ 0
  | .float f => f.value ≠ .fin 0
  | .str s => s ≠ ""
  | .arr _ | .obj _ => true

/-- `this.pending.get(resp.id)`. -/
def pendingGet (w : Page) (id : Json) : Option Nat :=
  w.client.pending.find? fun n => RpcWorld.number id = some (.fin n)

/-- A promise is resolved or rejected; the first time counts. -/
def settle (w : Page) (id : Nat) (o : Settlement) : Page :=
  if id ∈ w.outcomes.map (·.1) then w else { w with outcomes := w.outcomes ++ [(id, o)] }

/-- What `onmessage` does with the call that a response bears the id of. -/
def respond (w : Page) (id : Nat) (ms : List (String × Json)) : Page :=
  let w := { w with client.pending := w.client.pending.filter (· ≠ id) }
  match ms.lookup "error" with
  | some e =>
      match RpcWorld.rpcError e with
      | some e => w.settle id (.rejected e)
      | none => w
  | none => w.settle id (.resolved (ms.lookup "result"))

/-- The `onmessage` of a parsed frame, `none` where `JSON.parse` throws.  A frame that is no
object has no `id`, or `in` throws on it. -/
def onmessage (w : Page) : Option Json → Page
  | some (.obj ms) =>
      match (ms.lookup "event_type").filter truthy with
      | some eventType =>
          let e : StreamEvent := ⟨eventType, ms.lookup "payload"⟩
          { w with delivered := w.delivered ++ w.client.streamHandlers.map fun h => (h, e) }
      | none =>
          match (ms.lookup "id").bind w.pendingGet with
          | some id => w.respond id ms
          | none => w
  | _ => w

/-! ## Calls -/

/-- The queue with a request at its end; a full one loses its first. -/
def enqueue (queue : List JsonRpcRequest) (req : JsonRpcRequest) : List JsonRpcRequest :=
  (if 64 ≤ queue.length then queue.tail else queue) ++ [req]

/-- The promise of the next call. -/
def newPromise (w : Page) : Page :=
  { w with
    client.nextId := w.client.nextId + 1
    client.pending := w.client.pending ++ [w.client.nextId]
    promises := w.promises ++ [w.client.nextId] }

def call (w : Page) (method : String) (params : Option Json) : Page :=
  let id := w.client.nextId
  let w := w.newPromise
  if w.isOpen then
    match params with
    | some params => w.send ⟨id, method, params⟩
    | none => w.settle id .threw
  else { w with client.queue := enqueue w.client.queue ⟨id, method, params⟩ }

def close (w : Page) : Page :=
  let w := w.shut
  { w with client.streamHandlers := [], client.pending := [] }

/-! ## Runs -/

/-- What can happen to a client; a socket starts to close when either end asks for it. -/
inductive Event where
  | onStreamEvent (handler : Nat)
  | unsubscribe (handler : Nat)
  | call (method : String) (params : Option Json)
  | opened (s : Nat)
  | message (s : Nat) (frame : Option Json)
  | errored
  | closing (s : Nat)
  | dropped (s : Nat)
  | reconnect
  | close

def step (w : Page) : Event → Page
  | .onStreamEvent h => { w with client.streamHandlers :=
      if h ∈ w.client.streamHandlers then w.client.streamHandlers
      else w.client.streamHandlers ++ [h] }
  | .unsubscribe h =>
      { w with client.streamHandlers := w.client.streamHandlers.filter (· ≠ h) }
  | .call method params => w.call method params
  | .opened s => if w.readyState s = some .connecting then w.onopen s else w
  | .message s frame => if w.readyState s = some .opened then w.onmessage frame else w
  | .errored => w.shut
  | .closing s => w.closeSocket s
  | .dropped s =>
      match w.readyState s with
      | none | some .closed => w
      | some _ => w.onclose s
  | .reconnect => w.reconnect
  | .close => w.close

/-- The page after a run of events. -/
def after (events : List Event) : Page := run step init events

/-- The promises that were settled. -/
def settled (w : Page) : List Nat := w.outcomes.map (·.1)

/-- The requests sent on all sockets, in the order of the sockets. -/
def wire (w : Page) : List Request := w.sockets.flatMap (·.sent)

/-- A request that was sent, as it was queued. -/
def ofSent (r : Request) : JsonRpcRequest := ⟨r.id, r.method, some r.params⟩

/-- The requests that the calls of a run ask for, the next id given. -/
def requests (nextId : Nat) : List Event → List JsonRpcRequest
  | [] => []
  | .call method params :: events => ⟨nextId, method, params⟩ :: requests (nextId + 1) events
  | _ :: events => requests nextId events

/-- The client's requests as a queue in front of a line. -/
def line (w : Page) (asked : List JsonRpcRequest) : SendQueue JsonRpcRequest :=
  ⟨w.wire.map ofSent, w.client.queue, asked⟩

variable {w w' : Page} {s : Nat} {older : List WebSocket} {ws : WebSocket}
  {asked : List JsonRpcRequest}

/-! ## Sockets and timers -/

/-- The client has the last socket, those before it are closed, and a timer is set exactly if
the last is closed too. -/
structure Alive (older : List WebSocket) (ws : WebSocket) (w : Page) : Prop where
  sockets : w.sockets = older ++ [ws]
  socket : w.client.socket = some older.length
  older : ∀ o ∈ older, o.readyState = .closed
  timers : w.timers = if ws.readyState = .closed then 1 else 0

theorem alive_init : Alive [] ⟨.connecting, []⟩ init where
  sockets := rfl
  socket := rfl
  older o h := by cases h
  timers := rfl

theorem Alive.same (h : Alive older ws w) (hsockets : w'.sockets = w.sockets)
    (hsocket : w'.client.socket = w.client.socket) (htimers : w'.timers = w.timers) :
    Alive older ws w' :=
  ⟨hsockets.trans h.sockets, hsocket.trans h.socket, h.older, htimers.trans h.timers⟩

theorem isOpen_same (hsockets : w'.sockets = w.sockets)
    (hsocket : w'.client.socket = w.client.socket) : w'.isOpen = w.isOpen := by
  unfold isOpen readyState
  rw [hsockets, hsocket]

theorem Alive.readyState_last (h : Alive older ws w) :
    w.readyState older.length = some ws.readyState := by
  rw [readyState, h.sockets, List.getElem?_concat_length, Option.map_some]

theorem Alive.isOpen_iff (h : Alive older ws w) : w.isOpen = true ↔ ws.readyState = .opened := by
  rw [isOpen, h.socket, Option.any_some, h.readyState_last, decide_eq_true_iff,
    Option.some.injEq]

theorem Alive.last_of_live (h : Alive older ws w) {r : ReadyState} (hs : w.readyState s = some r)
    (hr : r ≠ .closed) : s = older.length := by
  rw [readyState, h.sockets] at hs
  obtain ⟨o, ho, rfl⟩ := Option.map_eq_some_iff.1 hs
  have hlength : s < (older ++ [ws]).length := (List.getElem?_eq_some_iff.1 ho).1
  rw [List.length_append, List.length_singleton] at hlength
  by_contra hne
  have hlt : s < older.length := by omega
  rw [List.getElem?_append_left hlt] at ho
  exact hr (h.older o (List.mem_of_getElem? ho))

theorem Alive.modify_last (h : Alive older ws w) (f : WebSocket → WebSocket) :
    w.sockets.modify older.length f = older ++ [f ws] := by
  rw [h.sockets]
  clear h
  induction older with
  | nil => rfl
  | cons o older ih => rw [List.cons_append, List.length_cons, List.modify_succ_cons, ih]; rfl

theorem Alive.wire (h : Alive older ws w) : w.wire = older.flatMap (·.sent) ++ ws.sent := by
  rw [Page.wire, h.sockets, List.flatMap_append, List.flatMap_singleton]

theorem Alive.setReadyState (h : Alive older ws w) {r : ReadyState}
    (hr : r = .closed ↔ ws.readyState = .closed) :
    Alive older { ws with readyState := r } (w.setReadyState older.length r) := by
  refine ⟨h.modify_last _, h.socket, h.older, ?_⟩
  show w.timers = if r = .closed then 1 else 0
  rw [h.timers]
  exact if_congr hr.symm rfl rfl

theorem Alive.send (h : Alive older ws w) (msg : Request) :
    w.send msg =
      { w with sockets := older ++ [{ ws with sent := ws.sent ++ [msg] }] } := by
  rw [Page.send, h.socket]
  dsimp only
  rw [h.modify_last]

theorem Alive.send_alive (h : Alive older ws w) (msg : Request) :
    Alive older { ws with sent := ws.sent ++ [msg] } (w.send msg) := by
  rw [h.send]
  exact ⟨rfl, h.socket, h.older, h.timers⟩

theorem Alive.flush_cases (h : Alive older ws w) (queue : List JsonRpcRequest) :
    ∃ sent rest, w.flush queue = { w with
      client.queue := rest
      sockets := older ++ [{ ws with sent := sent }] } := by
  induction queue generalizing w ws with
  | nil => exact ⟨ws.sent, [], by rw [flush, ← h.sockets]⟩
  | cons req queue ih =>
      unfold flush
      cases req.params with
      | none => exact ⟨ws.sent, queue, by rw [← h.sockets]⟩
      | some params =>
          obtain ⟨sent, rest, heq⟩ := ih (h.send_alive ⟨req.id, req.method, params⟩)
          refine ⟨sent, rest, ?_⟩
          dsimp only
          rw [heq, h.send]

/-- The client as `onopen` finds it. -/
def opening (w : Page) (s : Nat) : Page :=
  { w.setReadyState s .opened with client.reconnectAttempt := 0 }

theorem Alive.opening (h : Alive older ws w) (hready : ws.readyState = .connecting) :
    Alive older { ws with readyState := .opened } (w.opening older.length) :=
  (h.setReadyState (by simp [hready])).same rfl rfl rfl

theorem Alive.onopen (h : Alive older ws w) (hready : ws.readyState = .connecting) :
    w.onopen older.length = (w.opening older.length).flush w.client.queue := by
  have hopen : (w.opening older.length).isOpen = true := (h.opening hready).isOpen_iff.2 rfl
  show (w.opening older.length).flushQueue = _
  rw [flushQueue, if_pos hopen]
  rfl

/-! ## What a step does -/

/-- Nothing was called in between: nothing or a flush happened to the queue, and only what was
pending was settled. -/
structure Moved (w w' : Page) : Prop where
  alive : ∃ older ws, Alive older ws w'
  nextId : w'.client.nextId = w.client.nextId
  promises : w'.promises = w.promises
  pending : ∀ id ∈ w'.client.pending, id ∈ w.client.pending
  settled : ∀ id ∈ w'.settled, id ∈ w.settled ∨ id ∈ w.client.pending
  line : (w'.wire = w.wire ∧ w'.client.queue = w.client.queue ∧
      (w'.isOpen = true → w.isOpen = true)) ∨
    ∃ older ws opened, Alive older ws opened ∧ opened.wire = w.wire ∧
      w'.wire = (opened.flush w.client.queue).wire ∧
      w'.client.queue = (opened.flush w.client.queue).client.queue

theorem Moved.refl (h : Alive older ws w) : Moved w w where
  alive := ⟨older, ws, h⟩
  nextId := rfl
  promises := rfl
  pending _ hid := hid
  settled _ hid := .inl hid
  line := .inl ⟨rfl, rfl, fun h => h⟩

theorem Moved.sockets {older' : List WebSocket} {ws' : WebSocket} (h : Alive older ws w)
    (h' : Alive older' ws' w') (hnextId : w'.client.nextId = w.client.nextId)
    (hpromises : w'.promises = w.promises)
    (hpending : w'.client.pending = w.client.pending) (houtcomes : w'.outcomes = w.outcomes)
    (hqueue : w'.client.queue = w.client.queue)
    (hsent : older'.flatMap (·.sent) ++ ws'.sent = older.flatMap (·.sent) ++ ws.sent)
    (hopen : ws'.readyState = .opened → ws.readyState = .opened) : Moved w w' where
  alive := ⟨older', ws', h'⟩
  nextId := hnextId
  promises := hpromises
  pending id hid := hpending ▸ hid
  settled id hid := .inl (by rw [Page.settled, houtcomes] at hid; exact hid)
  line := by
    refine .inl ⟨?_, hqueue, ?_⟩
    · rw [h'.wire, h.wire, hsent]
    · rw [h'.isOpen_iff, h.isOpen_iff]
      exact hopen

theorem Alive.closeSocket (h : Alive older ws w) (s : Nat) : Moved w (w.closeSocket s) ∧
    (w.closeSocket s).client = w.client ∧ (w.closeSocket s).outcomes = w.outcomes := by
  have hlive : ∀ r, w.readyState s = some r → (r = .connecting ∨ r = .opened) →
      Moved w (w.setReadyState s .closing) := by
    intro r hs hr
    obtain rfl := h.last_of_live hs (by rcases hr with rfl | rfl <;> simp)
    have hws : ws.readyState = r := Option.some.inj (h.readyState_last.symm.trans hs)
    have hsame : ReadyState.closing = .closed ↔ ws.readyState = .closed := by
      rw [hws]
      rcases hr with rfl | rfl <;> simp
    exact Moved.sockets h (h.setReadyState hsame) rfl rfl rfl rfl rfl rfl (by simp)
  unfold Page.closeSocket
  split
  · next hs => exact ⟨hlive _ hs (.inl rfl), rfl, rfl⟩
  · next hs => exact ⟨hlive _ hs (.inr rfl), rfl, rfl⟩
  · exact ⟨.refl h, rfl, rfl⟩

theorem Alive.shut (h : Alive older ws w) : Moved w w.shut ∧
    w.shut.client = w.client ∧ w.shut.outcomes = w.outcomes := by
  unfold Page.shut
  rw [h.socket]
  exact h.closeSocket older.length

theorem Alive.close (h : Alive older ws w) : Moved w w.close := by
  obtain ⟨hmoved, hclient, houtcomes⟩ := h.shut
  obtain ⟨older', ws', halive⟩ := hmoved.alive
  refine ⟨⟨older', ws', halive.same rfl rfl rfl⟩, hmoved.nextId, hmoved.promises, ?_,
    hmoved.settled, ?_⟩
  · intro id hid
    cases hid
  · rcases hmoved.line with hline | ⟨older, ws, opened, hopened, hwire, hsent, hqueue⟩
    · exact .inl hline
    · exact .inr ⟨older, ws, opened, hopened, hwire, hsent, hqueue⟩

theorem Alive.opened (h : Alive older ws w) (hs : w.readyState s = some .connecting) :
    Moved w (w.onopen s) := by
  obtain rfl := h.last_of_live hs (by simp)
  have hready : ws.readyState = .connecting := Option.some.inj (h.readyState_last.symm.trans hs)
  have hopening := h.opening hready
  obtain ⟨sent, rest, hflush⟩ := hopening.flush_cases w.client.queue
  rw [h.onopen hready]
  refine ⟨⟨older, ⟨.opened, sent⟩, ?_⟩, ?_, ?_, ?_, ?_,
    .inr ⟨_, _, _, hopening, ?_, rfl, rfl⟩⟩
  · rw [hflush]
    exact ⟨rfl, hopening.socket, h.older, hopening.timers⟩
  · rw [hflush]
    rfl
  · rw [hflush]
    rfl
  · rw [hflush]
    exact fun id hid => hid
  · rw [hflush]
    exact fun id hid => .inl hid
  · rw [hopening.wire, h.wire]

theorem Alive.onclose (h : Alive older ws w) {r : ReadyState} (hs : w.readyState s = some r)
    (hr : r ≠ .closed) : Moved w (w.onclose s) := by
  obtain rfl := h.last_of_live hs hr
  have hws : ws.readyState = r := Option.some.inj (h.readyState_last.symm.trans hs)
  have halive : Alive older { ws with readyState := .closed } (w.onclose older.length) := by
    refine ⟨h.modify_last _, h.socket, h.older, ?_⟩
    show w.timers + 1 = 1
    rw [h.timers, hws, if_neg hr]
  exact Moved.sockets h halive rfl rfl rfl rfl rfl rfl (by simp)

theorem Alive.reconnect (h : Alive older ws w) : Moved w w.reconnect := by
  unfold Page.reconnect
  split
  · exact .refl h
  · next htimers =>
      have hclosed : ws.readyState = .closed := by
        by_contra hopen
        rw [h.timers, if_neg hopen] at htimers
        exact htimers rfl
      have halive : Alive (older ++ [ws]) ⟨.connecting, []⟩
          { w with timers := w.timers - 1 }.connect := by
        refine ⟨?_, ?_, ?_, ?_⟩
        · show w.sockets ++ [_] = _
          rw [h.sockets]
        · show some w.sockets.length = _
          rw [h.sockets]
        · intro o ho
          rcases List.mem_append.1 ho with ho | ho
          · exact h.older o ho
          · rw [List.mem_singleton.1 ho]
            exact hclosed
        · show w.timers - 1 = 0
          rw [h.timers, if_pos hclosed]
      refine Moved.sockets h halive rfl rfl rfl rfl rfl ?_ (by simp)
      rw [List.flatMap_append, List.flatMap_singleton, List.append_nil]

theorem settled_settle (id : Nat) (o : Settlement) :
    ∀ i, i ∈ (w.settle id o).settled ↔ i ∈ w.settled ∨ i = id := by
  intro i
  unfold settle
  split
  · next hid =>
      refine ⟨.inl, ?_⟩
      rintro (hi | rfl)
      · exact hi
      · exact hid
  · simp [Page.settled]

theorem settle_rest (id : Nat) (o : Settlement) : (w.settle id o).client = w.client ∧
    (w.settle id o).sockets = w.sockets ∧ (w.settle id o).timers = w.timers ∧
    (w.settle id o).promises = w.promises := by
  unfold settle
  split <;> exact ⟨rfl, rfl, rfl, rfl⟩

theorem Alive.respond (h : Alive older ws w) {id : Nat} (hid : id ∈ w.client.pending)
    (ms : List (String × Json)) : Moved w (w.respond id ms) := by
  have hcleared : Moved w
      { w with client.pending := w.client.pending.filter (· ≠ id) } := by
    refine ⟨⟨older, ws, h.same rfl rfl rfl⟩, rfl, rfl, ?_, fun _ h => .inl h,
      .inl ⟨rfl, rfl, fun h => h⟩⟩
    exact fun i hi => List.mem_of_mem_filter hi
  have hsettled : ∀ o : Settlement, Moved w
      ({ w with client.pending := w.client.pending.filter (· ≠ id) }.settle id o) := by
    intro o
    obtain ⟨hclient, hsockets, htimers, hpromises⟩ :=
      @settle_rest { w with client.pending := w.client.pending.filter (· ≠ id) } id o
    refine ⟨⟨older, ws, h.same hsockets (by rw [hclient]) htimers⟩, ?_, hpromises, ?_, ?_,
      .inl ⟨?_, ?_, ?_⟩⟩
    · rw [hclient]
    · rw [hclient]
      exact fun i hi => List.mem_of_mem_filter hi
    · intro i hi
      rcases (settled_settle id o i).1 hi with hi | rfl
      · exact .inl hi
      · exact .inr hid
    · rw [Page.wire, hsockets]
      rfl
    · rw [hclient]
    · intro hopen
      rw [isOpen_same hsockets (by rw [hclient])] at hopen
      exact hopen
  unfold Page.respond
  dsimp only
  split
  · split
    · exact hsettled _
    · exact hcleared
  · exact hsettled _

theorem Alive.onmessage (h : Alive older ws w) (frame : Option Json) :
    Moved w (w.onmessage frame) := by
  unfold Page.onmessage
  split
  · split
    · exact ⟨⟨older, ws, h.same rfl rfl rfl⟩, rfl, rfl, fun _ h => h, fun _ h => .inl h,
        .inl ⟨rfl, rfl, fun h => h⟩⟩
    · split
      · next id hid =>
          obtain ⟨value, -, hget⟩ := Option.bind_eq_some_iff.1 hid
          exact h.respond (List.mem_of_find?_eq_some hget) _
      · exact .refl h
  · exact .refl h

theorem Alive.step (h : Alive older ws w) (e : Event)
    (he : ∀ method params, e ≠ .call method params) : Moved w (w.step e) := by
  cases e with
  | call method params => exact absurd rfl (he method params)
  | onStreamEvent handler =>
      exact ⟨⟨older, ws, h.same rfl rfl rfl⟩, rfl, rfl, fun _ h => h, fun _ h => .inl h,
        .inl ⟨rfl, rfl, fun h => h⟩⟩
  | unsubscribe handler =>
      exact ⟨⟨older, ws, h.same rfl rfl rfl⟩, rfl, rfl, fun _ h => h, fun _ h => .inl h,
        .inl ⟨rfl, rfl, fun h => h⟩⟩
  | opened s =>
      unfold Page.step
      dsimp only
      split
      · next hs => exact h.opened hs
      · exact .refl h
  | message s frame =>
      unfold Page.step
      dsimp only
      split
      · exact h.onmessage frame
      · exact .refl h
  | errored => exact h.shut.1
  | closing s => exact (h.closeSocket s).1
  | dropped s =>
      unfold Page.step
      dsimp only
      split
      · exact .refl h
      · exact .refl h
      · next r hr hs => exact h.onclose hs hr
  | reconnect => exact h.reconnect
  | close => exact h.close

theorem Alive.call (h : Alive older ws w) (method : String) (params : Option Json) :
    (∃ older ws, Alive older ws (w.call method params)) ∧
      (w.call method params).client.nextId = w.client.nextId + 1 := by
  have hnew : Alive older ws w.newPromise := h.same rfl rfl rfl
  unfold Page.call
  dsimp only
  split
  · cases params with
    | none =>
        obtain ⟨hclient, hsockets, htimers, -⟩ :=
          @settle_rest w.newPromise w.client.nextId .threw
        exact ⟨⟨older, ws, hnew.same hsockets (by rw [hclient]) htimers⟩, by rw [hclient]; rfl⟩
    | some params =>
        refine ⟨⟨older, _, hnew.send_alive _⟩, ?_⟩
        show (w.newPromise.send _).client.nextId = _
        rw [hnew.send]
        rfl
  · exact ⟨⟨older, ws, hnew.same rfl rfl rfl⟩, rfl⟩

/-! ## Once each -/

/-- Nothing is sent twice; without requests that `JSON.stringify` throws on, the order is kept. -/
structure Sound (q : SendQueue JsonRpcRequest) : Prop where
  once : q.Once 64 fun r => r.params = none
  ordered : (∀ r ∈ q.asked, r.params ≠ none) → q.Orderly 64

theorem Sound.direct {q : SendQueue JsonRpcRequest} {r : JsonRpcRequest} (h : Sound q)
    (hnew : r ∉ q.asked) (hidle : (∀ r ∈ q.asked, r.params ≠ none) → q.queue = []) :
    Sound (q.direct r) := by
  refine ⟨h.once.direct hnew, fun hall => ?_⟩
  have hasked : ∀ r ∈ q.asked, r.params ≠ none := fun r hr => hall r (List.mem_append_left _ hr)
  exact (h.ordered hasked).direct (hidle hasked) hnew

theorem Sound.enqueue {q : SendQueue JsonRpcRequest} {r : JsonRpcRequest} (h : Sound q)
    (hnew : r ∉ q.asked) : Sound (q.enqueue 64 r) :=
  ⟨h.once.enqueue hnew, fun hall =>
    (h.ordered fun r hr => hall r (List.mem_append_left _ hr)).enqueue hnew⟩

theorem Sound.sendHead {q : SendQueue JsonRpcRequest} (h : Sound q) : Sound q.sendHead :=
  ⟨h.once.sendHead, fun hall => (h.ordered hall).sendHead⟩

theorem Sound.dropHead {q : SendQueue JsonRpcRequest} (h : Sound q)
    (hhead : ∃ r ∈ q.queue.head?, r.params = none) : Sound q.dropHead := by
  obtain ⟨r, hr, hnone⟩ := hhead
  refine ⟨h.once.dropHead fun y hy => ?_, fun hall => ?_⟩
  · obtain rfl : r = y := Option.some.inj (hr.symm.trans hy)
    exact hnone
  · exact absurd hnone (hall r (h.once.queue.subset (List.mem_of_head? hr)))

theorem Alive.flush_sound (h : Alive older ws w) (queue : List JsonRpcRequest)
    (hsound : Sound ⟨w.wire.map ofSent, queue, asked⟩) : Sound ((w.flush queue).line asked) := by
  induction queue generalizing w ws with
  | nil => exact hsound
  | cons req queue ih =>
      unfold flush
      cases hparams : req.params with
      | none =>
          have hhead : ∃ r ∈ (req :: queue).head?, r.params = none := ⟨req, rfl, hparams⟩
          exact hsound.dropHead hhead
      | some params =>
          have hsend := h.send_alive ⟨req.id, req.method, params⟩
          have hreq : ofSent ⟨req.id, req.method, params⟩ = req := by rw [ofSent, ← hparams]
          have hwire : (w.send ⟨req.id, req.method, params⟩).wire.map ofSent =
              w.wire.map ofSent ++ [req] := by
            rw [hsend.wire, ← List.append_assoc, ← h.wire, List.map_append, List.map_singleton,
              hreq]
          refine ih hsend ?_
          rw [hwire]
          exact hsound.sendHead

theorem flush_queue (w : Page) {queue : List JsonRpcRequest}
    (hall : ∀ r ∈ queue, r.params ≠ none) : (w.flush queue).client.queue = [] := by
  induction queue generalizing w with
  | nil => rfl
  | cons req queue ih =>
      unfold flush
      cases hparams : req.params with
      | none => exact absurd hparams (hall req List.mem_cons_self)
      | some params => exact ih _ fun r hr => hall r (List.mem_cons_of_mem req hr)

/-- What holds of the requests along a run. -/
structure Lined (asked : List JsonRpcRequest) (w : Page) : Prop where
  unused : ∀ r ∈ asked, r.id < w.client.nextId
  sound : Sound (w.line asked)
  idle : w.isOpen = true → (∀ r ∈ asked, r.params ≠ none) → w.client.queue = []

theorem lined_init : Lined [] init where
  unused := by simp
  sound := ⟨SendQueue.once_empty, fun _ => SendQueue.orderly_empty⟩
  idle _ _ := rfl

theorem Lined.moved (h : Lined asked w) (hm : Moved w w') : Lined asked w' := by
  refine ⟨?_, ?_, ?_⟩
  · rw [hm.nextId]
    exact h.unused
  · rcases hm.line with ⟨hwire, hqueue, -⟩ | ⟨older, ws, opened, hopened, hwire, hsent, hqueue⟩
    · have hline : w'.line asked = w.line asked := by rw [line, line, hwire, hqueue]
      rw [hline]
      exact h.sound
    · have hline : w'.line asked = (opened.flush w.client.queue).line asked := by
        rw [line, line, hsent, hqueue]
      rw [hline]
      refine hopened.flush_sound _ ?_
      rw [hwire]
      exact h.sound
  · intro hopen hall
    rcases hm.line with ⟨-, hqueue, hwas⟩ | ⟨older, ws, opened, -, -, -, hqueue⟩
    · rw [hqueue]
      exact h.idle (hwas hopen) hall
    · rw [hqueue]
      exact flush_queue opened fun r hr => hall r (h.sound.once.queue.subset hr)

theorem Lined.call (h : Lined asked w) (ha : Alive older ws w) (method : String)
    (params : Option Json) :
    Lined (asked ++ [⟨w.client.nextId, method, params⟩]) (w.call method params) := by
  let req : JsonRpcRequest := ⟨w.client.nextId, method, params⟩
  have hnew : req ∉ asked := fun hr => absurd (h.unused req hr) (lt_irrefl _)
  have hunused : ∀ r ∈ asked ++ [req], r.id < w.client.nextId + 1 := by
    intro r hr
    rcases List.mem_append.1 hr with hr | hr
    · exact Nat.lt_succ_of_lt (h.unused r hr)
    · rw [List.mem_singleton.1 hr]
      exact Nat.lt_succ_self _
  have hall : (∀ r ∈ asked ++ [req], r.params ≠ none) → ∀ r ∈ asked, r.params ≠ none :=
    fun hall r hr => hall r (List.mem_append_left _ hr)
  have hpromise : Alive older ws w.newPromise := ha.same rfl rfl rfl
  refine ⟨?_, ?_, ?_⟩
  · rw [(ha.call method params).2]
    exact hunused
  · unfold Page.call
    dsimp only
    split
    · next hopen =>
        cases params with
        | none =>
            obtain ⟨hclient, hsockets, -, -⟩ := @settle_rest w.newPromise w.client.nextId .threw
            have hline : (w.newPromise.settle w.client.nextId .threw).line (asked ++ [req]) =
                { w.line asked with asked := asked ++ [req] } := by
              rw [line, Page.wire, hsockets, hclient]
              rfl
            rw [hline]
            refine ⟨h.sound.once.lose hnew rfl, fun hnone => ?_⟩
            exact absurd rfl (hnone req (List.mem_append_right _ (List.mem_singleton_self _)))
        | some params =>
            have hwire : (w.newPromise.send ⟨w.client.nextId, method, params⟩).wire =
                w.wire ++ [⟨w.client.nextId, method, params⟩] := by
              rw [(hpromise.send_alive _).wire, ← List.append_assoc, ← ha.wire]
            have hline : (w.newPromise.send ⟨w.client.nextId, method, params⟩).line
                (asked ++ [req]) = (w.line asked).direct req := by
              rw [line, hwire, hpromise.send, List.map_append]
              rfl
            show Sound ((w.newPromise.send _).line _)
            rw [hline]
            exact h.sound.direct hnew (h.idle hopen)
    · exact h.sound.enqueue hnew
  · unfold Page.call
    dsimp only
    split
    · next hopen =>
        intro _ hnone
        cases params with
        | none => exact absurd rfl (hnone req (List.mem_append_right _ (List.mem_singleton_self _)))
        | some params =>
            show (w.newPromise.send _).client.queue = []
            rw [hpromise.send]
            exact h.idle hopen (hall hnone)
    · next hclosed =>
        intro hopen
        exact absurd hopen hclosed

theorem requests_cons (nextId : Nat) (e : Event) (events : List Event)
    (he : ∀ method params, e ≠ .call method params) :
    requests nextId (e :: events) = requests nextId events := by
  cases e with
  | call method params => exact absurd rfl (he method params)
  | _ => rfl

theorem Lined.run (h : Lined asked w) (ha : Alive older ws w) (events : List Event) :
    Lined (asked ++ requests w.client.nextId events) (run Page.step w events) := by
  induction events generalizing asked w older ws with
  | nil =>
      rw [requests, List.append_nil]
      exact h
  | cons e events ih =>
      rw [run_cons]
      by_cases he : ∃ method params, e = .call method params
      · obtain ⟨method, params, rfl⟩ := he
        obtain ⟨⟨older', ws', halive⟩, hnext⟩ := ha.call method params
        have hrest := ih (h.call ha method params) halive
        rw [hnext, List.append_assoc] at hrest
        exact hrest
      · have hno : ∀ method params, e ≠ .call method params :=
          fun method params heq => he ⟨method, params, heq⟩
        have hmoved := ha.step e hno
        obtain ⟨older', ws', halive⟩ := hmoved.alive
        have hrest := ih (h.moved hmoved) halive
        rw [hmoved.nextId] at hrest
        rw [requests_cons _ _ _ hno]
        exact hrest

/-- After every run no request was sent twice, over all sockets, or is queued though sent, and one
that is neither was pushed out by 64 later ones or cannot be turned into a text.  If all can, the
requests went out in the order of the calls. -/
theorem requests_once (events : List Event) : Sound ((after events).line (requests 1 events)) :=
  (lined_init.run alive_init events).sound

/-- A request on which `JSON.stringify` throws ends the flush, and the third call overtakes the
second. -/
def overtaking : List Event :=
  [.call "tasks/attest" none, .call "tasks/supervise" (some .null), .opened 0,
    .call "tasks/abort" (some .null)]

example : (after overtaking).wire.map (·.id) = [3] ∧
    (after overtaking).client.queue.map (·.id) = [2] := by decide +kernel

/-! ## Calls that wait -/

theorem number_id {id : Nat} (h : id < 2 ^ 53) : RpcWorld.number (.int id) = some (.fin id) := by
  show some (FloatValue.fin (roundDouble ((id : Int) : Rat))) = _
  rw [Rat.intCast_natCast, roundDouble_natCast h.le]

theorem call_others (method : String) (params : Option Json) :
    (∀ id ∈ (w.call method params).client.pending,
        id ∈ w.client.pending ∨ id = w.client.nextId) ∧
      (∀ id ∈ (w.call method params).settled, id ∈ w.settled ∨ id = w.client.nextId) ∧
      (w.call method params).promises = w.promises ++ [w.client.nextId] := by
  have hpending : ∀ id ∈ w.newPromise.client.pending,
      id ∈ w.client.pending ∨ id = w.client.nextId := by
    intro id hid
    simpa [newPromise] using hid
  unfold Page.call
  dsimp only
  split
  · cases params with
    | none =>
        refine ⟨?_, fun id hid => (@settled_settle w.newPromise _ .threw id).1 hid, ?_⟩
        · rw [(settle_rest _ _).1]
          exact hpending
        · exact (settle_rest _ _).2.2.2
    | some params =>
        show (∀ id ∈ (w.newPromise.send _).client.pending, _) ∧
          (∀ id ∈ (w.newPromise.send _).settled, _) ∧ (w.newPromise.send _).promises = _
        unfold send
        split
        · exact ⟨hpending, fun _ hid => .inl hid, rfl⟩
        · exact ⟨hpending, fun _ hid => .inl hid, rfl⟩
  · exact ⟨hpending, fun _ hid => .inl hid, rfl⟩

/-- A call that is neither pending nor settled. -/
structure Forgotten (id : Nat) (w : Page) : Prop where
  alive : ∃ older ws, Alive older ws w
  used : id < w.client.nextId
  pending : id ∉ w.client.pending
  settled : id ∉ w.settled

theorem Forgotten.step {id : Nat} (h : Forgotten id w) (e : Event) : Forgotten id (w.step e) := by
  obtain ⟨older, ws, halive⟩ := h.alive
  by_cases he : ∃ method params, e = .call method params
  · obtain ⟨method, params, rfl⟩ := he
    obtain ⟨hpending, hsettled, -⟩ := @call_others w method params
    obtain ⟨halive', hnext⟩ := halive.call method params
    have hne : id ≠ w.client.nextId := Nat.ne_of_lt h.used
    refine ⟨halive', ?_, fun hid => ?_, fun hid => ?_⟩
    · show id < (w.call method params).client.nextId
      rw [hnext]
      exact Nat.lt_succ_of_lt h.used
    · exact (hpending id hid).elim h.pending hne
    · exact (hsettled id hid).elim h.settled hne
  · have hm := halive.step e fun method params heq => he ⟨method, params, heq⟩
    refine ⟨hm.alive, ?_, fun hid => h.pending (hm.pending id hid), fun hid => ?_⟩
    · rw [hm.nextId]
      exact h.used
    · exact (hm.settled id hid).elim h.settled h.pending

theorem Forgotten.run {id : Nat} (h : Forgotten id w) (events : List Event) :
    Forgotten id (run Page.step w events) :=
  @run_invariant _ _ Page.step (Forgotten id) (fun _ => True) (fun _ e h _ => h.step e) w events h
    fun _ _ => trivial

/-- The client is there, and its promises bear ids that were used. -/
structure Running (w : Page) : Prop where
  alive : ∃ older ws, Alive older ws w
  used : ∀ id ∈ w.promises, id < w.client.nextId

theorem Running.step (h : Running w) (e : Event) : Running (w.step e) := by
  obtain ⟨older, ws, halive⟩ := h.alive
  by_cases he : ∃ method params, e = .call method params
  · obtain ⟨method, params, rfl⟩ := he
    obtain ⟨-, -, hpromises⟩ := @call_others w method params
    obtain ⟨halive', hnext⟩ := halive.call method params
    refine ⟨halive', fun id hid => ?_⟩
    have hid' : id ∈ w.promises ++ [w.client.nextId] := hpromises ▸ hid
    show id < (w.call method params).client.nextId
    rw [hnext]
    rcases List.mem_append.1 hid' with hid | hid
    · exact Nat.lt_succ_of_lt (h.used id hid)
    · rw [List.mem_singleton.1 hid]
      exact Nat.lt_succ_self _
  · have hm := halive.step e fun method params heq => he ⟨method, params, heq⟩
    refine ⟨hm.alive, ?_⟩
    rw [hm.nextId, hm.promises]
    exact h.used

theorem running_after (events : List Event) : Running (after events) :=
  @run_invariant _ _ Page.step Running (fun _ => True) (fun _ e h _ => h.step e) init events
    ⟨⟨[], _, alive_init⟩, by simp [init, connect]⟩ fun _ _ => trivial

/-- A socket opens in some continuation, with the same calls pending and settled. -/
def Opens (w : Page) : Prop :=
  ∃ more older ws, Alive older ws (run step w more) ∧ ws.readyState = .opened ∧
    (run step w more).client.pending = w.client.pending ∧
    (run step w more).outcomes = w.outcomes

theorem Opens.of_step {e : Event} (h : (w.step e).Opens)
    (hpending : (w.step e).client.pending = w.client.pending)
    (houtcomes : (w.step e).outcomes = w.outcomes) : w.Opens := by
  obtain ⟨more, older, ws, halive, hready, hp, ho⟩ := h
  exact ⟨e :: more, older, ws, halive, hready, hp.trans hpending, ho.trans houtcomes⟩

theorem Alive.opens_connecting (h : Alive older ws w) (hready : ws.readyState = .connecting) :
    w.Opens := by
  have hs : w.readyState older.length = some .connecting := by rw [h.readyState_last, hready]
  obtain ⟨sent, rest, hflush⟩ := (h.opening hready).flush_cases w.client.queue
  have hstep : w.step (.opened older.length) = { w.opening older.length with
      client.queue := rest
      sockets := older ++ [⟨.opened, sent⟩] } := by
    show (if w.readyState older.length = some .connecting then w.onopen older.length else w) = _
    rw [if_pos hs, h.onopen hready, hflush]
  refine ⟨[.opened older.length], older, ⟨.opened, sent⟩, ?_, rfl, ?_, ?_⟩
  · rw [run_cons, run_nil, hstep]
    exact ⟨rfl, h.socket, h.older, (h.opening hready).timers⟩
  · rw [run_cons, run_nil, hstep]
    rfl
  · rw [run_cons, run_nil, hstep]
    rfl

theorem Alive.opens_closed (h : Alive older ws w) (hready : ws.readyState = .closed) :
    w.Opens := by
  have htimers : w.timers = 1 := by rw [h.timers, if_pos hready]
  have hstep : w.step .reconnect = { w with timers := 0 }.connect := by
    show w.reconnect = _
    rw [Page.reconnect, if_neg (by omega), htimers]
  refine Opens.of_step (e := .reconnect) ?_ (by rw [hstep]; rfl) (by rw [hstep]; rfl)
  have halive : Alive w.sockets ⟨.connecting, []⟩ (w.step .reconnect) := by
    rw [hstep]
    refine ⟨rfl, rfl, ?_, rfl⟩
    rw [h.sockets]
    intro o ho
    rcases List.mem_append.1 ho with ho | ho
    · exact h.older o ho
    · rw [List.mem_singleton.1 ho]
      exact hready
  exact halive.opens_connecting rfl

theorem Alive.opens (h : Alive older ws w) : w.Opens := by
  cases hready : ws.readyState with
  | connecting => exact h.opens_connecting hready
  | opened => exact ⟨[], older, ws, h, hready, rfl, rfl⟩
  | closed => exact h.opens_closed hready
  | closing =>
      have hs : w.readyState older.length = some .closing := by rw [h.readyState_last, hready]
      have hstep : w.step (.dropped older.length) = w.onclose older.length := by
        unfold Page.step
        dsimp only
        rw [hs]
      refine Opens.of_step (e := .dropped older.length) ?_ (by rw [hstep]; rfl)
        (by rw [hstep]; rfl)
      have halive : Alive older { ws with readyState := .closed }
          (w.step (.dropped older.length)) := by
        rw [hstep]
        refine ⟨h.modify_last _, h.socket, h.older, ?_⟩
        show w.timers + 1 = 1
        rw [h.timers, hready]
        rfl
      exact halive.opens_closed rfl

/-- A response with an id and nothing else. -/
def plainResponse (id : Nat) : Json := .obj [("id", .int id)]

theorem Alive.answered (h : Alive older ws w) (hready : ws.readyState = .opened) {id : Nat}
    (hid : id ∈ w.client.pending) (hbound : id < 2 ^ 53) :
    id ∈ (w.step (.message older.length (some (plainResponse id)))).settled := by
  have hs : w.readyState older.length = some .opened := by rw [h.readyState_last, hready]
  have hget : w.pendingGet (.int id) = some id := by
    unfold pendingGet
    rw [number_id hbound]
    obtain ⟨n, hn⟩ : ∃ n, w.client.pending.find?
        (fun n : Nat => some (FloatValue.fin (id : Rat)) = some (.fin n)) = some n :=
      Option.isSome_iff_exists.1 (List.find?_isSome.2 ⟨id, hid, by simp⟩)
    have hnum := List.find?_some hn
    have hcast : (id : Rat) = n := by simpa using hnum
    rw [hn, Nat.cast_injective hcast]
  have hresponds : w.onmessage (some (plainResponse id)) = w.respond id [("id", .int id)] := by
    have hplain : ([("id", Json.int id)].lookup "event_type").filter truthy = none := rfl
    have hlookup : ([("id", Json.int id)].lookup "id").bind w.pendingGet = some id := hget
    unfold Page.onmessage plainResponse
    dsimp only
    rw [hplain, hlookup]
  unfold Page.step
  dsimp only
  rw [if_pos hs, hresponds]
  exact (settled_settle id _ id).2 (.inr rfl)

theorem Alive.live_or_timer (h : Alive older ws w) :
    w.sockets.countP (fun o => o.readyState ≠ .closed) + w.timers = 1 := by
  have holder : older.countP (fun o => o.readyState ≠ .closed) = 0 :=
    List.countP_eq_zero.2 fun o ho => by simp [h.older o ho]
  rw [h.sockets, List.countP_append, holder, h.timers, List.countP_singleton]
  by_cases hready : ws.readyState = .closed
  · simp [hready]
  · simp [hready]

theorem Running.forgotten_close {id : Nat} (h : Running w) (hid : id ∈ w.promises)
    (hnot : id ∉ w.settled) : Forgotten id (w.step .close) := by
  obtain ⟨older, ws, halive⟩ := h.alive
  have hsettled : (w.step .close).settled = w.settled :=
    congrArg (List.map Prod.fst) halive.shut.2.2
  refine ⟨(h.step .close).alive, ?_, List.not_mem_nil, hsettled ▸ hnot⟩
  exact (h.step .close).used id (halive.close.promises ▸ hid)

/-- A response to a call with an error that no `Error` can be made of. -/
def BrokenResponse (w : Page) (id : Nat) (ms : List (String × Json)) : Prop :=
  (ms.lookup "event_type").filter truthy = none ∧ (ms.lookup "id").bind w.pendingGet = some id ∧
    ∃ e, ms.lookup "error" = some e ∧ RpcWorld.rpcError e = none

theorem Running.forgotten_message {id : Nat} {ms : List (String × Json)} (h : Running w)
    (hid : id ∈ w.promises) (hnot : id ∉ w.settled) (hs : w.readyState s = some .opened)
    (hbroken : w.BrokenResponse id ms) : Forgotten id (w.step (.message s (some (.obj ms)))) := by
  obtain ⟨hevent, hget, e, herror, hrpc⟩ := hbroken
  have hstep : w.step (.message s (some (.obj ms))) =
      { w with client.pending := w.client.pending.filter (· ≠ id) } := by
    show (if w.readyState s = some .opened then w.onmessage (some (.obj ms)) else w) = _
    rw [if_pos hs]
    unfold onmessage
    dsimp only
    rw [hevent, hget]
    unfold respond
    dsimp only
    rw [herror]
    dsimp only
    rw [hrpc]
  obtain ⟨older, ws, halive⟩ := h.alive
  rw [hstep]
  exact ⟨⟨older, ws, halive.same rfl rfl rfl⟩, h.used id hid, by simp, hnot⟩

/-- After every run, `close()` included, one socket lives or one timer is set, and the client can
be open again.  A promise that is not settled can still be exactly if its call is pending, while
the ids are such that a double is each of them; `close()` and a broken response end that. -/
theorem promise_settles_iff (events : List Event) :
    (after events).sockets.countP (fun ws => ws.readyState ≠ .closed) + (after events).timers = 1 ∧
    (∃ later, (after (events ++ later)).isOpen = true) ∧
    ∀ id ∈ (after events).promises, id ∉ (after events).settled →
      ((after events).client.nextId ≤ 2 ^ 53 →
        ((∃ later, id ∈ (after (events ++ later)).settled) ↔
          id ∈ (after events).client.pending)) ∧
      (∀ later, id ∉ (after (events ++ .close :: later)).settled) ∧
      ∀ s ms later, (after events).readyState s = some .opened →
        (after events).BrokenResponse id ms →
        id ∉ (after (events ++ .message s (some (.obj ms)) :: later)).settled := by
  have hrun : ∀ later, after (events ++ later) = run step (after events) later :=
    fun later => run_append step init events later
  have hrunning := running_after events
  obtain ⟨older, ws, halive⟩ := hrunning.alive
  obtain ⟨more, older', ws', halive', hready, hsame, -⟩ := halive.opens
  refine ⟨halive.live_or_timer, ⟨more, ?_⟩, fun id hid hnot => ⟨fun hbound => ⟨?_, ?_⟩, ?_, ?_⟩⟩
  · rw [hrun]
    exact halive'.isOpen_iff.2 hready
  · rintro ⟨later, hsettled⟩
    by_contra hpending
    rw [hrun] at hsettled
    have hforgotten : Forgotten id (after events) :=
      ⟨hrunning.alive, hrunning.used id hid, hpending, hnot⟩
    exact (hforgotten.run later).settled hsettled
  · intro hpending
    have hused := hrunning.used id hid
    refine ⟨more ++ [.message older'.length (some (plainResponse id))], ?_⟩
    rw [hrun, run_append, run_cons, run_nil]
    exact halive'.answered hready (hsame ▸ hpending) (by omega)
  · intro later
    rw [hrun, run_cons]
    exact ((hrunning.forgotten_close hid hnot).run later).settled
  · intro s ms later hs hbroken
    rw [hrun, run_cons]
    exact ((hrunning.forgotten_message hid hnot hs hbroken).run later).settled

/-- A call is outstanding when the client is closed; the client connects again and the call is
never settled. -/
def closedWhileWaiting : List Event :=
  [.opened 0, .call "tasks/claim" (some .null), .close, .dropped 0, .reconnect, .opened 1]

theorem promise_settles_closed : (after closedWhileWaiting).isOpen = true ∧
    ¬ ∃ later, 1 ∈ (after (closedWhileWaiting ++ later)).settled := by
  refine ⟨rfl, ?_⟩
  rw [((promise_settles_iff closedWhileWaiting).2.2 1 (by decide +kernel) (by decide +kernel)).1
    (by decide +kernel)]
  decide +kernel

end Page

end Wcp.Sdk.Pwa
