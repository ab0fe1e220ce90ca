import Wcp.Base.SendQueue
import Wcp.Sdk.RpcClient
/-!
# The order of the TypeScript client's requests

Over all the sockets that a client made, its requests go out in the order of the calls
and each at most once: no reconnect sends a request again.  A request neither sent nor
queued was pushed out of the queue by 64 calls made after it.
-/

namespace Wcp.Sdk

open Wcp.Base

namespace RpcWorld

variable {w w' : RpcWorld} {s : Nat} {asked : List Request}

/-- The requests sent on all sockets, in the order of the sockets. -/
def wire (w : RpcWorld) : List Request := w.sockets.flatMap (·.sent)

/-- The requests that the calls of a run ask for, the next id given. -/
def requests (nextId : Nat) : List Event → List Request
  | [] => []
  | .call method params :: events =>
      (params.map (Request.mk nextId method)).toList ++ requests (nextId + 1) events
  | _ :: events => requests nextId events

/-- The client's requests as a queue in front of a line. -/
def line (w : RpcWorld) (asked : List Request) : SendQueue Request :=
  ⟨w.wire, w.client.queue, asked⟩

/-- The socket of the client is the last it made, and nothing waits while that is open. -/
structure Lined (asked : List Request) (w : RpcWorld) : Prop where
  last : ∀ s, w.client.socket = some s → s + 1 = w.sockets.length
  idle : w.isOpen = true → w.client.queue = []
  unused : ∀ r ∈ asked, r.id < w.client.nextId
  orderly : (w.line asked).Orderly 64

theorem lined_init : init.Lined [] where
  last s h := by cases h
  idle _ := rfl
  unused := by simp
  orderly := SendQueue.orderly_empty

/-! ## Sockets -/

theorem flatMap_sent_modify {sockets : List WebSocket} (hlast : s + 1 = sockets.length)
    (msgs : List Request) :
    (sockets.modify s fun ws => { ws with sent := ws.sent ++ msgs }).flatMap (·.sent) =
      sockets.flatMap (·.sent) ++ msgs := by
  induction sockets generalizing s with
  | nil => simp at hlast
  | cons ws sockets ih =>
      cases s with
      | zero =>
          have hnil : sockets = [] := by simpa using hlast
          rw [hnil]
          simp
      | succ s =>
          have hrest : s + 1 = sockets.length := by simpa using hlast
          rw [List.modify_succ_cons, List.flatMap_cons, List.flatMap_cons, ih hrest,
            List.append_assoc]

theorem flatMap_sent_modify_readyState (sockets : List WebSocket) (r : ReadyState) :
    (sockets.modify s fun ws => { ws with readyState := r }).flatMap (·.sent) =
      sockets.flatMap (·.sent) := by
  induction sockets generalizing s with
  | nil => cases s <;> rfl
  | cons ws sockets ih =>
      cases s with
      | zero => simp
      | succ s => rw [List.modify_succ_cons, List.flatMap_cons, List.flatMap_cons, ih]

/-- Nothing was asked for, sent or queued in between, and the client's socket did not open. -/
structure Still (w w' : RpcWorld) : Prop where
  wire : w'.wire = w.wire
  queue : w'.client.queue = w.client.queue
  nextId : w'.client.nextId = w.client.nextId
  last : (∀ s, w.client.socket = some s → s + 1 = w.sockets.length) →
    ∀ s, w'.client.socket = some s → s + 1 = w'.sockets.length
  opened : w'.isOpen = true → w.isOpen = true

theorem Still.refl : Still w w := ⟨rfl, rfl, rfl, fun h => h, fun h => h⟩

theorem Lined.still (h : Lined asked w) (hs : Still w w') : Lined asked w' where
  last := hs.last h.last
  idle hopen := hs.queue.trans (h.idle (hs.opened hopen))
  unused := by
    rw [hs.nextId]
    exact h.unused
  orderly := by
    have hline : w'.line asked = w.line asked := by rw [line, line, hs.wire, hs.queue]
    rw [hline]
    exact h.orderly

theorem length_setReadyState (r : ReadyState) :
    (w.setReadyState s r).sockets.length = w.sockets.length :=
  List.length_modify _ _ _

theorem isOpen_setReadyState {r : ReadyState} (hr : r ≠ .opened)
    (hopen : (w.setReadyState s r).isOpen = true) : w.isOpen = true := by
  obtain ⟨t, ht, hready⟩ := isOpen_iff.1 hopen
  refine isOpen_iff.2 ⟨t, ht, ?_⟩
  rw [readyState, setReadyState] at hready
  by_cases hst : s = t
  · subst hst
    rw [List.getElem?_modify_eq] at hready
    cases hws : w.sockets[s]? with
    | none => simp [hws] at hready
    | some ws => exact absurd (by simpa [hws] using hready) hr
  · rw [List.getElem?_modify_ne _ _ hst] at hready
    exact hready

theorem still_setReadyState {r : ReadyState} (hr : r ≠ .opened) :
    Still w (w.setReadyState s r) where
  wire := flatMap_sent_modify_readyState w.sockets r
  queue := rfl
  nextId := rfl
  last h t ht := by
    rw [length_setReadyState]
    exact h t ht
  opened := isOpen_setReadyState hr

theorem isOpen_connect : w.connect.isOpen = false := by
  rw [← Bool.not_eq_true, isOpen_iff]
  rintro ⟨t, ht, hready⟩
  obtain rfl : w.sockets.length = t := Option.some.inj ht
  rw [readyState, connect, List.getElem?_concat_length] at hready
  cases hready

theorem still_connect : Still w w.connect where
  wire := by
    have hnone : [(⟨.connecting, []⟩ : WebSocket)].flatMap (·.sent) = [] := rfl
    show (w.sockets ++ [(⟨.connecting, []⟩ : WebSocket)]).flatMap (·.sent) = w.wire
    rw [List.flatMap_append, hnone, List.append_nil]
    rfl
  queue := rfl
  nextId := rfl
  last _ t ht := by
    obtain rfl : w.sockets.length = t := Option.some.inj ht
    show w.sockets.length + 1 = (w.sockets ++ [_]).length
    rw [List.length_append, List.length_singleton]
  opened h := by
    rw [isOpen_connect] at h
    cases h

theorem still_closeSocket : Still w (w.closeSocket s) := by
  unfold closeSocket
  split
  · exact still_setReadyState (by simp)
  · exact still_setReadyState (by simp)
  · exact .refl

theorem still_close : Still w w.close := by
  unfold close shut
  split
  · next t ht =>
      have hs := @still_closeSocket { w with client.closed := true } t
      exact ⟨hs.wire, hs.queue, hs.nextId, hs.last, hs.opened⟩
  · exact ⟨rfl, rfl, rfl, fun h => h, fun h => h⟩

theorem still_onclose : Still w (w.onclose s) := by
  have hs := @still_setReadyState w s .closed (by simp)
  unfold onclose scheduleReconnect
  dsimp only
  split
  · exact ⟨hs.wire, rfl, rfl, fun _ t ht => absurd ht (by simp), fun h => by cases h⟩
  · exact ⟨hs.wire, rfl, rfl, fun _ t ht => absurd ht (by simp), fun h => by cases h⟩

theorem still_reconnect : Still w w.reconnect := by
  unfold reconnect
  split
  · exact .refl
  · dsimp only
    split
    · exact ⟨rfl, rfl, rfl, fun h => h, fun h => h⟩
    · have hs := @still_connect { w with timers := w.timers - 1 }
      exact ⟨hs.wire, hs.queue, hs.nextId, hs.last, hs.opened⟩

theorem still_handleMessage (frame : Option Json) : Still w (w.handleMessage frame) := by
  obtain ⟨pending, new, heq⟩ := handleMessage_cases w frame
  rw [heq]
  exact ⟨rfl, rfl, rfl, fun h => h, fun h => h⟩

/-! ## What is sent -/

theorem wire_send (hlast : ∀ s, w.client.socket = some s → s + 1 = w.sockets.length)
    (hopen : w.isOpen = true) (msg : Request) : (w.send msg).wire = w.wire ++ [msg] := by
  obtain ⟨t, ht, -⟩ := isOpen_iff.1 hopen
  rw [send_of_socket ht]
  exact flatMap_sent_modify (hlast t ht) [msg]

theorem wire_flush (hlast : ∀ s, w.client.socket = some s → s + 1 = w.sockets.length)
    (hopen : w.isOpen = true) (msgs : List Request) : (w.flush msgs).wire = w.wire ++ msgs := by
  obtain ⟨t, ht, -⟩ := isOpen_iff.1 hopen
  rw [flush_of_socket ht]
  exact flatMap_sent_modify (hlast t ht) msgs

theorem Lined.onopen (h : Lined asked w) (s : Nat) : Lined asked (w.onopen s) := by
  let w₁ : RpcWorld := { w.setReadyState s .opened with client.reconnectAttempt := 0 }
  have hlast : ∀ t, w₁.client.socket = some t → t + 1 = w₁.sockets.length := by
    intro t ht
    rw [show w₁.sockets.length = w.sockets.length from length_setReadyState .opened]
    exact h.last t ht
  have hwire : w₁.wire = w.wire := flatMap_sent_modify_readyState w.sockets .opened
  show Lined asked w₁.flushQueue
  unfold flushQueue
  by_cases hopen : w₁.isOpen = true
  · rw [if_pos hopen]
    have hsent := wire_flush hlast hopen w₁.client.queue
    obtain ⟨t, ht, -⟩ := isOpen_iff.1 hopen
    have hflush := flush_of_socket ht w₁.client.queue
    have hline : (w₁.flush w₁.client.queue).line asked = (w.line asked).flush := by
      rw [line, hsent, hwire, hflush]
      rfl
    refine ⟨?_, ?_, ?_, ?_⟩
    · rw [hflush]
      intro t' ht'
      rw [List.length_modify]
      exact hlast t' ht'
    · intro _
      rw [hflush]
    · rw [hflush]
      exact h.unused
    · rw [hline]
      exact h.orderly.flush
  · rw [if_neg hopen]
    refine ⟨hlast, fun ho => absurd ho hopen, h.unused, ?_⟩
    have hline : w₁.line asked = w.line asked := by
      rw [line, hwire]
      rfl
    rw [hline]
    exact h.orderly

theorem Lined.call (h : Lined asked w) (method : String) (params : Option Json) :
    Lined (asked ++ (params.map (Request.mk w.client.nextId method)).toList)
      (w.call method params) := by
  cases params with
  | none =>
      rw [Option.map_none, Option.toList_none, List.append_nil]
      exact ⟨h.last, h.idle, fun r hr => Nat.lt_succ_of_lt (h.unused r hr), h.orderly⟩
  | some params =>
      rw [Option.map_some, Option.toList_some]
      let msg : Request := ⟨w.client.nextId, method, params⟩
      have hnew : msg ∉ asked := fun hm => absurd (h.unused msg hm) (lt_irrefl _)
      have hunused : ∀ r ∈ asked ++ [msg], r.id < w.client.nextId + 1 := by
        intro r hr
        rcases List.mem_append.1 hr with hr | hr
        · exact Nat.lt_succ_of_lt (h.unused r hr)
        · rw [List.mem_singleton.1 hr]
          exact Nat.lt_succ_self _
      unfold RpcWorld.call
      dsimp only
      by_cases hopen : w.newPromise.isOpen = true
      · rw [if_pos hopen]
        have hidle : w.client.queue = [] := h.idle hopen
        obtain ⟨t, ht, -⟩ := isOpen_iff.1 hopen
        have hsend := send_of_socket ht msg
        have hline : (w.newPromise.send msg).line (asked ++ [msg]) =
            (w.line asked).direct msg := by
          rw [line, wire_send (w := w.newPromise) h.last hopen, hsend]
          rfl
        refine ⟨?_, ?_, ?_, ?_⟩
        · rw [hsend]
          intro t' ht'
          rw [List.length_modify]
          exact h.last t' ht'
        · intro _
          rw [hsend]
          exact hidle
        · rw [hsend]
          exact hunused
        · rw [hline]
          exact h.orderly.direct hidle hnew
      · rw [if_neg hopen]
        refine ⟨h.last, fun ho => absurd ho hopen, hunused, ?_⟩
        exact h.orderly.enqueue hnew

theorem requests_cons (nextId : Nat) (e : Event) (events : List Event)
    (he : ∀ method params, e ≠ .call method params) :
    requests nextId (e :: events) = requests nextId events := by
  cases e with
  | call method params => exact absurd rfl (he method params)
  | _ => rfl

theorem Lined.step (h : Lined asked w) (e : Event) (he : ∀ method params, e ≠ .call method params) :
    Lined asked (w.step e) ∧ (w.step e).client.nextId = w.client.nextId := by
  have hstill : ∀ {w'}, Still w w' → Lined asked w' ∧ w'.client.nextId = w.client.nextId :=
    fun hs => ⟨h.still hs, hs.nextId⟩
  cases e with
  | call method params => exact absurd rfl (he method params)
  | onStreamEvent => exact hstill ⟨rfl, rfl, rfl, fun h => h, fun h => h⟩
  | connect => exact hstill still_connect
  | opened s =>
      unfold RpcWorld.step
      dsimp only
      split
      · exact ⟨h.onopen s, quiet_onopen.nextId⟩
      · exact hstill .refl
  | message s frame =>
      unfold RpcWorld.step
      dsimp only
      split
      · exact hstill (still_handleMessage frame)
      · exact hstill .refl
  | closing s => exact hstill still_closeSocket
  | dropped s =>
      unfold RpcWorld.step
      dsimp only
      split
      · exact hstill .refl
      · exact hstill .refl
      · exact hstill still_onclose
  | reconnect => exact hstill still_reconnect
  | close => exact hstill still_close

theorem Lined.run (h : Lined asked w) (events : List Event) :
    Lined (asked ++ requests w.client.nextId events) (run RpcWorld.step w events) := by
  induction events generalizing asked w with
  | nil =>
      rw [requests, List.append_nil]
      exact h
  | cons e events ih =>
      rw [run_cons]
      by_cases he : ∃ method params, e = .call method params
      · obtain ⟨method, params, rfl⟩ := he
        rw [requests, ← List.append_assoc]
        have hnext : (w.step (.call method params)).client.nextId = w.client.nextId + 1 := by
          show (w.call method params).client.nextId = _
          cases params with
          | none => rfl
          | some params =>
              unfold RpcWorld.call
              dsimp only
              split
              · exact (quiet_send _).nextId
              · rfl
        have hrest := ih (h.call method params)
        rw [← hnext]
        exact hrest
      · have hno : ∀ method params, e ≠ .call method params :=
          fun method params heq => he ⟨method, params, heq⟩
        obtain ⟨hstep, hnext⟩ := h.step e hno
        rw [requests_cons _ _ _ hno, ← hnext]
        exact ih hstep

/-- After every run, the requests on the wire and then those that wait are a sublist of the
requests that were asked for: in order, none twice.  One is missing only if 64 were asked for
after it. -/
theorem requests_orderly (events : List Event) :
    ((run step init events).line (requests 1 events)).Orderly 64 :=
  (lined_init.run events).orderly

end RpcWorld

end Wcp.Sdk
