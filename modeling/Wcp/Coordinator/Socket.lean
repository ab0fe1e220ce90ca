import Mathlib.Data.List.Forall2
import Wcp.Base.JsonReader
import Wcp.Coordinator.LocalEnvironment
import Wcp.Coordinator.Router
/-!
# The socket loop

The loop of `ws` reads one text frame after the other, and replies to each before it
reads the next.  What is raised between reading a frame and dispatching it leaves the
loop and closes the socket.  Every frame of a session gets its reply exactly if every
one is `Legible` (`repliesToAll_iff`).

The interpreter also reads texts with a surrogate outside a pair, which no text of the
model holds: U+FFFD stands for it, and what the dispatch of such a message does is a
parameter.  The reply is sent as ASCII, whatever texts it holds.
-/

namespace Wcp.Coordinator

open Wcp.Base

/-- `json.loads` of the interpreter: how it reads the text of a float, and the texts on which it
gives up otherwise than with a `JSONDecodeError` (an integer of more digits than it converts, a
nesting deeper than its stack). -/
structure JsonModule where
  float : List Char → Option PyFloat
  givesUp : String → Bool

/-- A socket: the coordinator behind it, the replies sent so far, and whether the loop goes on. -/
structure Socket where
  world : World
  sent : List Json
  listening : Bool

/-- What happens while a socket is open: a frame comes, or something elsewhere. -/
inductive SocketInput where
  | frame (raw : String)
  | elsewhere (e : Event)

namespace Socket

def accepted (w : World) : Socket := ⟨w, [], true⟩

/-- What `json.loads` makes of a frame, none for a `JSONDecodeError`. -/
def message (json : JsonModule) (raw : String) : Option Json :=
  (loads json.float raw).or (loadsReplacing json.float raw)

section Loop

variable (env : Env) (exceptions : Exceptions) (json : JsonModule)
  (dispatchStray : String → World → Except Err Json × World)

/-- The reply to a frame; `dispatchStray` dispatches an object that holds a surrogate outside a
pair. -/
def handle (raw : String) (w : World) : Option Json × World :=
  match message json raw, loads json.float raw with
  | some (.obj req), none => w.reply exceptions (member req "id") (dispatchStray raw w)
  | message, _ => ws env exceptions message w

/-- One round of the loop of `ws`. -/
def receive (s : Socket) (raw : String) : Socket :=
  if s.listening = false then s
  else if json.givesUp raw then { s with listening := false }
  else
    match handle env exceptions json dispatchStray raw s.world with
    | (some reply, w) => { s with world := w, sent := s.sent ++ [reply] }
    | (none, w) => { s with world := w, listening := false }

def step (s : Socket) : SocketInput → Socket
  | .frame raw => s.receive env exceptions json dispatchStray raw
  | .elsewhere e => { s with world := eventStep env exceptions s.world e }

end Loop

def frames (inputs : List SocketInput) : List String :=
  inputs.filterMap fun
    | .frame raw => some raw
    | .elsewhere _ => none

/-- The id of a message, null where there is none. -/
def messageId : Option Json → Json
  | some (.obj req) => Coordinator.member req "id"
  | _ => .null

def frameId (json : JsonModule) (raw : String) : Json := messageId (message json raw)

/-- A JSON-RPC reply to a request of the given id. -/
def RepliesTo (id reply : Json) : Prop :=
  (∃ result, reply = resultReply id result) ∨ ∃ code message, reply = errorReply id code message

/-- The loop goes on, and has sent one reply for each frame, in order. -/
def RepliesToAll (json : JsonModule) (received : List String) (s : Socket) : Prop :=
  s.listening = true ∧
    List.Forall₂ (fun raw reply => RepliesTo (frameId json raw) reply) received s.sent

/-- A frame that the interpreter reads and that is an object, or that is no JSON text. -/
def Legible (json : JsonModule) (raw : String) : Prop :=
  json.givesUp raw = false ∧
    ∀ v, message json raw = some v → ∃ members, v = .obj members

variable {env : Env} {exceptions : Exceptions} {json : JsonModule}
  {dispatchStray : String → World → Except Err Json × World}

theorem repliesTo_wsError (id : Json) (e : Err) : RepliesTo id (wsError exceptions id e) := by
  right
  unfold wsError
  split
  · exact ⟨_, _, rfl⟩
  · exact ⟨_, _, rfl⟩

theorem reply_replies (w : World) (id : Json) (outcome : Except Err Json × World) :
    ∃ reply w', w.reply exceptions id outcome = (some reply, w') ∧ RepliesTo id reply := by
  unfold World.reply
  split
  · split
    · exact ⟨_, _, rfl, repliesTo_wsError _ _⟩
    · exact ⟨_, _, rfl, .inl ⟨_, rfl⟩⟩
  · exact ⟨_, _, rfl, repliesTo_wsError _ _⟩

/-- A message that is an object, or that is no JSON text, gets its reply. -/
theorem ws_replies {message : Option Json} (h : ∀ v, message = some v → ∃ members, v = .obj members)
    (w : World) :
    ∃ reply w', ws env exceptions message w = (some reply, w') ∧
      RepliesTo (messageId message) reply := by
  cases message with
  | none => exact ⟨_, _, rfl, .inr ⟨_, _, rfl⟩⟩
  | some v =>
      obtain ⟨req, rfl⟩ := h v rfl
      exact reply_replies w _ _

theorem handle_replies {raw : String}
    (h : ∀ v, message json raw = some v → ∃ members, v = .obj members) (w : World) :
    ∃ reply w', handle env exceptions json dispatchStray raw w = (some reply, w') ∧
      RepliesTo (frameId json raw) reply := by
  unfold handle frameId
  split
  · next hmessage _ =>
      rw [hmessage]
      exact reply_replies w _ _
  · exact ws_replies h w

theorem Legible.receive {s : Socket} {raw : String} (h : Legible json raw)
    (hlistening : s.listening = true) :
    ∃ w reply, s.receive env exceptions json dispatchStray raw = ⟨w, s.sent ++ [reply], true⟩ ∧
      RepliesTo (frameId json raw) reply := by
  obtain ⟨reply, w, hws, hreply⟩ :=
    @handle_replies env exceptions json dispatchStray raw h.2 s.world
  refine ⟨w, reply, ?_, hreply⟩
  rw [Socket.receive, if_neg (by rw [hlistening]; decide), h.1, if_neg Bool.false_ne_true, hws,
    hlistening]

theorem receive_illegible {s : Socket} {raw : String} (h : ¬ Legible json raw) :
    (s.receive env exceptions json dispatchStray raw).listening = false := by
  rw [receive]
  split
  next hclosed => exact hclosed
  next =>
    split
    next => rfl
    next hreads =>
      have hvalue : ∃ v, message json raw = some v ∧ ∀ members, v ≠ .obj members := by
        by_contra hall
        refine h ⟨Bool.eq_false_iff.2 hreads, fun v hv => ?_⟩
        by_contra hv'
        exact hall ⟨v, hv, not_exists.1 hv'⟩
      obtain ⟨v, hv, hshape⟩ := hvalue
      have hcloses : handle env exceptions json dispatchStray raw s.world = (none, s.world) := by
        unfold handle
        rw [hv]
        cases v with
        | obj members => exact absurd rfl (hshape members)
        | _ => rfl
      rw [hcloses]

/-! ## Sessions -/

theorem step_closed {s : Socket} (h : s.listening = false) (input : SocketInput) :
    (s.step env exceptions json dispatchStray input).listening = false := by
  cases input with
  | frame raw =>
      rw [step, receive, if_pos h]
      exact h
  | elsewhere e => exact h

theorem legible_of_listening {s : Socket} {inputs : List SocketInput}
    (h : (run (step env exceptions json dispatchStray) s inputs).listening = true) :
    ∀ raw ∈ frames inputs, Legible json raw := by
  induction inputs generalizing s with
  | nil => exact fun _ hraw => absurd hraw List.not_mem_nil
  | cons input inputs ih =>
      have hrest := ih h
      cases input with
      | frame raw =>
          have hraw : Legible json raw := by
            by_contra hraw
            have hclosed : (run (step env exceptions json dispatchStray)
                (s.step env exceptions json dispatchStray (.frame raw)) inputs).listening = false :=
              @run_invariant _ _ _ (fun s : Socket => s.listening = false) (fun _ => True)
                (fun s i hs _ => step_closed hs i) _ _ (receive_illegible hraw) fun _ _ => trivial
            exact Bool.false_ne_true (hclosed.symm.trans h)
          exact List.forall_mem_cons.2 ⟨hraw, hrest⟩
      | elsewhere e => exact hrest

theorem repliesToAll_of_legible {s : Socket} {inputs : List SocketInput} {received : List String}
    (hs : RepliesToAll json received s) (h : ∀ raw ∈ frames inputs, Legible json raw) :
    RepliesToAll json (received ++ frames inputs)
      (run (step env exceptions json dispatchStray) s inputs) := by
  induction inputs generalizing s received with
  | nil => simpa [frames] using hs
  | cons input inputs ih =>
      cases input with
      | frame raw =>
          obtain ⟨hraw, hrest⟩ := List.forall_mem_cons.1 h
          obtain ⟨w, reply, hreceive, hreply⟩ :=
            @Legible.receive env exceptions json dispatchStray s raw hraw hs.1
          have hnext : RepliesToAll json (received ++ [raw])
              (s.step env exceptions json dispatchStray (.frame raw)) := by
            rw [step, hreceive]
            exact ⟨rfl, List.rel_append hs.2 (.cons hreply .nil)⟩
          have hall := ih hnext hrest
          rwa [List.append_assoc] at hall
      | elsewhere e => exact ih (s := s.step env exceptions json dispatchStray (.elsewhere e)) hs h

/-- Every frame of a session gets exactly one reply, in order and with its id, and the loop goes
on after the last, exactly if every frame is an object or no JSON text. -/
theorem repliesToAll_iff (env : Env) (exceptions : Exceptions) (json : JsonModule)
    (dispatchStray : String → World → Except Err Json × World) (w : World)
    (inputs : List SocketInput) :
    RepliesToAll json (frames inputs)
        (run (step env exceptions json dispatchStray) (accepted w) inputs) ↔
      ∀ raw ∈ frames inputs, Legible json raw := by
  constructor
  · exact fun h => legible_of_listening h.1
  · intro h
    have hstart : RepliesToAll json [] (accepted w) := ⟨rfl, .nil⟩
    exact repliesToAll_of_legible hstart h

/-- A JSON text that is no object closes the socket. -/
theorem array_frame_unanswered :
    ¬ RepliesToAll ⟨fun _ => none, fun _ => false⟩ (frames [.frame "[]"])
      (run (step localEnv ⟨fun _ => "", fun _ => ""⟩ ⟨fun _ => none, fun _ => false⟩
        fun _ w => (.ok .null, w)) (accepted (initial [])) [.frame "[]"]) := by
  rintro ⟨hlistening, -⟩
  exact absurd hlistening (by decide +kernel)

example : ((accepted (initial [])).receive localEnv ⟨fun _ => "", fun _ => ""⟩
    ⟨fun _ => none, fun _ => false⟩ (fun _ w => (.ok .null, w)) "[\"\\ud800\"]").listening =
      false := by decide +kernel

end Socket

end Wcp.Coordinator
