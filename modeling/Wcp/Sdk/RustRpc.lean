import Wcp.Base.Correlator
import Wcp.Base.Json
import Wcp.Base.Runs
/-!
# The RPC client of the Rust SDK

`call` runs in any number of tasks beside a reader and a writer task.  The calls that
have inserted themselves into the pending map are answered through their oneshot
channels; the frames they write go through the writer's queue.

As long as the counter has not gone round, a call returns the first response with its
id or that the writer is gone, and the map holds exactly the calls that have had no
response, among them those whose frame was never sent and those whose future was
dropped (`calls_exact`).  A call that waits returns only as long as the reader runs
(`pending_call_returns_iff`).
-/

namespace Wcp.Sdk.Rust

open Wcp.Base

/-! ## Messages -/

inductive RpcError where
  | connect (reason : String)
  | sendFailure
  | rpcError (code : Int) (message : String)
  | internal (reason : String)
deriving DecidableEq

/-- The frame that a call sends. -/
structure Envelope where
  id : UInt64
  method : String
  params : Json
deriving DecidableEq

/-- A response that the reader finds a call for. -/
structure Response where
  id : UInt64
  value : Except RpcError Json

/-- `v.get(key)`. -/
def get (v : Json) (key : String) : Option Json :=
  match v with
  | .obj ms => ms.lookup key
  | _ => none

def asU64 : Json → Option UInt64
  | .int i => if 0 ≤ i ∧ i.toNat < UInt64.size then some (UInt64.ofNat i.toNat) else none
  | _ => none

def asI64 : Json → Option Int
  | .int i => if -9223372036854775808 ≤ i ∧ i ≤ 9223372036854775807 then some i else none
  | _ => none

def asStr : Json → Option String
  | .str s => some s
  | _ => none

/-- What the reader sends on the oneshot channel for a frame. -/
def responseValue (v : Json) : Except RpcError Json :=
  match get v "error" with
  | some err =>
      .error (.rpcError (((get err "code").bind asI64).getD (-32603))
        (((get err "message").bind asStr).getD ""))
  | none => .ok ((get v "result").getD .null)

/-- The response that a frame is, if it has an id. -/
def response (v : Json) : Option Response :=
  ((get v "id").bind asU64).map fun id => ⟨id, responseValue v⟩

/-! ## Tasks -/

/-- A oneshot channel; it is closed when its sender is dropped. -/
inductive Oneshot where
  | empty
  | sent (value : Except RpcError Json)
  | closed

/-- How far a `call` has come. -/
inductive CallPhase where
  | idle
  /-- It waits for the lock of the map. -/
  | numbered (envelope : Envelope)
  | inserted (envelope : Envelope)
  /-- It awaits its oneshot channel. -/
  | waiting (id : UInt64)
  | returned (r : Except RpcError Json)
  /-- Its future was dropped. -/
  | dropped

/-- `RpcClient` with its tasks; `drawn` lists the calls in the order of their ids. -/
structure RpcClient where
  nextId : UInt64
  drawn : List Nat
  pending : Correlator UInt64 Nat Response
  phase : Nat → CallPhase
  oneshot : Nat → Oneshot
  queue : List Envelope
  sent : List Envelope
  readerEnded : Bool
  writerEnded : Bool

/-- What happens next. -/
inductive Step where
  | call (i : Nat) (method : String) (params : Json)
  | insert (i : Nat)
  | send (i : Nat)
  | poll (i : Nat)
  | drop (i : Nat)
  /-- A text frame; `none` is one that is no JSON. -/
  | message (m : Option Json)
  /-- The stream ends or fails. -/
  | readEnd
  | transmit (ok : Bool)

namespace RpcClient

/-- The client that `connect` returns. -/
def connect : RpcClient where
  nextId := 1
  drawn := []
  pending := Correlator.empty
  phase _ := .idle
  oneshot _ := .empty
  queue := []
  sent := []
  readerEnded := false
  writerEnded := false

def setPhase (c : RpcClient) (i : Nat) (p : CallPhase) : RpcClient :=
  { c with phase := Function.update c.phase i p }

def setOneshot (c : RpcClient) (i : Nat) (o : Oneshot) : RpcClient :=
  { c with oneshot := Function.update c.oneshot i o }

def dropSender (c : RpcClient) : Option Nat → RpcClient
  | some j =>
      match c.oneshot j with
      | .empty => c.setOneshot j .closed
      | _ => c
  | none => c

/-- `HashMap::insert`: a sender under the same id is dropped. -/
def insertPending (c : RpcClient) (i : Nat) (id : UInt64) : RpcClient :=
  let c := c.dropSender (c.pending.pending id)
  { c with pending := c.pending.register i id }

/-- The reader has a response: its call leaves the map and gets the value. -/
def respond (c : RpcClient) (r : Response) : RpcClient :=
  let found := c.pending.pending r.id
  let c := { c with pending := c.pending.receive Response.id r }
  match found with
  | some i => c.setOneshot i (.sent r.value)
  | none => c

/-- One step; a step that is not due changes nothing. -/
def step (c : RpcClient) : Step → RpcClient
  | .call i method params =>
      match c.phase i with
      | .idle =>
          { c with nextId := c.nextId + 1, drawn := c.drawn ++ [i] }.setPhase i
            (.numbered ⟨c.nextId, method, params⟩)
      | _ => c
  | .insert i =>
      match c.phase i with
      | .numbered envelope => (c.insertPending i envelope.id).setPhase i (.inserted envelope)
      | _ => c
  | .send i =>
      match c.phase i with
      | .inserted envelope =>
          if c.writerEnded then c.setPhase i (.returned (.error .sendFailure))
          else { c with queue := c.queue ++ [envelope] }.setPhase i (.waiting envelope.id)
      | _ => c
  | .poll i =>
      match c.phase i with
      | .waiting _ =>
          match c.oneshot i with
          | .empty => c
          | .sent value => c.setPhase i (.returned value)
          | .closed => c.setPhase i (.returned (.error (.internal "channel closed")))
      | _ => c
  -- a future is dropped where it awaits
  | .drop i =>
      match c.phase i with
      | .numbered _ | .waiting _ => c.setPhase i .dropped
      | _ => c
  | .message m =>
      if c.readerEnded then c
      else
        match m.bind response with
        | some r => c.respond r
        | none => c
  | .readEnd => { c with readerEnded := true }
  | .transmit ok =>
      match c.queue with
      | [] => c
      | envelope :: rest =>
          if c.writerEnded then c
          else if ok then { c with queue := rest, sent := c.sent ++ [envelope] }
          else { c with queue := [], writerEnded := true }

/-- The client after some steps. -/
def after (steps : List Step) : RpcClient := run step connect steps

/-! ## What a step does -/

variable {c c' : RpcClient} {i : Nat}

inductive Effect (c : RpcClient) : Step → RpcClient → Prop
  | kept {s : Step} : Effect c s c
  | called (i : Nat) (method : String) (params : Json) (hi : c.phase i = .idle) :
      Effect c (.call i method params)
        ({ c with nextId := c.nextId + 1, drawn := c.drawn ++ [i] }.setPhase i
          (.numbered ⟨c.nextId, method, params⟩))
  | inserted (i : Nat) (envelope : Envelope) (hi : c.phase i = .numbered envelope) :
      Effect c (.insert i) ((c.insertPending i envelope.id).setPhase i (.inserted envelope))
  /-- A call has its frame in the queue, finds no writer or is dropped. -/
  | goes {s : Step} (i : Nat) (p : CallPhase) (queue : List Envelope)
      (hp : (∃ envelope, c.phase i = .inserted envelope ∧
          (p = .waiting envelope.id ∨ p = .returned (.error .sendFailure))) ∨
        p = .dropped ∧ c.phase i ≠ .idle ∧ ∀ r, c.phase i ≠ .returned r) :
      Effect c s ({ c with queue := queue }.setPhase i p)
  | polled (i : Nat) (id : UInt64) (value : Except RpcError Json) (hi : c.phase i = .waiting id)
      (ho : c.oneshot i = .sent value ∨ c.oneshot i = .closed) :
      Effect c (.poll i) (c.setPhase i (.returned value))
  | responded {s : Step} (r : Response) (hreader : c.readerEnded = false) :
      Effect c s (c.respond r)
  | ended : Effect c .readEnd { c with readerEnded := true }
  | transmitted {s : Step} (queue sent : List Envelope) (writerEnded : Bool) :
      Effect c s { c with queue := queue, sent := sent, writerEnded := writerEnded }

theorem step_effect (c : RpcClient) (s : Step) : Effect c s (c.step s) := by
  cases s with
  | call i method params =>
      simp only [step]
      split
      · next hi => exact .called i method params hi
      · exact .kept
  | insert i =>
      simp only [step]
      split
      · next envelope hi => exact .inserted i envelope hi
      · exact .kept
  | send i =>
      simp only [step]
      split
      · next envelope hi =>
          split
          · exact .goes i _ c.queue (.inl ⟨envelope, hi, .inr rfl⟩)
          · exact .goes i _ _ (.inl ⟨envelope, hi, .inl rfl⟩)
      · exact .kept
  | poll i =>
      simp only [step]
      split
      · next id hi =>
          split
          · exact .kept
          · next value ho => exact .polled i id value hi (.inl ho)
          · next ho => exact .polled i id _ hi (.inr ho)
      · exact .kept
  | drop i =>
      simp only [step]
      split
      · next envelope hi => exact .goes i _ c.queue (.inr ⟨rfl, by simp [hi], by simp [hi]⟩)
      · next id hi => exact .goes i _ c.queue (.inr ⟨rfl, by simp [hi], by simp [hi]⟩)
      · exact .kept
  | message m =>
      simp only [step]
      split
      · exact .kept
      · next hreader =>
          split
          · next r hr => exact .responded r (by simpa using hreader)
          · exact .kept
  | readEnd => exact .ended
  | transmit ok =>
      simp only [step]
      split
      · exact .kept
      · next envelope rest hqueue =>
          split
          · exact .kept
          · split
            · exact .transmitted rest _ c.writerEnded
            · exact .transmitted [] c.sent true

theorem drawn_grows (c : RpcClient) (s : Step) : c.drawn <+: (c.step s).drawn := by
  have heffect := step_effect c s
  generalize c.step s = c' at heffect ⊢
  have hdrop : ∀ o, (c.dropSender o).drawn = c.drawn := by
    intro o
    unfold dropSender
    split
    · split <;> rfl
    · rfl
  cases heffect with
  | called i method params hi => exact List.prefix_append _ _
  | inserted i envelope hi => exact (hdrop _).symm ▸ List.prefix_refl _
  | responded r hreader =>
      show c.drawn <+: (c.respond r).drawn
      unfold respond
      dsimp only
      split <;> exact List.prefix_refl _
  | _ => exact List.prefix_refl _

/-! ## Ids -/

/-- The id that the `n`-th call draws. -/
def idOf (n : Nat) : UInt64 := UInt64.ofNat (n + 1)

theorem idOf_inj {n m : Nat} (hn : n < UInt64.size) (hm : m < UInt64.size)
    (h : idOf n = idOf m) : n = m := by
  have hnat := congrArg UInt64.toNat h
  simp only [idOf, UInt64.toNat_ofNat', UInt64.size] at hnat hn hm
  omega

/-- Calls and their ids. -/
structure Numbered (c : RpcClient) : Prop where
  nextId : c.nextId = idOf c.drawn.length
  nodup : c.drawn.Nodup
  idle : ∀ i, c.phase i = .idle → i ∉ c.drawn ∧ c.pending.key i = none
  numbered : ∀ i envelope, c.phase i = .numbered envelope →
    c.pending.key i = none ∧ ∃ n, c.drawn[n]? = some i ∧ envelope.id = idOf n
  keyed : ∀ i id, c.pending.key i = some id → ∃ n, c.drawn[n]? = some i ∧ id = idOf n
  inserted : ∀ i envelope, c.phase i = .inserted envelope → c.pending.key i = some envelope.id
  waiting : ∀ i id, c.phase i = .waiting id → c.pending.key i = some id

theorem connect_numbered : Numbered connect where
  nextId := rfl
  nodup := List.nodup_nil
  idle _ _ := ⟨List.not_mem_nil, rfl⟩
  numbered _ _ h := by cases h
  keyed _ _ h := by cases h
  inserted _ _ h := by cases h
  waiting _ _ h := by cases h

/-- As long as the counter has not gone round, a call draws an id that no other call has used. -/
theorem Numbered.unused {envelope : Envelope} (h : Numbered c)
    (hbound : c.drawn.length ≤ UInt64.size)
    (hi : c.phase i = .numbered envelope) (j : Nat) : c.pending.key j ≠ some envelope.id := by
  intro hj
  obtain ⟨hnone, n, hn, hid⟩ := h.numbered i envelope hi
  obtain ⟨m, hm, hid'⟩ := h.keyed j _ hj
  have hnlt := (List.getElem?_eq_some_iff.1 hn).1
  have hmlt := (List.getElem?_eq_some_iff.1 hm).1
  obtain rfl := idOf_inj (by omega) (by omega) (hid.symm.trans hid')
  obtain rfl : i = j := Option.some.inj (hn.symm.trans hm)
  rw [hnone] at hj
  cases hj

theorem Numbered.goes {p : CallPhase} (h : Numbered c) (hdrawn : c'.drawn = c.drawn)
    (hnext : c'.nextId = c.nextId) (hkey : c'.pending.key = c.pending.key)
    (hphase : c'.phase = Function.update c.phase i p) (hidle : p ≠ .idle)
    (hnumbered : ∀ envelope, p ≠ .numbered envelope)
    (hinserted : ∀ envelope, p = .inserted envelope → c.pending.key i = some envelope.id)
    (hwaiting : ∀ id, p = .waiting id → c.pending.key i = some id) : Numbered c' := by
  have hother : ∀ {j : Nat} {q : CallPhase}, c'.phase j = q → p ≠ q → c.phase j = q := by
    intro j q hj hq
    rw [hphase] at hj
    by_cases hji : j = i
    · subst hji
      exact absurd (by simpa using hj) hq
    · simpa [hji] using hj
  refine ⟨?_, hdrawn ▸ h.nodup, ?_, ?_, ?_, ?_, ?_⟩
  · rw [hnext, hdrawn]
    exact h.nextId
  · intro j hj
    rw [hdrawn, hkey]
    exact h.idle j (hother hj hidle)
  · intro j envelope hj
    rw [hdrawn, hkey]
    exact h.numbered j envelope (hother hj (hnumbered envelope))
  · rw [hdrawn, hkey]
    exact h.keyed
  · intro j envelope hj
    rw [hkey]
    by_cases hp : p = .inserted envelope
    · rw [hphase] at hj
      by_cases hji : j = i
      · subst hji
        exact hinserted envelope hp
      · exact h.inserted j envelope (by simpa [hji] using hj)
    · exact h.inserted j envelope (hother hj hp)
  · intro j id hj
    rw [hkey]
    by_cases hp : p = .waiting id
    · rw [hphase] at hj
      by_cases hji : j = i
      · subst hji
        exact hwaiting id hp
      · exact h.waiting j id (by simpa [hji] using hj)
    · exact h.waiting j id (hother hj hp)

theorem Numbered.same (h : Numbered c) (hdrawn : c'.drawn = c.drawn) (hnext : c'.nextId = c.nextId)
    (hkey : c'.pending.key = c.pending.key) (hphase : c'.phase = c.phase) : Numbered c' := by
  refine ⟨?_, hdrawn ▸ h.nodup, ?_, ?_, ?_, ?_, ?_⟩
  · rw [hnext, hdrawn]
    exact h.nextId
  · rw [hphase, hdrawn, hkey]
    exact h.idle
  · rw [hphase, hdrawn, hkey]
    exact h.numbered
  · rw [hdrawn, hkey]
    exact h.keyed
  · rw [hphase, hkey]
    exact h.inserted
  · rw [hphase, hkey]
    exact h.waiting

theorem Numbered.called (h : Numbered c) (hi : c.phase i = .idle) (method : String)
    (params : Json) :
    Numbered ({ c with nextId := c.nextId + 1, drawn := c.drawn ++ [i] }.setPhase i
      (.numbered ⟨c.nextId, method, params⟩)) := by
  obtain ⟨hfresh, hnone⟩ := h.idle i hi
  have hold : ∀ {j n : Nat}, c.drawn[n]? = some j → (c.drawn ++ [i])[n]? = some j := by
    intro j n hn
    rw [List.getElem?_append_left (List.getElem?_eq_some_iff.1 hn).1, hn]
  refine ⟨?_, ?_, ?_, ?_, ?_, ?_, ?_⟩
  · show c.nextId + 1 = idOf (c.drawn ++ [i]).length
    rw [h.nextId, List.length_append, List.length_singleton, idOf, idOf, UInt64.ofNat_add,
      UInt64.ofNat_add, UInt64.ofNat_add]
    rfl
  · show (c.drawn ++ [i]).Nodup
    rw [← List.concat_eq_append]
    exact (List.nodup_concat _ _).2 ⟨hfresh, h.nodup⟩
  · intro j hj
    have hji : j ≠ i := by
      rintro rfl
      simp [setPhase] at hj
    obtain ⟨hmem, hkey⟩ := h.idle j (by simpa [setPhase, hji] using hj)
    exact ⟨by simpa [setPhase, hji] using hmem, hkey⟩
  · intro j envelope hj
    by_cases hji : j = i
    · subst hji
      obtain rfl : (⟨c.nextId, method, params⟩ : Envelope) = envelope := by
        simpa [setPhase] using hj
      exact ⟨hnone, c.drawn.length, by simp [setPhase], h.nextId⟩
    · obtain ⟨hkey, n, hn, hid⟩ := h.numbered j envelope (by simpa [setPhase, hji] using hj)
      exact ⟨hkey, n, hold hn, hid⟩
  · intro j id hj
    obtain ⟨n, hn, hid⟩ := h.keyed j id hj
    exact ⟨n, hold hn, hid⟩
  · intro j envelope hj
    have hji : j ≠ i := by
      rintro rfl
      simp [setPhase] at hj
    exact h.inserted j envelope (by simpa [setPhase, hji] using hj)
  · intro j id hj
    have hji : j ≠ i := by
      rintro rfl
      simp [setPhase] at hj
    exact h.waiting j id (by simpa [setPhase, hji] using hj)

/-! ## Calls and responses -/

/-- What a call returns: the value of the response it was handed, or that its frame could not be
sent. -/
def Justified (c : RpcClient) (i : Nat) (value : Except RpcError Json) : Prop :=
  value = .error .sendFailure ∨ ∃ r, c.pending.Answered i r ∧ value = r.value

/-- Calls and responses as long as no id was used twice. -/
structure Exact (c : RpcClient) : Prop extends Numbered c where
  retained : c.pending.Retained Response.id
  oneshot : ∀ i value, c.oneshot i = .sent value →
    ∃ r, c.pending.Answered i r ∧ value = r.value
  unclosed : ∀ i, c.oneshot i ≠ .closed
  returned : ∀ i value, c.phase i = .returned value → c.Justified i value

theorem connect_exact : Exact connect where
  toNumbered := connect_numbered
  retained := Correlator.retained_empty
  oneshot _ _ h := by cases h
  unclosed _ h := by cases h
  returned _ _ h := by cases h

theorem Exact.insertPending {envelope : Envelope} (h : Exact c)
    (hbound : c.drawn.length ≤ UInt64.size)
    (hi : c.phase i = .numbered envelope) :
    c.insertPending i envelope.id = { c with pending := c.pending.register i envelope.id } := by
  have hnone : c.pending.pending envelope.id = none := by
    rw [Option.eq_none_iff_forall_ne_some]
    intro j hj
    exact h.unused hbound hi j ((h.retained.pending_iff _ j).1 hj).1
  unfold RpcClient.insertPending
  rw [hnone]
  rfl

theorem Exact.inserted_step {envelope : Envelope} (h : Exact c)
    (hbound : c.drawn.length ≤ UInt64.size)
    (hi : c.phase i = .numbered envelope) :
    Exact ((c.insertPending i envelope.id).setPhase i (.inserted envelope)) := by
  obtain ⟨hnone, n, hn, hid⟩ := h.numbered i envelope hi
  have hunused := h.unused hbound hi
  rw [h.insertPending hbound hi]
  have hkey : ∀ j, (c.pending.register i envelope.id).key j =
      if j = i then some envelope.id else c.pending.key j := fun j => Function.update_apply ..
  refine ⟨⟨h.nextId, h.nodup, ?_, ?_, ?_, ?_, ?_⟩, h.retained.register hnone hunused, h.oneshot,
    h.unclosed, ?_⟩
  · intro j hj
    have hji : j ≠ i := by
      rintro rfl
      simp [setPhase] at hj
    obtain ⟨hmem, hnone'⟩ := h.idle j (by simpa [setPhase, hji] using hj)
    exact ⟨hmem, (hkey j).trans (by rw [if_neg hji, hnone'])⟩
  · intro j envelope' hj
    have hji : j ≠ i := by
      rintro rfl
      simp [setPhase] at hj
    obtain ⟨hnone', hdrawn⟩ := h.numbered j envelope' (by simpa [setPhase, hji] using hj)
    exact ⟨(hkey j).trans (by rw [if_neg hji, hnone']), hdrawn⟩
  · intro j id hj
    have hj' := (hkey j).symm.trans hj
    by_cases hji : j = i
    · subst hji
      rw [if_pos rfl] at hj'
      exact ⟨n, hn, (Option.some.inj hj').symm.trans hid⟩
    · rw [if_neg hji] at hj'
      exact h.keyed j id hj'
  · intro j envelope' hj
    refine (hkey j).trans ?_
    by_cases hji : j = i
    · subst hji
      obtain rfl : envelope = envelope' := by simpa [setPhase] using hj
      rw [if_pos rfl]
    · rw [if_neg hji]
      exact h.inserted j envelope' (by simpa [setPhase, hji] using hj)
  · intro j id hj
    have hji : j ≠ i := by
      rintro rfl
      simp [setPhase] at hj
    exact (hkey j).trans
      (by rw [if_neg hji]; exact h.waiting j id (by simpa [setPhase, hji] using hj))
  · intro j value hj
    have hji : j ≠ i := by
      rintro rfl
      simp [setPhase] at hj
    exact h.returned j value (by simpa [setPhase, hji] using hj)

theorem Exact.respond (h : Exact c) (r : Response) : Exact (c.respond r) := by
  have hanswered : ∀ {j : Nat} {old : Response}, c.pending.Answered j old →
      (c.pending.receive Response.id r).Answered j old := fun hold => hold.receive r
  unfold RpcClient.respond
  dsimp only
  split
  · next j hj =>
      refine ⟨h.same rfl rfl rfl rfl, h.retained.receive r, ?_, ?_, ?_⟩
      · intro i value hi
        by_cases hij : i = j
        · subst hij
          have hvalue : r.value = value := by simpa [setOneshot] using hi
          exact ⟨r, Correlator.answered_receive hj, hvalue.symm⟩
        · obtain ⟨old, hold, hvalue⟩ := h.oneshot i value (by simpa [setOneshot, hij] using hi)
          exact ⟨old, hanswered hold, hvalue⟩
      · intro i hi
        by_cases hij : i = j
        · subst hij
          simp [setOneshot] at hi
        · exact h.unclosed i (by simpa [setOneshot, hij] using hi)
      · intro i value hi
        exact (h.returned i value hi).imp_right fun hr => by
          obtain ⟨old, hold, hvalue⟩ := hr
          exact ⟨old, hanswered hold, hvalue⟩
  · refine ⟨h.same rfl rfl rfl rfl, h.retained.receive r, ?_, h.unclosed, ?_⟩
    · intro i value hi
      obtain ⟨old, hold, hvalue⟩ := h.oneshot i value hi
      exact ⟨old, hanswered hold, hvalue⟩
    · intro i value hi
      exact (h.returned i value hi).imp_right fun hr => by
        obtain ⟨old, hold, hvalue⟩ := hr
        exact ⟨old, hanswered hold, hvalue⟩

theorem Exact.goes {p : CallPhase} (h : Exact c) (queue : List Envelope) (hidle : p ≠ .idle)
    (hnumbered : ∀ envelope, p ≠ .numbered envelope)
    (hinserted : ∀ envelope, p ≠ .inserted envelope)
    (hwaiting : ∀ id, p = .waiting id → c.pending.key i = some id)
    (hreturned : ∀ value, p = .returned value → c.Justified i value) :
    Exact ({ c with queue := queue }.setPhase i p) := by
  refine ⟨h.toNumbered.goes rfl rfl rfl rfl hidle hnumbered
    (fun envelope hp => absurd hp (hinserted envelope)) hwaiting, h.retained, h.oneshot,
    h.unclosed, ?_⟩
  intro j value hj
  by_cases hji : j = i
  · subst hji
    exact hreturned value (by simpa [setPhase] using hj)
  · exact h.returned j value (by simpa [setPhase, hji] using hj)

theorem Exact.step (h : Exact c) (hbound : c.drawn.length ≤ UInt64.size) (s : Step) :
    Exact (c.step s) := by
  have heffect := step_effect c s
  generalize c.step s = c' at heffect ⊢
  cases heffect with
  | kept => exact h
  | called i method params hi =>
      refine ⟨h.toNumbered.called hi method params, h.retained, h.oneshot, h.unclosed, ?_⟩
      intro j value hj
      have hji : j ≠ i := by
        rintro rfl
        simp [setPhase] at hj
      exact h.returned j value (by simpa [setPhase, hji] using hj)
  | inserted i envelope hi => exact h.inserted_step hbound hi
  | goes i p queue hp =>
      rcases hp with ⟨envelope, hi, rfl | rfl⟩ | ⟨rfl, -, -⟩
      · refine h.goes queue (by simp) (by simp) (by simp) ?_ (by simp)
        intro id hid
        cases hid
        exact h.inserted i envelope hi
      · refine h.goes queue (by simp) (by simp) (by simp) (by simp) ?_
        intro value hvalue
        cases hvalue
        exact .inl rfl
      · exact h.goes queue (by simp) (by simp) (by simp) (by simp) (by simp)
  | polled i id value hi ho =>
      have hsent := ho.resolve_right (h.unclosed i)
      refine h.goes c.queue (by simp) (by simp) (by simp) (by simp) ?_
      intro value' hvalue
      cases hvalue
      exact .inr (h.oneshot i value hsent)
  | responded r hreader => exact h.respond r
  | ended => exact ⟨h.same rfl rfl rfl rfl, h.retained, h.oneshot, h.unclosed, h.returned⟩
  | transmitted queue sent writerEnded =>
      exact ⟨h.same rfl rfl rfl rfl, h.retained, h.oneshot, h.unclosed, h.returned⟩

theorem drawn_le (c : RpcClient) (steps : List Step) :
    c.drawn.length ≤ (run step c steps).drawn.length :=
  @run_relates _ _ step (fun _ => True) (fun c c' => c.drawn.length ≤ c'.drawn.length)
    (fun _ => Nat.le_refl _) Nat.le_trans (fun _ _ _ => trivial)
    (fun c s _ => (drawn_grows c s).length_le) c steps trivial

theorem run_exact (h : Exact c) (steps : List Step)
    (hbound : (run step c steps).drawn.length ≤ UInt64.size) : Exact (run step c steps) := by
  induction steps generalizing c with
  | nil => exact h
  | cons s steps ih =>
      have hc : c.drawn.length ≤ UInt64.size := Nat.le_trans (drawn_le c (s :: steps)) hbound
      exact ih (h.step hc s) hbound

/-- Which calls the map holds and what the others returned. -/
structure CallsExact (c : RpcClient) : Prop where
  /-- The map holds the calls that have inserted themselves and had no response since, whether or
  not their frame was sent and somebody awaits them. -/
  held : ∀ id i, c.pending.pending id = some i ↔ c.pending.key i = some id ∧
    ∀ n r, c.pending.since i ≤ n → c.pending.read[n]? = some r → r.id ≠ id
  /-- A call returns the first response with its id, or that the writer is gone. -/
  returned : ∀ i value, c.phase i = .returned value → value = .error .sendFailure ∨
    ∃ n r, c.pending.since i ≤ n ∧ c.pending.read[n]? = some r ∧ c.pending.key i = some r.id ∧
      (∀ m r', c.pending.since i ≤ m → m < n → c.pending.read[m]? = some r' →
        c.pending.key i ≠ some r'.id) ∧ value = r.value

/-- Whatever the tasks, the network and the callers do, as long as the counter of ids has not gone
round. -/
theorem calls_exact (steps : List Step) (hbound : (after steps).drawn.length ≤ UInt64.size) :
    CallsExact (after steps) := by
  have h := run_exact connect_exact steps hbound
  refine ⟨h.retained.pending_iff, ?_⟩
  intro i value hi
  rcases h.returned i value hi with hvalue | ⟨r, ⟨n, hn, hr⟩, hvalue⟩
  · exact .inl hvalue
  · obtain ⟨hsince, ⟨r', hr', hkey⟩, hfirst⟩ := (h.retained.answers_iff i n).1 hn
    obtain rfl : r = r' := Option.some.inj (hr.symm.trans hr')
    exact .inr ⟨n, r, hsince, hr, hkey, hfirst, hvalue⟩

/-- The writer fails at the frame of the first call; the second call cannot send its own. -/
def writerFails : List Step :=
  [.call 0 "tasks/post" .null, .insert 0, .send 0, .transmit false,
    .call 1 "tasks/post" .null, .insert 1, .send 1]

theorem calls_exact_unsent : (after writerFails).phase 1 = .returned (.error .sendFailure) ∧
    (after writerFails).pending.pending 2 = some 1 := by
  refine ⟨rfl, ((calls_exact writerFails (by decide)).held 2 1).2 ⟨rfl, ?_⟩⟩
  intro n r _ hr
  simp [after, writerFails, step, connect, insertPending, dropSender, setPhase,
    Correlator.register, Correlator.empty] at hr

/-! ## Calls that wait -/

/-- A value is there for a call, or the reader may still find one. -/
def Answerable (c : RpcClient) (i : Nat) (id : UInt64) : Prop :=
  (∃ value, c.oneshot i = .sent value) ∨
    (c.pending.pending id = some i ∧ c.readerEnded = false)

/-- A call that nothing can answer waits on, or is given up. -/
structure Stranded (c : RpcClient) (i : Nat) (id : UInt64) : Prop where
  exact : Exact c
  phase : c.phase i = .waiting id ∨ c.phase i = .dropped
  keyed : c.pending.key i = some id
  oneshot : c.oneshot i = .empty
  pending : c.pending.pending id = some i → c.readerEnded = true

theorem Stranded.same {id : UInt64} (h : Stranded c i id) (hexact : Exact c')
    (hphase : c'.phase i = c.phase i) (hkey : c'.pending.key i = c.pending.key i)
    (honeshot : c'.oneshot i = c.oneshot i)
    (hpending : c'.pending.pending id = some i → c'.readerEnded = true) : Stranded c' i id :=
  ⟨hexact, hphase ▸ h.phase, hkey.trans h.keyed, honeshot.trans h.oneshot, hpending⟩

theorem Stranded.respond {id : UInt64} (h : Stranded c i id) (hreader : c.readerEnded = false)
    (r : Response) : Stranded (c.respond r) i id := by
  have hgone : c.pending.pending id ≠ some i := by
    intro hi
    rw [h.pending hi] at hreader
    cases hreader
  have hexact := h.exact.respond r
  unfold RpcClient.respond at hexact ⊢
  dsimp only at hexact ⊢
  have hpending : (c.pending.receive Response.id r).pending id = some i →
      c.readerEnded = true := by
    intro hi
    by_cases hid : id = r.id
    · subst hid
      simp [Correlator.receive] at hi
    · exact absurd (by simpa [Correlator.receive, hid] using hi) hgone
  split at hexact
  · next j hj =>
      have hji : i ≠ j := by
        rintro rfl
        have hkey := ((h.exact.retained.pending_iff _ _).1 hj).1
        rw [h.keyed] at hkey
        exact hgone (Option.some.inj hkey ▸ hj)
      exact h.same hexact rfl rfl (Function.update_of_ne hji _ _) hpending
  · exact h.same hexact rfl rfl rfl hpending

theorem Stranded.step {id : UInt64} (h : Stranded c i id) (hbound : c.drawn.length ≤ UInt64.size)
    (s : Step) : Stranded (c.step s) i id := by
  have hexact := h.exact.step hbound s
  have heffect := step_effect c s
  generalize c.step s = c' at hexact heffect ⊢
  cases heffect with
  | kept => exact h
  | called j method params hj =>
      have hji : i ≠ j := by
        rintro rfl
        rcases h.phase with hi | hi <;> rw [hi] at hj <;> cases hj
      exact h.same hexact (Function.update_of_ne hji _ _) rfl rfl h.pending
  | inserted j envelope hj =>
      have hji : i ≠ j := by
        rintro rfl
        rcases h.phase with hi | hi <;> rw [hi] at hj <;> cases hj
      have hid : id ≠ envelope.id := by
        rintro rfl
        exact h.exact.unused hbound hj i h.keyed
      rw [h.exact.insertPending hbound hj] at hexact ⊢
      refine h.same hexact (Function.update_of_ne hji _ _) (Function.update_of_ne hji _ _) rfl ?_
      intro hi
      exact h.pending (by simpa [setPhase, Correlator.register, hid] using hi)
  | goes j p queue hp =>
      by_cases hji : i = j
      · subst hji
        rcases hp with ⟨envelope, hj, -⟩ | ⟨rfl, -, -⟩
        · rcases h.phase with hi | hi <;> rw [hi] at hj <;> cases hj
        · exact ⟨hexact, .inr (Function.update_self ..), h.keyed, h.oneshot, h.pending⟩
      · exact h.same hexact (Function.update_of_ne hji _ _) rfl rfl h.pending
  | polled j id' value hj ho =>
      have hji : i ≠ j := by
        rintro rfl
        rcases ho with ho | ho <;> rw [h.oneshot] at ho <;> cases ho
      exact h.same hexact (Function.update_of_ne hji _ _) rfl rfl h.pending
  | responded r hreader => exact h.respond hreader r
  | ended => exact h.same hexact rfl rfl rfl fun _ => rfl
  | transmitted queue sent writerEnded => exact h.same hexact rfl rfl rfl h.pending

theorem run_stranded {id : UInt64} (h : Stranded c i id) (steps : List Step)
    (hbound : (run step c steps).drawn.length ≤ UInt64.size) :
    Stranded (run step c steps) i id := by
  induction steps generalizing c with
  | nil => exact h
  | cons s steps ih =>
      have hc : c.drawn.length ≤ UInt64.size := Nat.le_trans (drawn_le c (s :: steps)) hbound
      exact ih (h.step hc s) hbound

theorem poll_returned {id : UInt64} {value : Except RpcError Json} (hi : c.phase i = .waiting id)
    (ho : c.oneshot i = .sent value) : (c.step (.poll i)).phase i = .returned value := by
  simp [step, hi, ho, setPhase]

/-- A response with an id and nothing else. -/
def plainResponse (id : UInt64) : Json := .obj [("id", .int id.toNat)]

theorem response_plain (id : UInt64) : response (plainResponse id) = some ⟨id, .ok .null⟩ := by
  have hu64 : asU64 (.int id.toNat) = some id := by
    rw [asU64, Int.toNat_natCast, if_pos ⟨Int.natCast_nonneg _, id.toNat_lt_size⟩,
      UInt64.ofNat_toNat]
  simp [response, plainResponse, get, hu64, responseValue, List.lookup_cons]

/-- A call that waits can return exactly if its value is there or the reader, which runs still,
may find it. -/
theorem pending_call_returns_iff (steps : List Step) (i : Nat) (id : UInt64)
    (hi : (after steps).phase i = .waiting id) (hbound : (after steps).drawn.length ≤ UInt64.size) :
    (∃ later value, (after (steps ++ later)).drawn.length ≤ UInt64.size ∧
      (after (steps ++ later)).phase i = .returned value) ↔ (after steps).Answerable i id := by
  have hexact := run_exact connect_exact steps hbound
  have hrun : ∀ later, after (steps ++ later) = run step (after steps) later :=
    fun later => run_append step connect steps later
  have hopen : (after steps).readerEnded = false → (after steps).pending.pending id = some i →
      ((after steps).step (.message (some (plainResponse id)))) =
        (({ after steps with
          pending := (after steps).pending.receive Response.id ⟨id, .ok .null⟩ } :
            RpcClient).setOneshot i (.sent (.ok .null))) := by
    intro hreader hpending
    simp only [step, hreader, Bool.false_eq_true, if_false, Option.bind_some, response_plain,
      respond, hpending]
  simp only [hrun]
  constructor
  · rintro ⟨later, value, hlater, hreturned⟩
    by_contra hnot
    simp only [Answerable, not_or, not_exists, not_and, Bool.not_eq_false] at hnot
    have hempty : (after steps).oneshot i = .empty := by
      cases ho : (after steps).oneshot i with
      | empty => rfl
      | sent v => exact absurd ho (hnot.1 v)
      | closed => exact absurd ho (hexact.unclosed i)
    have hstranded : Stranded (after steps) i id :=
      ⟨hexact, .inl hi, hexact.waiting i id hi, hempty, hnot.2⟩
    rcases (run_stranded hstranded later hlater).phase with hend | hend <;>
      rw [hreturned] at hend <;> cases hend
  · rintro (⟨value, ho⟩ | ⟨hpending, hreader⟩)
    · refine ⟨[.poll i], value, ?_, poll_returned hi ho⟩
      simp only [run_cons, run_nil, step, hi, ho]
      exact hbound
    · refine ⟨[.message (some (plainResponse id)), .poll i], .ok .null, ?_, ?_⟩
      · rw [run_cons, hopen hreader hpending]
        simp only [run_cons, run_nil, step, setOneshot, hi, Function.update_self]
        exact hbound
      · rw [run_cons, hopen hreader hpending]
        exact poll_returned hi (Function.update_self ..)

/-- The connection broke while a call waited: it never returns. -/
def brokenWhileWaiting : List Step := [.call 0 "tasks/post" .null, .insert 0, .send 0, .readEnd]

theorem pending_call_broken :
    ¬ ∃ later value, (after (brokenWhileWaiting ++ later)).drawn.length ≤ UInt64.size ∧
      (after (brokenWhileWaiting ++ later)).phase 0 = .returned value := by
  rw [pending_call_returns_iff brokenWhileWaiting 0 1 rfl (by decide)]
  rintro (⟨value, ho⟩ | ⟨-, hreader⟩)
  · cases ho
  · cases hreader

end RpcClient

end Wcp.Sdk.Rust
