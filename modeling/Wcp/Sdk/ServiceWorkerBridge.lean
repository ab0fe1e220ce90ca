import Wcp.Base.Dict
import Wcp.Base.Runs
import Wcp.Sdk.Dialects
/-!
# Evidence queued on the device

The web app queues evidence in a store that outlives the page.  `drain` reads the store, hands each
item to a handler and deletes it afterwards; other drains and `enqueue` go on meanwhile, and the
page may be closed at any moment.  No item is lost but by a write over it or by the deletion of an
item that took its place (`evidence_kept_iff`), and drains that come one after another and are not
cut off between a handler and its deletion handle every item once (`evidence_handled_once`).
-/

namespace Wcp.Sdk.Pwa

open Wcp.Base

/-! ## The bridge -/

structure QueuedEvidence where
  id : String
  claimId : String
  evidence : Json
  queuedAt : String
deriving DecidableEq

/-- `getAll` of the store: the items in the order of their keys. -/
def getAll (store : Dict String QueuedEvidence) : List QueuedEvidence :=
  store.values.insertionSort fun a b =>
    typescriptDialect.keyUnits a.id ≤ typescriptDialect.keyUnits b.id

inductive DrainPhase where
  | handling
  | deleting
  | ended
deriving DecidableEq

/-- A call of `drain`: the items it read, and how many of them it handled and deleted. -/
structure Drain where
  items : List QueuedEvidence
  drained : Nat
  phase : DrainPhase

/-- The item whose turn it is. -/
def Drain.item (e : Drain) : Option QueuedEvidence := e.items[e.drained]?

/-- The loop goes on with the next item or is over. -/
def Drain.next (e : Drain) : Drain :=
  { e with phase := if e.drained < e.items.length then .handling else .ended }

/-- The device: the store and the calls of `drain`; and all that was queued, and every item as often
as a handler has resolved on it. -/
structure Device where
  store : Dict String QueuedEvidence
  drains : List Drain
  queued : List QueuedEvidence
  handled : List QueuedEvidence

inductive DeviceStep where
  /-- The transaction of `enqueue` commits. -/
  | enqueue (item : QueuedEvidence)
  /-- A new `drain` has read the store. -/
  | read
  /-- The handler that a drain waits for resolves or rejects. -/
  | handler (i : Nat) (resolves : Bool)
  /-- The transaction of its deletion commits or fails. -/
  | deletion (i : Nat) (commits : Bool)
  /-- The page is closed. -/
  | close

namespace Device

/-- The device before anything happens. -/
def start : Device := ⟨Dict.empty, [], [], []⟩

def setDrain (d : Device) (i : Nat) (e : Drain) : Device := { d with drains := d.drains.set i e }

def step (d : Device) : DeviceStep → Device
  | .enqueue item => { d with store := d.store.set item.id item, queued := d.queued ++ [item] }
  | .read => { d with drains := d.drains ++ [Drain.next ⟨getAll d.store, 0, .handling⟩] }
  | .handler i resolves =>
      match d.drains[i]? with
      | some e =>
          match e.phase, e.item with
          | .handling, some item =>
              if resolves then
                { d.setDrain i { e with phase := .deleting } with
                  handled := d.handled ++ [item] }
              else d.setDrain i { e with phase := .ended }
          | _, _ => d
      | none => d
  | .deletion i commits =>
      match d.drains[i]? with
      | some e =>
          match e.phase, e.item with
          | .deleting, some item =>
              if commits then
                { d.setDrain i (Drain.next { e with drained := e.drained + 1 }) with
                  store := d.store.pop item.id }
              else d.setDrain i { e with phase := .ended }
          | _, _ => d
      | none => d
  | .close => { d with drains := d.drains.map fun e => { e with phase := .ended } }

/-- An item that a drain is working on. -/
structure At (d : Device) (i : Nat) (phase : DrainPhase) (e : Drain) (item : QueuedEvidence) :
    Prop where
  drain : d.drains[i]? = some e
  phase : e.phase = phase
  item : e.item = some item

variable {d : Device} {i : Nat} {e : Drain} {item : QueuedEvidence}

theorem step_handler (h : d.At i .handling e item) (resolves : Bool) :
    d.step (.handler i resolves) =
      if resolves then
        { d.setDrain i { e with phase := .deleting } with handled := d.handled ++ [item] }
      else d.setDrain i { e with phase := .ended } := by
  simp only [step, h.drain, h.phase, h.item]

theorem step_deletion (h : d.At i .deleting e item) (commits : Bool) :
    d.step (.deletion i commits) =
      if commits then
        { d.setDrain i (Drain.next { e with drained := e.drained + 1 }) with
          store := d.store.pop item.id }
      else d.setDrain i { e with phase := .ended } := by
  simp only [step, h.drain, h.phase, h.item]

theorem handler_cases (d : Device) (i : Nat) (resolves : Bool) :
    d.step (.handler i resolves) = d ∨ ∃ e item, d.At i .handling e item := by
  unfold step
  dsimp only
  split
  · next e hdrain =>
      split
      · next item hphase hitem => exact .inr ⟨e, item, hdrain, hphase, hitem⟩
      · exact .inl rfl
  · exact .inl rfl

theorem deletion_cases (d : Device) (i : Nat) (commits : Bool) :
    d.step (.deletion i commits) = d ∨ ∃ e item, d.At i .deleting e item := by
  unfold step
  dsimp only
  split
  · next e hdrain =>
      split
      · next item hphase hitem => exact .inr ⟨e, item, hdrain, hphase, hitem⟩
      · exact .inl rfl
  · exact .inl rfl

end Device

/-! ## What every run keeps -/

/-- What a drain says of itself: it read what was queued, and handled what it has done. -/
structure Drain.Sound (queued handled : List QueuedEvidence) (e : Drain) : Prop where
  read : ∀ x ∈ e.items, x ∈ queued
  done : ∀ x ∈ e.items.take e.drained, x ∈ handled
  deleting : e.phase = .deleting → ∀ x, e.item = some x → x ∈ handled

theorem Drain.Sound.mono {e : Drain} {queued queued' handled handled' : List QueuedEvidence}
    (h : e.Sound queued handled) (hqueued : ∀ x ∈ queued, x ∈ queued')
    (hhandled : ∀ x ∈ handled, x ∈ handled') : e.Sound queued' handled' where
  read x hx := hqueued x (h.read x hx)
  done x hx := hhandled x (h.done x hx)
  deleting hphase x hx := hhandled x (h.deleting hphase x hx)

namespace Device

variable {d : Device} {i : Nat} {e : Drain} {item : QueuedEvidence}

/-- The store holds what was queued under its id, and the drains are sound. -/
structure Sound (d : Device) : Prop where
  stored : ∀ id x, d.store.get id = some x → x.id = id ∧ x ∈ d.queued
  drains : ∀ e ∈ d.drains, e.Sound d.queued d.handled

theorem sound_start : start.Sound where
  stored id x hget := by
    rw [start, Dict.get_empty] at hget
    cases hget
  drains _ he := absurd he List.not_mem_nil

theorem mem_getAll {store : Dict String QueuedEvidence} {x : QueuedEvidence} :
    x ∈ getAll store ↔ ∃ id, store.get id = some x := by
  unfold getAll
  rw [List.mem_insertionSort, Dict.mem_values_iff]

theorem mem_setDrain {e' : Drain} (h : e' ∈ (d.setDrain i e).drains) : e' ∈ d.drains ∨ e' = e :=
  List.mem_or_eq_of_mem_set h

theorem mem_take_succ {x : QueuedEvidence} (hitem : e.item = some item)
    (hx : x ∈ e.items.take (e.drained + 1)) : x ∈ e.items.take e.drained ∨ x = item := by
  rw [List.take_add_one, List.mem_append] at hx
  refine hx.imp id fun hx => ?_
  rw [Drain.item] at hitem
  simpa [hitem] using hx

theorem Sound.step (h : d.Sound) (s : DeviceStep) : (d.step s).Sound := by
  cases s with
  | enqueue item =>
      have hgrows : ∀ x ∈ d.queued, x ∈ d.queued ++ [item] :=
        fun x hx => List.mem_append_left _ hx
      refine ⟨fun id x hget => ?_, fun e he => (h.drains e he).mono hgrows fun _ hx => hx⟩
      rcases Dict.get_set hget with ⟨rfl, rfl⟩ | ⟨-, hget⟩
      · exact ⟨rfl, List.mem_append_right _ (List.mem_singleton_self _)⟩
      · exact ⟨(h.stored id x hget).1, hgrows x (h.stored id x hget).2⟩
  | read =>
      refine ⟨h.stored, fun e he => ?_⟩
      rcases List.mem_append.1 he with he | he
      · exact h.drains e he
      · obtain rfl := List.mem_singleton.1 he
        refine ⟨fun x hx => ?_, fun x hx => ?_, fun hphase => ?_⟩
        · obtain ⟨id, hget⟩ := mem_getAll.1 hx
          exact (h.stored id x hget).2
        · exact absurd hx List.not_mem_nil
        · unfold Drain.next at hphase
          dsimp only at hphase
          split at hphase <;> cases hphase
  | handler i resolves =>
      rcases handler_cases d i resolves with hsame | ⟨e, item, hat⟩
      · rw [hsame]
        exact h
      · have hsound := h.drains e (List.mem_of_getElem? hat.drain)
        rw [step_handler hat]
        cases resolves with
        | false =>
            refine ⟨h.stored, fun e' he' => ?_⟩
            rcases mem_setDrain he' with he' | rfl
            · exact h.drains e' he'
            · exact ⟨hsound.read, hsound.done, fun hphase => by cases hphase⟩
        | true =>
            have hgrows : ∀ x ∈ d.handled, x ∈ d.handled ++ [item] :=
              fun x hx => List.mem_append_left _ hx
            refine ⟨h.stored, fun e' he' => ?_⟩
            rcases mem_setDrain he' with he' | rfl
            · exact (h.drains e' he').mono (fun _ hx => hx) hgrows
            · refine ⟨hsound.read, fun x hx => hgrows x (hsound.done x hx), fun _ x hx => ?_⟩
              obtain rfl := Option.some.inj (hat.item.symm.trans hx)
              exact List.mem_append_right _ (List.mem_singleton_self _)
  | deletion i commits =>
      rcases deletion_cases d i commits with hsame | ⟨e, item, hat⟩
      · rw [hsame]
        exact h
      · have hsound := h.drains e (List.mem_of_getElem? hat.drain)
        rw [step_deletion hat]
        cases commits with
        | false =>
            refine ⟨h.stored, fun e' he' => ?_⟩
            rcases mem_setDrain he' with he' | rfl
            · exact h.drains e' he'
            · exact ⟨hsound.read, hsound.done, fun hphase => by cases hphase⟩
        | true =>
            refine ⟨fun id x hget => h.stored id x (Dict.get_pop hget).2, fun e' he' => ?_⟩
            rcases mem_setDrain he' with he' | rfl
            · exact h.drains e' he'
            · refine ⟨hsound.read, fun x hx => ?_, fun hphase => ?_⟩
              · rcases mem_take_succ hat.item hx with hx | rfl
                · exact hsound.done x hx
                · exact hsound.deleting hat.phase x hat.item
              · unfold Drain.next at hphase
                dsimp only at hphase
                split at hphase <;> cases hphase
  | close =>
      refine ⟨h.stored, fun e he => ?_⟩
      obtain ⟨e', he', rfl⟩ := List.mem_map.1 he
      exact ⟨(h.drains e' he').read, (h.drains e' he').done, fun hphase => by cases hphase⟩

/-! ## Loss -/

/-- Every item queued is stored or was handled. -/
def Kept (d : Device) : Prop := ∀ x ∈ d.queued, d.store.get x.id = some x ∨ x ∈ d.handled

/-- A step that takes no item out of the store but one that was handled. -/
def Careful (d : Device) : DeviceStep → Prop
  | .enqueue item => ∀ x, d.store.get item.id = some x → x = item ∨ x ∈ d.handled
  | .deletion i true => ∀ e item, d.At i .deleting e item →
      ∀ x, d.store.get item.id = some x → x ∈ d.handled
  | _ => True

theorem Kept.step (h : d.Kept) {s : DeviceStep} (hcareful : d.Careful s) : (d.step s).Kept := by
  cases s with
  | enqueue item =>
      intro x hx
      show (d.store.set item.id item).get x.id = some x ∨ x ∈ d.handled
      rw [Dict.get_set_eq]
      rcases List.mem_append.1 hx with hx | hx
      · rcases h x hx with hget | hhandled
        · by_cases hid : x.id = item.id
          · rw [if_pos hid]
            exact (hcareful x (hid ▸ hget)).imp (fun heq => congrArg some heq.symm) id
          · rw [if_neg hid]
            exact .inl hget
        · exact .inr hhandled
      · obtain rfl := List.mem_singleton.1 hx
        exact .inl (if_pos rfl)
  | read => exact h
  | handler i resolves =>
      rcases handler_cases d i resolves with hsame | ⟨e, item, hat⟩
      · rw [hsame]
        exact h
      · rw [step_handler hat]
        cases resolves with
        | false => exact h
        | true => exact fun x hx => (h x hx).imp id fun hhandled => List.mem_append_left _ hhandled
  | deletion i commits =>
      rcases deletion_cases d i commits with hsame | ⟨e, item, hat⟩
      · rw [hsame]
        exact h
      · rw [step_deletion hat]
        cases commits with
        | false => exact h
        | true =>
            intro x hx
            show (d.store.pop item.id).get x.id = some x ∨ x ∈ d.handled
            rw [Dict.get_pop_eq]
            rcases h x hx with hget | hhandled
            · by_cases hid : x.id = item.id
              · exact .inr (hcareful e item hat x (hid ▸ hget))
              · rw [if_neg hid]
                exact .inl hget
            · exact .inr hhandled
  | close => exact h

theorem not_kept (h : d.Sound) {s : DeviceStep} (hcareless : ¬ d.Careful s) :
    ¬ (d.step s).Kept := by
  cases s with
  | enqueue item =>
      unfold Careful at hcareless
      push Not at hcareless
      obtain ⟨x, hget, hne, hunhandled⟩ := hcareless
      obtain ⟨hid, hqueued⟩ := h.stored item.id x hget
      intro hkept
      rcases hkept x (List.mem_append_left _ hqueued) with hget' | hhandled
      · have hset : (d.store.set item.id item).get x.id = some item :=
          Dict.get_set_eq.trans (if_pos hid)
        exact hne (Option.some.inj (hget'.symm.trans hset))
      · exact hunhandled hhandled
  | deletion i commits =>
      cases commits with
      | false => exact absurd trivial hcareless
      | true =>
          unfold Careful at hcareless
          push Not at hcareless
          obtain ⟨e, item, hat, x, hget, hunhandled⟩ := hcareless
          obtain ⟨hid, hqueued⟩ := h.stored item.id x hget
          rw [step_deletion hat]
          intro hkept
          rcases hkept x hqueued with hget' | hhandled
          · have hpop : (d.store.pop item.id).get x.id = none :=
              Dict.get_pop_eq.trans (if_pos hid)
            cases hget'.symm.trans hpop
          · exact hunhandled hhandled
  | read => exact absurd trivial hcareless
  | handler i resolves => exact absurd trivial hcareless
  | close => exact absurd trivial hcareless

/-- An item is queued under a new id. -/
def Fresh (d : Device) : DeviceStep → Prop
  | .enqueue item => ∀ x ∈ d.queued, x.id ≠ item.id
  | _ => True

/-- Items are told apart by their ids. -/
def Distinct (d : Device) : Prop := ∀ x ∈ d.queued, ∀ y ∈ d.queued, x.id = y.id → x = y

theorem queued_step (d : Device) (s : DeviceStep) :
    (d.step s).queued = d.queued ∨ ∃ item, s = .enqueue item ∧
      (d.step s).queued = d.queued ++ [item] := by
  cases s with
  | enqueue item => exact .inr ⟨item, rfl, rfl⟩
  | read => exact .inl rfl
  | handler i resolves =>
      refine .inl ?_
      rcases handler_cases d i resolves with hsame | ⟨e, item, hat⟩
      · rw [hsame]
      · rw [step_handler hat]
        cases resolves <;> rfl
  | deletion i commits =>
      refine .inl ?_
      rcases deletion_cases d i commits with hsame | ⟨e, item, hat⟩
      · rw [hsame]
      · rw [step_deletion hat]
        cases commits <;> rfl
  | close => exact .inl rfl

theorem Distinct.step (h : d.Distinct) {s : DeviceStep} (hfresh : d.Fresh s) :
    (d.step s).Distinct := by
  rcases queued_step d s with hqueued | ⟨item, rfl, hqueued⟩
  · unfold Distinct
    rw [hqueued]
    exact h
  · unfold Distinct
    rw [hqueued]
    intro x hx y hy hid
    rw [List.mem_append, List.mem_singleton] at hx hy
    rcases hx with hx | rfl <;> rcases hy with hy | rfl
    · exact h x hx y hy hid
    · exact absurd hid (hfresh x hx)
    · exact absurd hid.symm (hfresh y hy)
    · rfl

theorem careful_of_fresh (h : d.Sound) (hdistinct : d.Distinct) {s : DeviceStep}
    (hfresh : d.Fresh s) : d.Careful s := by
  cases s with
  | enqueue item =>
      intro x hget
      obtain ⟨hid, hqueued⟩ := h.stored item.id x hget
      exact absurd hid (hfresh x hqueued)
  | deletion i commits =>
      cases commits with
      | false => exact trivial
      | true =>
          intro e item hat x hget
          have hsound := h.drains e (List.mem_of_getElem? hat.drain)
          obtain ⟨hid, hqueued⟩ := h.stored item.id x hget
          have hread : item ∈ d.queued := hsound.read item (List.mem_of_getElem? hat.item)
          rw [hdistinct x hqueued item hread hid]
          exact hsound.deleting hat.phase item hat.item
  | read => exact trivial
  | handler i resolves => exact trivial
  | close => exact trivial

end Device

open Device in
/-- Whatever is queued, drained, cut off and closed, no evidence is lost at any moment of a run
exactly if nothing is written over an item that was not handled, and no deletion meets such an item
in the place of the one that it is for; both hold if no id is used twice.  What a drain counts, it
has handled. -/
theorem evidence_kept_iff (steps : List DeviceStep) :
    ((∀ before, before <+: steps → (run Device.step Device.start before).Kept) ↔
      ∀ before s after, steps = before ++ s :: after →
        (run Device.step Device.start before).Careful s) ∧
    ((∀ before s after, steps = before ++ s :: after →
        (run Device.step Device.start before).Fresh s) →
      ∀ before s after, steps = before ++ s :: after →
        (run Device.step Device.start before).Careful s) ∧
    ∀ e ∈ (run Device.step Device.start steps).drains,
      ∀ x ∈ e.items.take e.drained, x ∈ (run Device.step Device.start steps).handled := by
  have hsound : ∀ steps, (run Device.step Device.start steps).Sound := fun steps =>
    @run_invariant _ _ Device.step Device.Sound (fun _ => True) (fun _ s h _ => h.step s)
      Device.start steps sound_start fun _ _ => trivial
  refine ⟨?_, fun hfresh before s after hsplit => ?_, fun e he => ((hsound steps).drains e he).done⟩
  · refine @run_good_iff _ _ Device.step (fun d => d.Sound ∧ d.Kept) Device.Kept Device.Careful
      ?_ (fun _ h => h.2) ?_ Device.start
      ⟨sound_start, fun x hx => absurd hx List.not_mem_nil⟩ steps
    · exact fun d s h hcareful => ⟨h.1.step s, h.2.step hcareful⟩
    · exact fun d s h => not_kept h.1
  · have hdistinct : (run Device.step Device.start before).Distinct := by
      refine @run_invariant_at _ _ Device.step Device.Distinct Device.Fresh
        (fun d s h hs => h.step hs) Device.start before (fun x hx => absurd hx List.not_mem_nil) ?_
      intro first t later heq
      exact hfresh first t (later ++ s :: after) (by rw [hsplit, heq]; simp)
    exact careful_of_fresh (hsound before) hdistinct (hfresh before s after hsplit)

/-! ## Repetition -/

namespace Device

variable {d : Device} {i : Nat} {e : Drain} {item : QueuedEvidence}

/-- Ids are new, drains come one after another, and nothing is cut off between a handler and its
deletion. -/
def Orderly (d : Device) : DeviceStep → Prop
  | .enqueue item => d.Fresh (.enqueue item)
  | .read => ∀ e ∈ d.drains, e.phase = .ended
  | .deletion i false => ∀ e item, ¬ d.At i .deleting e item
  | .close => ∀ i e item, ¬ d.At i .deleting e item
  | _ => True

/-- No other drain is under way. -/
def Alone (d : Device) (i : Nat) : Prop :=
  ∀ (j : Nat) (e : Drain), d.drains[j]? = some e → e.phase ≠ .ended → j = i

/-- What a drain still has to do is in the store, each item once. -/
structure Ahead (d : Device) (e : Drain) : Prop where
  stored : ∀ n x, e.drained ≤ n → e.items[n]? = some x → d.store.get x.id = some x
  apart : (e.items.map (·.id)).Nodup

/-- One drain at a time is under way, and what was handled is gone or being deleted. -/
structure Tidy (d : Device) : Prop where
  sound : d.Sound
  distinct : d.Distinct
  alone : ∀ (i : Nat) (e : Drain), d.drains[i]? = some e → e.phase ≠ .ended → d.Alone i
  ahead : ∀ (i : Nat) (e : Drain), d.drains[i]? = some e → e.phase ≠ .ended → d.Ahead e
  clean : ∀ x ∈ d.handled, ∀ id, d.store.get id = some x → ∃ i e, d.At i .deleting e x
  queued : ∀ x ∈ d.handled, x ∈ d.queued
  once : d.handled.Nodup

theorem tidy_start : start.Tidy where
  sound := sound_start
  distinct _ hx := absurd hx List.not_mem_nil
  alone i e hdrain := by simp [start] at hdrain
  ahead i e hdrain := by simp [start] at hdrain
  clean _ hx := absurd hx List.not_mem_nil
  queued _ hx := absurd hx List.not_mem_nil
  once := List.nodup_nil

theorem At.running {phase : DrainPhase} (h : d.At i phase e item) (hphase : phase ≠ .ended) :
    e.phase ≠ .ended := h.phase ▸ hphase

/-- While a drain waits for its handler, nothing that was handled is in the store. -/
theorem Tidy.unhandled (h : d.Tidy) (hat : d.At i .handling e item) {x : QueuedEvidence}
    {id : String} (hget : d.store.get id = some x) : x ∉ d.handled := by
  intro hhandled
  obtain ⟨j, e', hat'⟩ := h.clean x hhandled id hget
  have hj : j = i := h.alone i e hat.drain (hat.running (by decide)) j e' hat'.drain
    (hat'.running (by decide))
  subst hj
  obtain rfl := Option.some.inj (hat.drain.symm.trans hat'.drain)
  cases hat.phase.symm.trans hat'.phase

theorem getElem?_setDrain {j : Nat} {e₁ e' : Drain} (hdrain : d.drains[i]? = some e)
    (h : (d.setDrain i e').drains[j]? = some e₁) :
    (j = i ∧ e₁ = e') ∨ (j ≠ i ∧ d.drains[j]? = some e₁) := by
  have hlt : i < d.drains.length := (List.getElem?_eq_some_iff.1 hdrain).1
  have hset : (d.drains.set i e')[j]? = some e₁ := h
  by_cases hj : i = j
  · subst hj
    rw [List.getElem?_set_self hlt] at hset
    exact .inl ⟨rfl, (Option.some.inj hset).symm⟩
  · rw [List.getElem?_set_ne hj] at hset
    exact .inr ⟨fun heq => hj heq.symm, hset⟩

theorem Alone.setDrain (h : d.Alone i) (hdrain : d.drains[i]? = some e) (e' : Drain) :
    (d.setDrain i e').Alone i := by
  intro j e₁ hj hphase
  rcases getElem?_setDrain hdrain hj with ⟨rfl, -⟩ | ⟨-, hold⟩
  · rfl
  · exact h j e₁ hold hphase

theorem getAll_nodup (h : d.Sound) : ((getAll d.store).map (·.id)).Nodup := by
  have hkeys : d.store.values.map (·.id) = d.store.items.map (·.1) := by
    unfold Dict.values
    rw [List.map_map]
    refine List.map_congr_left fun p hp => ?_
    exact (h.stored p.1 p.2 (Dict.get_eq_some_iff.2 hp)).1
  have hperm : ((getAll d.store).map (·.id)).Perm (d.store.values.map (·.id)) :=
    (List.perm_insertionSort _ _).map _
  rw [hperm.nodup_iff, hkeys]
  exact d.store.nodup

theorem Tidy.enqueue (h : d.Tidy) (hfresh : d.Fresh (.enqueue item)) :
    (d.step (.enqueue item)).Tidy := by
  have hget : ∀ x ∈ d.queued, (d.store.set item.id item).get x.id = d.store.get x.id :=
    fun x hx => Dict.get_set_eq.trans (if_neg (hfresh x hx))
  refine ⟨h.sound.step _, h.distinct.step hfresh, h.alone, fun i e hdrain hphase => ?_,
    fun x hx id hstored => ?_, fun x hx => List.mem_append_left _ (h.queued x hx), h.once⟩
  · refine ⟨fun n x hn hx => ?_, (h.ahead i e hdrain hphase).apart⟩
    have hqueued : x ∈ d.queued :=
      (h.sound.drains e (List.mem_of_getElem? hdrain)).read x (List.mem_of_getElem? hx)
    exact (hget x hqueued).trans ((h.ahead i e hdrain hphase).stored n x hn hx)
  · rcases Dict.get_set hstored with ⟨rfl, rfl⟩ | ⟨-, hstored⟩
    · exact absurd rfl (hfresh x (h.queued x hx))
    · obtain ⟨i, e, hat⟩ := h.clean x hx id hstored
      exact ⟨i, e, hat.drain, hat.phase, hat.item⟩

theorem Tidy.read (h : d.Tidy) (hended : ∀ e ∈ d.drains, e.phase = .ended) :
    (d.step .read).Tidy := by
  have hlast : ∀ (i : Nat) (e : Drain), (d.step .read).drains[i]? = some e → e.phase ≠ .ended →
      i = d.drains.length ∧ e = Drain.next ⟨getAll d.store, 0, .handling⟩ := by
    intro i e hdrain hphase
    have hdrain : (d.drains ++ [Drain.next ⟨getAll d.store, 0, .handling⟩])[i]? = some e := hdrain
    rcases lt_trichotomy i d.drains.length with hlt | heq | hgt
    · rw [List.getElem?_append_left hlt] at hdrain
      exact absurd (hended e (List.mem_of_getElem? hdrain)) hphase
    · subst heq
      rw [List.getElem?_concat_length] at hdrain
      exact ⟨rfl, (Option.some.inj hdrain).symm⟩
    · rw [List.getElem?_eq_none (by simp; omega)] at hdrain
      cases hdrain
  refine ⟨h.sound.step _, h.distinct, fun i e hdrain hphase => ?_, fun i e hdrain hphase => ?_,
    fun x hx id hget => ?_, h.queued, h.once⟩
  · obtain ⟨rfl, -⟩ := hlast i e hdrain hphase
    exact fun j e' hdrain' hphase' => (hlast j e' hdrain' hphase').1
  · obtain ⟨-, rfl⟩ := hlast i e hdrain hphase
    refine ⟨fun n x _ hx => ?_, getAll_nodup h.sound⟩
    obtain ⟨id, hget⟩ := mem_getAll.1 (List.mem_of_getElem? hx)
    rw [(h.sound.stored id x hget).1]
    exact hget
  · obtain ⟨i, e, hat⟩ := h.clean x hx id hget
    have hphase := hended e (List.mem_of_getElem? hat.drain)
    cases hat.phase.symm.trans hphase

theorem Tidy.handler (h : d.Tidy) (hat : d.At i .handling e item) (resolves : Bool) :
    (d.step (.handler i resolves)).Tidy := by
  have hrunning := hat.running (by decide)
  have halone := h.alone i e hat.drain hrunning
  have hahead := h.ahead i e hat.drain hrunning
  have hstored : d.store.get item.id = some item := hahead.stored e.drained item le_rfl hat.item
  have hsound := h.sound.step (.handler i resolves)
  have hdistinct : (d.step (.handler i resolves)).Distinct := h.distinct.step trivial
  rw [step_handler hat] at hsound hdistinct ⊢
  cases resolves with
  | false =>
      refine ⟨hsound, hdistinct, fun j e' hdrain hphase => ?_, fun j e' hdrain hphase => ?_,
        fun x hx id hget => absurd hx (h.unhandled hat hget), h.queued, h.once⟩
      · rcases getElem?_setDrain hat.drain hdrain with ⟨rfl, rfl⟩ | ⟨hne, hold⟩
        · exact absurd rfl hphase
        · exact absurd (halone j e' hold hphase) hne
      · rcases getElem?_setDrain hat.drain hdrain with ⟨rfl, rfl⟩ | ⟨hne, hold⟩
        · exact absurd rfl hphase
        · exact absurd (halone j e' hold hphase) hne
  | true =>
      refine ⟨hsound, hdistinct, fun j e' hdrain hphase => ?_, fun j e' hdrain hphase => ?_,
        fun x hx id hget => ?_, fun x hx => ?_, ?_⟩
      · obtain rfl := halone.setDrain hat.drain _ j e' hdrain hphase
        exact halone.setDrain hat.drain _
      · rcases getElem?_setDrain hat.drain hdrain with ⟨rfl, rfl⟩ | ⟨hne, hold⟩
        · exact ⟨hahead.stored, hahead.apart⟩
        · exact absurd (halone j e' hold hphase) hne
      · rcases List.mem_append.1 hx with hx | hx
        · exact absurd hx (h.unhandled hat hget)
        · obtain rfl := List.mem_singleton.1 hx
          have hlt : i < d.drains.length := (List.getElem?_eq_some_iff.1 hat.drain).1
          exact ⟨i, { e with phase := .deleting }, List.getElem?_set_self hlt, rfl, hat.item⟩
      · rcases List.mem_append.1 hx with hx | hx
        · exact h.queued x hx
        · obtain rfl := List.mem_singleton.1 hx
          exact (h.sound.stored _ _ hstored).2
      · refine List.nodup_append.2 ⟨h.once, List.nodup_singleton item, fun x hx y hy heq => ?_⟩
        obtain rfl := List.mem_singleton.1 hy
        exact h.unhandled hat hstored (heq ▸ hx)

theorem Tidy.deleted (h : d.Tidy) (hat : d.At i .deleting e item) :
    (d.step (.deletion i true)).Tidy := by
  have hrunning := hat.running (by decide)
  have halone := h.alone i e hat.drain hrunning
  have hahead := h.ahead i e hat.drain hrunning
  have hsound := h.sound.step (.deletion i true)
  have hdistinct : (d.step (.deletion i true)).Distinct := h.distinct.step trivial
  rw [step_deletion hat] at hsound hdistinct ⊢
  refine ⟨hsound, hdistinct, fun j e' hdrain hphase => ?_, fun j e' hdrain hphase => ?_,
    fun x hx id hget => ?_, h.queued, h.once⟩
  · obtain rfl := halone.setDrain hat.drain _ j e' hdrain hphase
    exact halone.setDrain hat.drain _
  · rcases getElem?_setDrain hat.drain hdrain with ⟨rfl, rfl⟩ | ⟨hne, hold⟩
    · refine ⟨fun n x hn hx => ?_, hahead.apart⟩
      have hn : e.drained + 1 ≤ n := hn
      have hx : e.items[n]? = some x := hx
      have hid : x.id ≠ item.id := by
        intro hid
        have hitem : (e.items.map (·.id))[e.drained]? = some item.id := by
          rw [List.getElem?_map]
          exact congrArg (Option.map _) hat.item
        have hother : (e.items.map (·.id))[n]? = some item.id := by
          rw [List.getElem?_map, hx, ← hid]
          rfl
        have hlt : e.drained < (e.items.map (·.id)).length := (List.getElem?_eq_some_iff.1 hitem).1
        have hsame := (List.getElem?_inj hlt hahead.apart).1 (hitem.trans hother.symm)
        omega
      exact Dict.get_pop_eq.trans ((if_neg hid).trans (hahead.stored n x (by omega) hx))
    · exact absurd (halone j e' hold hphase) hne
  · obtain ⟨hne, hold⟩ := Dict.get_pop hget
    obtain ⟨j, e', hat'⟩ := h.clean x hx id hold
    obtain rfl := halone j e' hat'.drain (hat'.running (by decide))
    obtain rfl := Option.some.inj (hat.drain.symm.trans hat'.drain)
    obtain rfl := Option.some.inj (hat.item.symm.trans hat'.item)
    exact absurd (h.sound.stored id _ hold).1.symm hne

theorem Tidy.close (h : d.Tidy) (hidle : ∀ i e item, ¬ d.At i .deleting e item) :
    (d.step .close).Tidy := by
  have hended : ∀ (i : Nat) (e : Drain),
      (d.step .close).drains[i]? = some e → e.phase = .ended := by
    intro i e hdrain
    have hmap : (d.drains.map fun e => { e with phase := .ended })[i]? = some e := hdrain
    obtain ⟨e', -, rfl⟩ := List.mem_map.1 (List.mem_of_getElem? hmap)
    rfl
  refine ⟨h.sound.step _, h.distinct, fun i e hdrain hphase => absurd (hended i e hdrain) hphase,
    fun i e hdrain hphase => absurd (hended i e hdrain) hphase, fun x hx id hget => ?_, h.queued,
    h.once⟩
  obtain ⟨i, e, hat⟩ := h.clean x hx id hget
  exact absurd hat (hidle i e x)

theorem Tidy.step (h : d.Tidy) {s : DeviceStep} (horderly : d.Orderly s) : (d.step s).Tidy := by
  cases s with
  | enqueue item => exact h.enqueue horderly
  | read => exact h.read horderly
  | handler i resolves =>
      rcases handler_cases d i resolves with hsame | ⟨e, item, hat⟩
      · rw [hsame]
        exact h
      · exact h.handler hat resolves
  | deletion i commits =>
      rcases deletion_cases d i commits with hsame | ⟨e, item, hat⟩
      · rw [hsame]
        exact h
      · cases commits with
        | false => exact absurd hat (horderly e item)
        | true => exact h.deleted hat
  | close => exact h.close horderly

end Device

/-- Drains that come one after another and are not cut off between a handler and its deletion
handle an item once, if its id is new: at every moment of such a run each item queued is in the
store or was handled, once, and what was handled is in the store only while it is being deleted. -/
theorem evidence_handled_once (steps : List DeviceStep)
    (horderly : ∀ before s after, steps = before ++ s :: after →
      (run Device.step Device.start before).Orderly s) :
    let d := run Device.step Device.start steps
    d.handled.Nodup ∧ (∀ x ∈ d.queued, d.store.get x.id = some x ∨ x ∈ d.handled) ∧
      ∀ x ∈ d.handled, x ∈ d.queued ∧
        ∀ id, d.store.get id = some x → ∃ i e, d.At i .deleting e x := by
  have h : (run Device.step Device.start steps).Tidy ∧
      (run Device.step Device.start steps).Kept := by
    refine @run_invariant_at _ _ Device.step (fun d => d.Tidy ∧ d.Kept) Device.Orderly ?_
      Device.start steps ⟨Device.tidy_start, fun x hx => absurd hx List.not_mem_nil⟩ horderly
    intro d s h hs
    refine ⟨h.1.step hs, h.2.step (Device.careful_of_fresh h.1.sound h.1.distinct ?_)⟩
    cases s with
    | enqueue item => exact hs
    | _ => exact trivial
  exact ⟨h.1.once, h.2, fun x hx => ⟨h.1.queued x hx, h.1.clean x hx⟩⟩

/-- A photo that was taken offline. -/
def photo : QueuedEvidence := ⟨"q1", "c1", .obj [], "2026-01-01T00:00:00.000Z"⟩

/-- The photo is queued, and a drain hands it over and deletes it. -/
def drainedOnce : List DeviceStep :=
  [.enqueue photo, .read, .handler 0 true, .deletion 0 true]

theorem evidence_handled_once_photo :
    (run Device.step Device.start drainedOnce).handled = [photo] ∧
      (run Device.step Device.start drainedOnce).handled.Nodup := by
  refine ⟨by decide +kernel, (evidence_handled_once drainedOnce ?_).1⟩
  intro before s after hsplit
  rcases before with _ | ⟨first, before⟩
  · obtain ⟨rfl, -⟩ := List.cons.inj hsplit
    exact fun x hx => absurd hx List.not_mem_nil
  obtain rfl := (List.cons.inj hsplit).1
  replace hsplit := (List.cons.inj hsplit).2
  rcases before with _ | ⟨second, before⟩
  · obtain ⟨rfl, -⟩ := List.cons.inj hsplit
    exact fun e he => absurd he List.not_mem_nil
  replace hsplit := (List.cons.inj hsplit).2
  have hrest : s ∈ [DeviceStep.handler 0 true, .deletion 0 true] := by
    rw [hsplit]
    exact List.mem_append_right _ List.mem_cons_self
  rcases List.mem_cons.1 hrest with rfl | hrest
  · exact trivial
  · obtain rfl := List.mem_singleton.1 hrest
    exact trivial

end Wcp.Sdk.Pwa
