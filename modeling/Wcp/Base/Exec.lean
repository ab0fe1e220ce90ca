import Mathlib.Tactic.Choose
/-!
# Computations that raise and keep their writes

A service method of a dynamic language runs against mutable state and may raise
at any point.  Whatever it wrote before the raise stays written until someone
rolls it back, so the final state is part of the outcome in both cases.  `Exec`
is that outcome; `Ends` is its weakest precondition.  Straight-line bodies are
taken apart with `Ends.bind`, reads with `Ends.lift` and `Ends.reads`.  `Leaves`
says what part of the state a computation never touches.
-/

namespace Wcp.Base

/-- A computation over state `σ` that returns an `α` or raises an `ε`.  The state
after a raise is the state at the raise. -/
def Exec (ε σ α : Type) : Type := σ → Except ε α × σ

namespace Exec

variable {ε σ α β : Type}

/-- Run `f` on the value of `m`, unless `m` raised. -/
protected def bind (m : Exec ε σ α) (f : α → Exec ε σ β) : Exec ε σ β := fun s =>
  match m s with
  | (.ok a, s') => f a s'
  | (.error e, s') => (.error e, s')

instance : Monad (Exec ε σ) where
  pure a := fun s => (.ok a, s)
  bind := Exec.bind

theorem bind_assoc {γ : Type} (m : Exec ε σ α) (f : α → Exec ε σ β) (g : β → Exec ε σ γ) :
    m >>= f >>= g = m >>= fun a => f a >>= g := by
  funext s
  show Exec.bind (Exec.bind m f) g s = Exec.bind m (fun a => Exec.bind (f a) g) s
  unfold Exec.bind
  obtain ⟨r, s'⟩ := m s
  cases r <;> rfl

/-- Raise `e`. -/
def raise (e : ε) : Exec ε σ α := fun s => (.error e, s)

/-- A pure computation that may raise. -/
def lift (x : Except ε α) : Exec ε σ α := fun s => (x, s)

instance : MonadLift (Except ε) (Exec ε σ) where
  monadLift := lift

/-- Read from the state, possibly raising. -/
def reads (f : σ → Except ε α) : Exec ε σ α := fun s => (f s, s)

/-- Change the state. -/
def write (f : σ → σ) : Exec ε σ Unit := fun s => (.ok (), f s)

/-- Go on only if `c` holds. -/
def require (c : Prop) [Decidable c] (e : ε) : Exec ε σ Unit :=
  if c then pure () else raise e

/-- Go on with a pure computation only if `c` holds. -/
def ensure (c : Prop) [Decidable c] (e : ε) : Except ε Unit :=
  if c then .ok () else .error e

/-- Run `body` on every element in turn; a raise ends the loop and keeps what the
earlier elements wrote. -/
def forEach (body : α → Exec ε σ Unit) : List α → Exec ε σ Unit
  | [] => pure ()
  | a :: as => do
      body a
      forEach body as

/-- Run `m` and raise `f e` where it raises `e`. -/
def mapError (f : ε → ε) (m : Exec ε σ α) : Exec ε σ α := fun s => ((m s).1.mapError f, (m s).2)

/-- `Q` holds of the outcome of `m` started in `s`. -/
def Ends (m : Exec ε σ α) (s : σ) (Q : Except ε α → σ → Prop) : Prop :=
  Q (m s).1 (m s).2

theorem bind_apply (m : Exec ε σ α) (f : α → Exec ε σ β) (s : σ) :
    (m >>= f) s =
      match m s with
      | (.ok a, s') => f a s'
      | (.error e, s') => (.error e, s') := rfl

theorem bind_ok {m : Exec ε σ α} {f : α → Exec ε σ β} {s s' : σ} {a : α}
    (h : m s = (.ok a, s')) : (m >>= f) s = f a s' := by
  rw [bind_apply, h]

theorem bind_error {m : Exec ε σ α} {f : α → Exec ε σ β} {s s' : σ} {e : ε}
    (h : m s = (.error e, s')) : (m >>= f) s = (.error e, s') := by
  rw [bind_apply, h]

theorem bind_pure_apply (m : Exec ε σ α) (f : α → β) (s : σ) :
    (m >>= fun a => pure (f a)) s = ((m s).1.map f, (m s).2) := by
  rw [bind_apply]
  rcases m s with ⟨_ | _, s'⟩ <;> rfl

namespace Ends

variable {s : σ} {Q R : Except ε α → σ → Prop} {P : Except ε β → σ → Prop}

theorem mono {m : Exec ε σ α} (h : Ends m s Q) (hQR : ∀ r s', Q r s' → R r s') :
    Ends m s R :=
  hQR _ _ h

theorem exists_ok {m : Exec ε σ α} {Q : α → σ → Prop}
    (h : Ends m s fun r s' => ∃ a, r = .ok a ∧ Q a s') : ∃ a s', m s = (.ok a, s') ∧ Q a s' := by
  obtain ⟨a, hr, hQ⟩ := h
  exact ⟨a, (m s).2, Prod.ext hr rfl, hQ⟩

theorem pure {a : α} (h : Q (.ok a) s) : Ends (Pure.pure a) s Q := h

theorem raise {e : ε} (h : Q (.error e) s) : Ends (Exec.raise e) s Q := h

theorem write {f : σ → σ} {Q : Except ε Unit → σ → Prop} (h : Q (.ok ()) (f s)) :
    Ends (Exec.write f) s Q := h

/-- The rule for sequencing: the continuation is entered with the value and the
state that `m` ends with, and a raise of `m` is a raise of the whole. -/
theorem bind {m : Exec ε σ α} {f : α → Exec ε σ β}
    (h : Ends m s fun r s' =>
      match r with
      | .ok a => Ends (f a) s' P
      | .error e => P (.error e) s') :
    Ends (m >>= f) s P := by
  unfold Ends at h ⊢
  rw [bind_apply]
  rcases hm : m s with ⟨_ | _, s'⟩ <;> simpa [hm] using h

theorem lift_bind {x : Except ε α} {f : α → Exec ε σ β}
    (hok : ∀ a, x = .ok a → Ends (f a) s P)
    (herr : ∀ e, x = .error e → P (.error e) s) :
    Ends (Exec.lift x >>= f) s P := by
  apply bind
  cases x with
  | ok a => exact hok a rfl
  | error e => exact herr e rfl

theorem reads_bind {g : σ → Except ε α} {f : α → Exec ε σ β}
    (hok : ∀ a, g s = .ok a → Ends (f a) s P)
    (herr : ∀ e, g s = .error e → P (.error e) s) :
    Ends (Exec.reads g >>= f) s P :=
  lift_bind (x := g s) hok herr

theorem write_bind {g : σ → σ} {f : Unit → Exec ε σ β} (h : Ends (f ()) (g s) P) :
    Ends (Exec.write g >>= f) s P := h

theorem require_bind {c : Prop} [Decidable c] {e : ε} {f : Unit → Exec ε σ β}
    (hok : c → Ends (f ()) s P) (herr : ¬c → P (.error e) s) :
    Ends (Exec.require c e >>= f) s P := by
  unfold Exec.require
  by_cases hc : c
  · rw [if_pos hc]
    exact hok hc
  · rw [if_neg hc]
    exact herr hc

theorem bind_eq {m : Exec ε σ α} {f g : α → Exec ε σ β}
    (h : Ends m s fun r s' => ∀ a, r = .ok a → f a s' = g a s') :
    (m >>= f) s = (m >>= g) s := by
  unfold Ends at h
  rw [bind_apply, bind_apply]
  rcases hm : m s with ⟨_ | a, s'⟩
  · rfl
  · rw [hm] at h
    exact h a rfl

/-- A loop keeps every relation to its starting state that is reflexive,
transitive and kept by the body. -/
theorem forEach {body : α → Exec ε σ Unit} {I : σ → σ → Prop}
    (hrefl : ∀ s, I s s) (htrans : ∀ a b c, I a b → I b c → I a c)
    (hbody : ∀ a s, Ends (body a) s fun _ s' => I s s') (as : List α) :
    Ends (Exec.forEach body as) s fun _ s' => I s s' := by
  induction as generalizing s with
  | nil => exact hrefl s
  | cons a as ih =>
      unfold Exec.forEach
      apply bind
      refine mono (hbody a s) ?_
      rintro (e | u) s' hs'
      · exact hs'
      · exact mono ih fun _ s'' hs'' => htrans _ _ _ hs' hs''

end Ends

/-! ### Frames -/

/-- A view of the state that a computation leaves as it is, whether it returns or raises. -/
def Leaves {γ : Type} (view : σ → γ) (m : Exec ε σ α) : Prop := ∀ s, view (m s).2 = view s

namespace Leaves

variable {γ : Type} {view : σ → γ}

theorem pure (a : α) : Leaves view (Pure.pure a : Exec ε σ α) := fun _ => rfl

theorem lift (x : Except ε α) : Leaves view (Exec.lift x : Exec ε σ α) := fun _ => rfl

theorem reads (f : σ → Except ε α) : Leaves view (Exec.reads f) := fun _ => rfl

theorem write {f : σ → σ} (h : ∀ s, view (f s) = view s) :
    Leaves view (Exec.write f : Exec ε σ Unit) := h

theorem require {c : Prop} [Decidable c] (e : ε) :
    Leaves view (Exec.require c e : Exec ε σ Unit) := by
  unfold Exec.require
  split
  · exact fun _ => rfl
  · exact fun _ => rfl

theorem bind {m : Exec ε σ α} {f : α → Exec ε σ β} (hm : Leaves view m)
    (hf : ∀ a, Leaves view (f a)) : Leaves view (m >>= f) := by
  intro s
  have hfirst := hm s
  rw [bind_apply]
  rcases hr : m s with ⟨e | a, s'⟩
  · rw [hr] at hfirst
    exact hfirst
  · rw [hr] at hfirst
    exact (hf a s').trans hfirst

end Leaves

end Exec

/-! ## Pure computations -/

section Pure

variable {ε α β : Type}

theorem bind_eq_ok {x : Except ε α} {f : α → Except ε β} {b : β} :
    x >>= f = .ok b ↔ ∃ a, x = .ok a ∧ f a = .ok b := by
  cases x with
  | ok a =>
      constructor
      · intro h
        exact ⟨a, rfl, h⟩
      · rintro ⟨a', ha, h⟩
        cases ha
        exact h
  | error e =>
      constructor
      · intro h
        cases h
      · rintro ⟨a, ha, -⟩
        cases ha

/-- A computation that raises nothing. -/
def Returns (x : Except ε α) : Prop := ∃ a, x = .ok a

@[simp] theorem returns_ok (a : α) : Returns (.ok a : Except ε α) := ⟨a, rfl⟩

@[simp] theorem returns_pure (a : α) : Returns (pure a : Except ε α) := ⟨a, rfl⟩

@[simp] theorem not_returns_error (e : ε) : ¬ Returns (.error e : Except ε α) := by
  rintro ⟨a, h⟩
  cases h

theorem toOption_any {x : Except ε α} {p : α → Bool} :
    x.toOption.any p = true ↔ ∃ a, x = .ok a ∧ p a = true := by
  cases x <;> simp [Except.toOption]

theorem returns_bind {x : Except ε α} {f : α → Except ε β} :
    Returns (x >>= f) ↔ ∃ a, x = .ok a ∧ Returns (f a) := by
  constructor
  · rintro ⟨b, h⟩
    obtain ⟨a, hx, hf⟩ := bind_eq_ok.1 h
    exact ⟨a, hx, b, hf⟩
  · rintro ⟨a, hx, b, hf⟩
    exact ⟨b, bind_eq_ok.2 ⟨a, hx, hf⟩⟩

theorem ensure_eq_ok {c : Prop} [Decidable c] {e : ε} {u : Unit} :
    Exec.ensure c e = .ok u ↔ c := by
  unfold Exec.ensure
  by_cases hc : c <;> simp [hc]

theorem mapM_of_forall {f : α → Except ε β} {g : α → β} {xs : List α}
    (h : ∀ x ∈ xs, f x = .ok (g x)) : xs.mapM f = .ok (xs.map g) := by
  induction xs with
  | nil => rfl
  | cons x xs ih =>
      rw [List.mapM_cons, h x List.mem_cons_self, ih fun y hy => h y (List.mem_cons_of_mem x hy)]
      rfl

theorem forall_of_mapM {f : α → Except ε β} {xs : List α} {ys : List β}
    (h : xs.mapM f = .ok ys) : ∀ x ∈ xs, ∃ y, f x = .ok y := by
  induction xs generalizing ys with
  | nil => exact nofun
  | cons x xs ih =>
      rw [List.mapM_cons, bind_eq_ok] at h
      obtain ⟨y, hy, h⟩ := h
      obtain ⟨zs, hzs, -⟩ := bind_eq_ok.1 h
      intro x' hx'
      rcases List.mem_cons.1 hx' with rfl | hx'
      · exact ⟨y, hy⟩
      · exact ih hzs x' hx'

theorem exists_map_of_mapM [Nonempty β] {f : α → Except ε β} {xs : List α} {ys : List β}
    (h : xs.mapM f = .ok ys) : ∃ g : α → β, (∀ x ∈ xs, f x = .ok (g x)) ∧ ys = xs.map g := by
  have hall := forall_of_mapM h
  choose! g hg using hall
  exact ⟨g, hg, Except.ok.inj (h.symm.trans (mapM_of_forall hg))⟩

end Pure

end Wcp.Base
