import Mathlib.Data.List.Forall2
import Wcp.Base.Exec
/-!
# Two runs side by side

Two computations are `Coupled` when, started in related states, they raise the
same exception or return related values, and leave related states.  The rules
follow the shape of the computations, so that a method is shown not to read some
part of the state, or of its arguments, by going through its body once.
-/

namespace Wcp.Base

variable {ε σ α β γ δ : Type}

/-- The same exception, or related values. -/
def Agree (V : α → β → Prop) : Except ε α → Except ε β → Prop
  | .ok a, .ok b => V a b
  | .error e, .error e' => e = e'
  | _, _ => False

namespace Agree

variable {V : α → β → Prop} {U : γ → δ → Prop}

theorem refl {V : α → α → Prop} (hV : ∀ a, V a a) (x : Except ε α) : Agree V x x := by
  cases x with
  | ok a => exact hV a
  | error e => rfl

theorem eq {x y : Except ε α} (h : Agree (· = ·) x y) : x = y := by
  cases x <;> cases y
  · exact congrArg _ h
  · cases h
  · cases h
  · exact congrArg _ h

theorem mono {V' : α → β → Prop} {x : Except ε α} {y : Except ε β} (h : Agree V x y)
    (hV : ∀ a b, V a b → V' a b) : Agree V' x y := by
  cases x <;> cases y
  · exact h
  · cases h
  · cases h
  · exact hV _ _ h

theorem bind {x : Except ε α} {y : Except ε β} {f : α → Except ε γ} {g : β → Except ε δ}
    (h : Agree V x y) (hfg : ∀ a b, V a b → Agree U (f a) (g b)) : Agree U (x >>= f) (y >>= g) := by
  cases x <;> cases y
  · exact h
  · cases h
  · cases h
  · exact hfg _ _ h

theorem bindSame (x : Except ε α) {f : α → Except ε γ} {g : α → Except ε δ}
    (hfg : ∀ a, x = .ok a → Agree U (f a) (g a)) : Agree U (x >>= f) (x >>= g) := by
  cases x with
  | ok a => exact hfg a rfl
  | error e => rfl

end Agree

/-- Started in related states, the computations raise the same exception or return related values,
and leave related states. -/
def Coupled (R : σ → σ → Prop) (V : α → β → Prop) (m : Exec ε σ α) (m' : Exec ε σ β) : Prop :=
  ∀ s s', R s s' → Agree V (m s).1 (m' s').1 ∧ R (m s).2 (m' s').2

namespace Coupled

variable {R : σ → σ → Prop} {V : α → β → Prop} {U : γ → δ → Prop}

theorem mono {V' : α → β → Prop} {m : Exec ε σ α} {m' : Exec ε σ β} (h : Coupled R V m m')
    (hV : ∀ a b, V a b → V' a b) : Coupled R V' m m' :=
  fun s s' hs => ⟨(h s s' hs).1.mono hV, (h s s' hs).2⟩

theorem pure {a : α} {b : β} (h : V a b) :
    Coupled R V (Pure.pure a : Exec ε σ α) (Pure.pure b : Exec ε σ β) :=
  fun _ _ hs => ⟨h, hs⟩

theorem raise (e : ε) : Coupled R V (Exec.raise e : Exec ε σ α) (Exec.raise e : Exec ε σ β) :=
  fun _ _ hs => ⟨rfl, hs⟩

theorem lift {x : Except ε α} {y : Except ε β} (h : Agree V x y) :
    Coupled R V (Exec.lift x) (Exec.lift y) :=
  fun _ _ hs => ⟨h, hs⟩

theorem reads {f : σ → Except ε α} {g : σ → Except ε β}
    (h : ∀ s s', R s s' → Agree V (f s) (g s')) : Coupled R V (Exec.reads f) (Exec.reads g) :=
  fun s s' hs => ⟨h s s' hs, hs⟩

theorem write {f g : σ → σ} (h : ∀ s s', R s s' → R (f s) (g s')) :
    Coupled R (fun _ _ => True) (Exec.write f : Exec ε σ Unit) (Exec.write g) :=
  fun s s' hs => ⟨trivial, h s s' hs⟩

theorem bind {m : Exec ε σ α} {m' : Exec ε σ β} {f : α → Exec ε σ γ} {g : β → Exec ε σ δ}
    (h : Coupled R V m m') (hfg : ∀ a b, V a b → Coupled R U (f a) (g b)) :
    Coupled R U (m >>= f) (m' >>= g) := by
  intro s s' hs
  obtain ⟨hvalue, hstate⟩ := h s s' hs
  rw [Exec.bind_apply, Exec.bind_apply]
  rcases hm : m s with ⟨_ | a, t⟩ <;> rcases hm' : m' s' with ⟨_ | b, t'⟩ <;>
    rw [hm, hm'] at hvalue hstate
  · exact ⟨hvalue, hstate⟩
  · cases hvalue
  · cases hvalue
  · exact hfg a b hvalue t t' hstate

theorem seq {m : Exec ε σ α} {m' : Exec ε σ β} {f : α → Exec ε σ γ} {g : β → Exec ε σ δ}
    (h : Coupled R (fun _ _ => True) m m') (hfg : ∀ a b, Coupled R U (f a) (g b)) :
    Coupled R U (m >>= f) (m' >>= g) :=
  h.bind fun a b _ => hfg a b

theorem bindSame {m m' : Exec ε σ α} {f : α → Exec ε σ γ} {g : α → Exec ε σ δ}
    (h : Coupled R (· = ·) m m') (hfg : ∀ a, Coupled R U (f a) (g a)) :
    Coupled R U (m >>= f) (m' >>= g) :=
  h.bind fun a _ hab => hab ▸ hfg a

theorem liftSame (x : Except ε α) {f : α → Exec ε σ γ} {g : α → Exec ε σ δ}
    (hfg : ∀ a, x = .ok a → Coupled R U (f a) (g a)) :
    Coupled R U (Exec.lift x >>= f) (Exec.lift x >>= g) := by
  cases x with
  | ok a => exact hfg a rfl
  | error e => exact fun _ _ hs => ⟨rfl, hs⟩

theorem require {c : Prop} [Decidable c] (e : ε) :
    Coupled R (fun _ _ => True) (Exec.require c e : Exec ε σ Unit) (Exec.require c e) := by
  unfold Exec.require
  by_cases hc : c
  · rw [if_pos hc]
    exact pure trivial
  · rw [if_neg hc]
    exact raise e

end Coupled

end Wcp.Base
