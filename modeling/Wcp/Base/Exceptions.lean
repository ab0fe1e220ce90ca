import Wcp.Base.Exec
/-!
# Which exceptions come out

`RaisesOnly E` says that a computation raises nothing but exceptions of a kind `E`.
Every rule is an equivalence: a sequence raises only `E` exactly if its first step
does and the rest does from the value of that step.  So the exact condition on the
inputs is read off a body step by step.
-/

namespace Wcp.Base

section Pure

variable {ε α β : Type} {E : ε → Prop}

/-- A computation that raises exceptions of a kind only. -/
def RaisesOnly (E : ε → Prop) (x : Except ε α) : Prop := ∀ e, x = .error e → E e

@[simp] theorem raisesOnly_ok (a : α) : RaisesOnly E (.ok a : Except ε α) := nofun

@[simp] theorem raisesOnly_pure (a : α) : RaisesOnly E (pure a : Except ε α) := nofun

@[simp] theorem raisesOnly_error {e : ε} : RaisesOnly E (.error e : Except ε α) ↔ E e := by
  constructor
  · intro h
    exact h e rfl
  · intro h e' he
    cases he
    exact h

theorem raisesOnly_bind {x : Except ε α} {f : α → Except ε β} :
    RaisesOnly E (x >>= f) ↔ RaisesOnly E x ∧ ∀ a, x = .ok a → RaisesOnly E (f a) := by
  cases x with
  | ok a =>
      constructor
      · intro h
        refine ⟨raisesOnly_ok a, fun a' ha => ?_⟩
        cases ha
        exact h
      · rintro ⟨-, h⟩
        exact h a rfl
  | error e =>
      constructor
      · intro h
        exact ⟨raisesOnly_error.2 (h e rfl), nofun⟩
      · rintro ⟨h, -⟩ e' he
        cases he
        exact h e rfl

theorem raisesOnly_bind_unit {x : Except ε Unit} {f : Unit → Except ε β} :
    RaisesOnly E (x >>= f) ↔ RaisesOnly E x ∧ (x = .ok () → RaisesOnly E (f ())) := by
  rw [raisesOnly_bind]
  exact and_congr_right fun _ => ⟨fun h => h (), fun h _ => h⟩

theorem raisesOnly_map {x : Except ε α} {f : α → β} :
    RaisesOnly E (x.map f) ↔ RaisesOnly E x := by
  cases x <;> simp [Except.map]

theorem raisesOnly_iff_returns {x : Except ε α} (h : ∀ e, x = .error e → ¬ E e) :
    RaisesOnly E x ↔ Returns x := by
  cases x with
  | ok a => exact iff_of_true (raisesOnly_ok a) (returns_ok a)
  | error e => exact iff_of_false (fun hx => h e rfl (hx e rfl)) (not_returns_error e)

theorem raisesOnly_false {x : Except ε α} : RaisesOnly (fun _ => False) x ↔ Returns x :=
  raisesOnly_iff_returns fun _ _ => not_false

theorem Returns.raisesOnly {x : Except ε α} (h : Returns x) : RaisesOnly E x := by
  obtain ⟨a, rfl⟩ := h
  exact raisesOnly_ok a

theorem returns_imp {x : Except ε α} {P : Prop} : (Returns x → P) ↔ ∀ a, x = .ok a → P :=
  forall_exists_index

/-- A first step that returns unless it raises something else, and a rest that does not depend on
its value. -/
theorem raisesOnly_bind_const {x : Except ε α} {f : α → Except ε β} {C : Prop}
    (hx : RaisesOnly E x → Returns x) (hf : ∀ a, RaisesOnly E (f a) ↔ C) :
    RaisesOnly E (x >>= f) ↔ RaisesOnly E x ∧ C := by
  rw [raisesOnly_bind]
  refine and_congr_right fun h => ?_
  obtain ⟨a, ha⟩ := hx h
  exact ⟨fun h => (hf a).1 (h a ha), fun h a _ => (hf a).2 h⟩

/-- A step that needs a condition, and raises something else without it. -/
theorem raisesOnly_needs_bind {c : Prop} [Decidable c] {a : α} {e : ε} {f : α → Except ε β}
    (he : ¬ E e) : RaisesOnly E ((if c then .ok a else .error e) >>= f) ↔
      c ∧ RaisesOnly E (f a) := by
  by_cases hc : c
  · rw [if_pos hc, and_iff_right hc]
    rfl
  · rw [if_neg hc]
    exact iff_of_false (fun h => he (h e rfl)) fun h => hc h.1

theorem raisesOnly_needs {c : Prop} [Decidable c] {a : α} {e : ε} (he : ¬ E e) :
    RaisesOnly E (if c then .ok a else .error e) ↔ c := by
  by_cases hc : c <;> simp [hc, he]

theorem raisesOnly_ensure {c : Prop} [Decidable c] {e : ε} (he : E e) :
    RaisesOnly E (Exec.ensure c e) := by
  unfold Exec.ensure
  split
  · exact raisesOnly_ok ()
  · exact raisesOnly_error.2 he

theorem raisesOnly_ensure_bind {c : Prop} [Decidable c] {e : ε} {f : Unit → Except ε β}
    (he : E e) : RaisesOnly E (Exec.ensure c e >>= f) ↔ (c → RaisesOnly E (f ())) := by
  rw [Exec.ensure]
  by_cases hc : c
  · rw [if_pos hc, imp_iff_right hc]
    rfl
  · rw [if_neg hc]
    refine iff_of_true ?_ fun h => absurd h hc
    exact raisesOnly_error.2 he

/-! ## One element after the other -/

/-- `P` holds of the elements in turn, up to the first one where `C` fails. -/
def InTurn (P C : α → Prop) : List α → Prop
  | [] => True
  | x :: xs => P x ∧ (C x → InTurn P C xs)

theorem raisesOnly_mapM {f : α → Except ε β} (xs : List α) :
    RaisesOnly E (xs.mapM f) ↔
      InTurn (fun x => RaisesOnly E (f x)) (fun x => Returns (f x)) xs := by
  induction xs with
  | nil => exact iff_of_true (raisesOnly_pure _) trivial
  | cons x xs ih =>
      rw [List.mapM_cons, raisesOnly_bind]
      refine and_congr_right fun _ => ?_
      have hrest : ∀ y, RaisesOnly E (xs.mapM f >>= fun ys => pure (y :: ys)) ↔
          RaisesOnly E (xs.mapM f) := by
        intro y
        rw [raisesOnly_bind]
        exact and_iff_left fun _ _ => raisesOnly_pure _
      constructor
      · rintro h ⟨y, hy⟩
        exact ih.1 ((hrest y).1 (h y hy))
      · intro h y hy
        exact (hrest y).2 (ih.2 (h ⟨y, hy⟩))

/-- Where no exception of the kind is raised, every element is come to. -/
theorem raisesOnly_mapM_forall {f : α → Except ε β} {xs : List α}
    (h : ∀ x, RaisesOnly E (f x) → Returns (f x)) :
    RaisesOnly E (xs.mapM f) ↔ ∀ x ∈ xs, RaisesOnly E (f x) := by
  rw [raisesOnly_mapM]
  induction xs with
  | nil => exact iff_of_true trivial fun x hx => absurd hx List.not_mem_nil
  | cons x xs ih =>
      rw [InTurn, List.forall_mem_cons, ih]
      exact and_congr_right fun hx => imp_iff_right (h x hx)

theorem InTurn.congr {P P' C C' : α → Prop} {xs : List α} (hP : ∀ x, P x ↔ P' x)
    (hC : ∀ x, C x ↔ C' x) : InTurn P C xs ↔ InTurn P' C' xs := by
  induction xs with
  | nil => exact Iff.rfl
  | cons x xs ih => exact and_congr (hP x) (imp_congr (hC x) ih)

end Pure

/-! ## With a state -/

namespace Exec

variable {ε σ α β : Type} {E : ε → Prop} {s : σ}

/-- The outcome raises only exceptions of the kind exactly under a condition. -/
def OnlyIff (E : ε → Prop) (C : Prop) (r : Except ε α) (_ : σ) : Prop := RaisesOnly E r ↔ C

namespace OnlyIff

variable {C C' P : Prop}

theorem congr {m : Exec ε σ α} (h : Ends m s (OnlyIff E C)) (hC : C ↔ C') :
    Ends m s (OnlyIff E C') := Iff.trans h hC

theorem pure (a : α) : Ends (Pure.pure a : Exec ε σ α) s (OnlyIff E True) :=
  iff_of_true (raisesOnly_pure a) trivial

theorem lift_bind {x : Except ε α} {f : α → Exec ε σ β} {C : α → Prop}
    (hx : RaisesOnly E x ↔ P) (hf : ∀ a, x = .ok a → Ends (f a) s (OnlyIff E (C a))) :
    Ends (lift x >>= f) s (OnlyIff E (P ∧ ∀ a, x = .ok a → C a)) := by
  refine Ends.lift_bind ?_ ?_
  · rintro a rfl
    refine congr (hf a rfl) ?_
    rw [← hx, and_iff_right (raisesOnly_ok a)]
    simp
  · rintro e rfl
    rw [raisesOnly_error] at hx
    exact raisesOnly_error.trans (hx.trans (and_iff_left fun _ h => nomatch h).symm)

theorem lift_bind_unit {x : Except ε Unit} {f : Unit → Exec ε σ β} {C : Prop}
    (hx : RaisesOnly E x ↔ P) (hf : x = .ok () → Ends (f ()) s (OnlyIff E C)) :
    Ends (lift x >>= f) s (OnlyIff E (P ∧ (x = .ok () → C))) := by
  refine congr (lift_bind (C := fun _ => C) hx fun _ h => hf h) (and_congr_right fun _ => ?_)
  exact ⟨fun h => h (), fun h _ => h⟩

theorem reads_bind {g : σ → Except ε α} {f : α → Exec ε σ β} {C : α → Prop}
    (hg : RaisesOnly E (g s) ↔ P) (hf : ∀ a, g s = .ok a → Ends (f a) s (OnlyIff E (C a))) :
    Ends (reads g >>= f) s (OnlyIff E (P ∧ ∀ a, g s = .ok a → C a)) :=
  lift_bind (x := g s) hg hf

theorem require_bind {c : Prop} [Decidable c] {e : ε} {f : Unit → Exec ε σ β}
    (he : E e) (hf : c → Ends (f ()) s (OnlyIff E C)) :
    Ends (require c e >>= f) s (OnlyIff E (c → C)) := by
  refine Ends.require_bind ?_ ?_
  · intro hc
    exact congr (hf hc) (imp_iff_right hc).symm
  · intro hc
    exact iff_of_true (raisesOnly_error.2 he) fun h => absurd h hc

end OnlyIff

end Exec

end Wcp.Base
