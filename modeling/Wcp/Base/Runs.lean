import Mathlib.Data.List.Infix
import Mathlib.Logic.Relation
/-!
# Runs of a deterministic machine

A machine takes one input after another; `run` is its state after all of them.
An invariant is proved for one step and holds along every run (`run_invariant`),
a reflexive and transitive relation that every step keeps relates the ends of
every run (`run_relates`), and a property that holds at the end and not at the
start became true at one step (`run_first`).
-/

namespace Wcp.Base

variable {σ ι : Type} (step : σ → ι → σ)

/-- The state after all inputs. -/
def run (s : σ) (inputs : List ι) : σ := inputs.foldl step s

@[simp] theorem run_nil (s : σ) : run step s [] = s := rfl

@[simp] theorem run_cons (s : σ) (i : ι) (inputs : List ι) :
    run step s (i :: inputs) = run step (step s i) inputs := rfl

theorem run_append (s : σ) (first second : List ι) :
    run step s (first ++ second) = run step (run step s first) second :=
  List.foldl_append

variable {step}

/-- An invariant kept by every input that is admissible where it comes holds after every run
of such inputs. -/
theorem run_invariant_at {Inv : σ → Prop} {Ok : σ → ι → Prop}
    (hstep : ∀ s i, Inv s → Ok s i → Inv (step s i)) {s : σ} {inputs : List ι} (hinit : Inv s)
    (hok : ∀ before i after, inputs = before ++ i :: after → Ok (run step s before) i) :
    Inv (run step s inputs) := by
  induction inputs generalizing s with
  | nil => exact hinit
  | cons i inputs ih =>
      have hfirst : Inv (step s i) := hstep s i hinit (hok [] i inputs rfl)
      refine ih hfirst fun before j after hsplit => ?_
      exact hok (i :: before) j after (by rw [hsplit, List.cons_append])

/-- Whether every input of a run passes a test where it comes. -/
def admitted (step : σ → ι → σ) (ok : σ → ι → Bool) : σ → List ι → Bool
  | _, [] => true
  | s, i :: inputs => ok s i && admitted step ok (step s i) inputs

theorem admitted_at {ok : σ → ι → Bool} {s : σ} {inputs : List ι}
    (h : admitted step ok s inputs = true) :
    ∀ before i after, inputs = before ++ i :: after → ok (run step s before) i = true := by
  induction inputs generalizing s with
  | nil =>
      intro before i after hsplit
      simp at hsplit
  | cons j inputs ih =>
      intro before i after hsplit
      obtain ⟨hj, hrest⟩ := Bool.and_eq_true_iff.1 h
      cases before with
      | nil =>
          obtain ⟨rfl, -⟩ := List.cons.inj hsplit
          exact hj
      | cons k before =>
          obtain ⟨rfl, hinputs⟩ := List.cons.inj hsplit
          exact ih hrest before i after hinputs

/-- An invariant kept by every admissible input holds after every admissible run. -/
theorem run_invariant {Inv : σ → Prop} {Ok : ι → Prop}
    (hstep : ∀ s i, Inv s → Ok i → Inv (step s i)) {s : σ} {inputs : List ι}
    (hinit : Inv s) (hok : ∀ i ∈ inputs, Ok i) : Inv (run step s inputs) := by
  refine @run_invariant_at _ _ step Inv (fun _ i => Ok i) hstep s inputs hinit ?_
  intro before i after hsplit
  exact hok i (by rw [hsplit]; simp)

/-- Where what is admissible keeps an invariant that is good, and what is not spoils a good
state at once, a run is good at every moment exactly if each of its inputs is admissible where it
comes. -/
theorem run_good_iff {Inv Good : σ → Prop} {Ok : σ → ι → Prop}
    (hstep : ∀ s i, Inv s → Ok s i → Inv (step s i)) (hgood : ∀ s, Inv s → Good s)
    (hspoil : ∀ s i, Inv s → ¬ Ok s i → ¬ Good (step s i)) {s : σ} (hinit : Inv s)
    (inputs : List ι) :
    (∀ before, before <+: inputs → Good (run step s before)) ↔
      ∀ before i after, inputs = before ++ i :: after → Ok (run step s before) i := by
  constructor
  · intro hall
    induction inputs generalizing s with
    | nil =>
        intro before i after hsplit
        simp at hsplit
    | cons j inputs ih =>
        have hj : Ok s j := by
          by_contra hj
          exact hspoil s j hinit hj (hall [j] ⟨inputs, rfl⟩)
        have hrest := ih (hstep s j hinit hj) fun before hbefore =>
          hall (j :: before) (List.cons_prefix_cons.2 ⟨rfl, hbefore⟩)
        intro before i after hsplit
        cases before with
        | nil =>
            obtain ⟨rfl, -⟩ := List.cons.inj hsplit
            exact hj
        | cons k before =>
            obtain ⟨rfl, hinputs⟩ := List.cons.inj hsplit
            exact hrest before i after hinputs
  · rintro hok before ⟨later, rfl⟩
    refine hgood _ (run_invariant_at hstep hinit fun first i after hsplit => ?_)
    exact hok first i (after ++ later) (by rw [hsplit, List.append_assoc, List.cons_append])

/-- A relation kept by every step from a state of the invariant relates the two ends of a
run. -/
theorem run_relates {Inv : σ → Prop} {R : σ → σ → Prop}
    (hrefl : ∀ s, R s s) (htrans : ∀ {a b c}, R a b → R b c → R a c)
    (hinv : ∀ s i, Inv s → Inv (step s i)) (hstep : ∀ s i, Inv s → R s (step s i))
    {s : σ} (inputs : List ι) (hinit : Inv s) : R s (run step s inputs) := by
  induction inputs generalizing s with
  | nil => exact hrefl s
  | cons i inputs ih => exact htrans (hstep s i hinit) (ih (hinv s i hinit))

/-- What holds at the end of a run and not at its start was made true by one of its steps. -/
theorem run_first {P : σ → Prop} {s : σ} {inputs : List ι}
    (hstart : ¬P s) (hend : P (run step s inputs)) :
    ∃ before i after, inputs = before ++ i :: after ∧
      ¬P (run step s before) ∧ P (step (run step s before) i) := by
  induction inputs generalizing s with
  | nil => exact absurd hend hstart
  | cons i inputs ih =>
      by_cases hi : P (step s i)
      · exact ⟨[], i, inputs, rfl, hstart, hi⟩
      · obtain ⟨before, j, after, hsplit, hbefore, hj⟩ := ih hi hend
        exact ⟨i :: before, j, after, by rw [hsplit, List.cons_append], hbefore, hj⟩

/-- What becomes true by certain inputs only, and stays true, holds at the end of a run exactly if
it did at the start or one of these inputs came. -/
theorem run_becomes_iff {Inv P : σ → Prop} {Makes : σ → ι → Prop}
    (hinv : ∀ s i, Inv s → Inv (step s i))
    (hstep : ∀ s i, Inv s → (P (step s i) ↔ P s ∨ Makes s i)) {s : σ} (hinit : Inv s)
    (inputs : List ι) :
    P (run step s inputs) ↔
      P s ∨ ∃ before i after, inputs = before ++ i :: after ∧ Makes (run step s before) i := by
  induction inputs generalizing s with
  | nil => simp
  | cons j inputs ih =>
      rw [run_cons, ih (hinv s j hinit), hstep s j hinit, or_assoc]
      refine or_congr_right ⟨?_, ?_⟩
      · rintro (hj | ⟨before, i, after, hsplit, hi⟩)
        · exact ⟨[], j, inputs, rfl, hj⟩
        · exact ⟨j :: before, i, after, by rw [hsplit, List.cons_append], hi⟩
      · rintro ⟨before, i, after, hsplit, hi⟩
        cases before with
        | nil =>
            obtain ⟨rfl, -⟩ := List.cons.inj hsplit
            exact .inl hi
        | cons k before =>
            obtain ⟨rfl, hinputs⟩ := List.cons.inj hsplit
            exact .inr ⟨before, i, after, hinputs, hi⟩

end Wcp.Base
