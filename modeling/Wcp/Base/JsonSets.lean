import Wcp.Base.Json
/-!
# Sets of scalars

`set(xs)` keeps one element of every class of equal ones.  On hashable values
equality is equality of a key, so a membership test on the set is a membership
test on the list it was made from (`any_toSet`), and two lists with the same
elements make sets that answer every test alike.
-/

namespace Wcp.Base

namespace Json

/-- The class of a hashable value: numbers by value, a NaN in no class. -/
def hashKey : Json → Option (FloatValue ⊕ Option String)
  | .null => some (.inr none)
  | .str s => some (.inr (some s))
  | .arr _ => none
  | .obj _ => none
  | v =>
      match v.numeric with
      | some .nan => none
      | some q => some (.inl q)
      | none => none

theorem hashKey_numeric {v : Json} {q : FloatValue} (hv : v.numeric = some q) :
    v.hashKey = if q = .nan then none else some (.inl q) := by
  cases v with
  | bool b =>
      cases hv
      rfl
  | int i =>
      cases hv
      rfl
  | float f =>
      cases hv
      cases hq : f.value <;> simp [hashKey, numeric, hq]
  | _ => cases hv

theorem hashKey_inl {v : Json} {q : FloatValue} (h : v.hashKey = some (.inl q)) :
    v.numeric = some q := by
  cases hv : v.numeric with
  | some q' =>
      rw [hashKey_numeric hv] at h
      split at h
      · cases h
      · cases h
        rfl
  | none => cases v <;> simp_all [hashKey, numeric]

theorem hashKey_inr {v : Json} {o : Option String} (h : v.hashKey = some (.inr o)) :
    v = o.elim .null .str := by
  cases hv : v.numeric with
  | some q =>
      rw [hashKey_numeric hv] at h
      split at h <;> cases h
  | none =>
      cases v with
      | null =>
          cases h
          rfl
      | str s =>
          cases h
          rfl
      | arr xs => cases h
      | obj ms => cases h
      | _ => cases hv

theorem pyEq_numeric {v w : Json} {q : FloatValue} (hv : v.numeric = some q) :
    v.pyEq w = true ↔ ∃ k, v.hashKey = some k ∧ w.hashKey = some k := by
  have heq : v.pyEq w = w.numeric.elim false (numericEq q) := by
    cases v with
    | bool b =>
        cases hv
        unfold pyEq
        cases w.numeric <;> rfl
    | int i =>
        cases hv
        unfold pyEq
        cases w.numeric <;> rfl
    | float f =>
        cases hv
        unfold pyEq
        cases w.numeric <;> rfl
    | _ => cases hv
  rw [heq, hashKey_numeric hv]
  by_cases hnan : q = .nan
  · subst hnan
    cases w.numeric <;> simp [numericEq]
  · rw [if_neg hnan]
    constructor
    · intro h
      cases hw : w.numeric with
      | none =>
          rw [hw] at h
          cases h
      | some y =>
          rw [hw] at h
          simp only [Option.elim_some, numericEq, Bool.and_eq_true, beq_iff_eq] at h
          refine ⟨.inl q, rfl, ?_⟩
          rw [hashKey_numeric hw, ← h.1, if_neg hnan]
    · rintro ⟨k, hk, hw⟩
      cases hk
      rw [hashKey_inl hw]
      simp [numericEq, hnan]

theorem pyEq_iff_hashKey {v : Json} (hv : v.hashable = true) (w : Json) :
    v.pyEq w = true ↔ ∃ k, v.hashKey = some k ∧ w.hashKey = some k := by
  cases v with
  | null =>
      rw [pyEq]
      constructor
      · intro h
        rw [beq_iff_eq.1 h]
        exact ⟨_, rfl, rfl⟩
      · rintro ⟨k, hk, hw⟩
        cases hk
        rw [hashKey_inr hw]
        rfl
  | str s =>
      rw [pyEq]
      constructor
      · intro h
        rw [beq_iff_eq.1 h]
        exact ⟨_, rfl, rfl⟩
      · rintro ⟨k, hk, hw⟩
        cases hk
        rw [hashKey_inr hw]
        exact beq_self_eq_true _
  | bool b => exact pyEq_numeric rfl
  | int i => exact pyEq_numeric rfl
  | float f => exact pyEq_numeric rfl
  | arr xs => cases hv
  | obj ms => cases hv

/-! ## Membership -/

/-- Add an element to a set, unless an equal one is there. -/
def insertNew (acc : List Json) (x : Json) : List Json :=
  if acc.any (·.pyEq x) then acc else acc ++ [x]

theorem any_pyEq_iff {xs : List Json} (hxs : ∀ x ∈ xs, x.hashable = true) (r : Json) :
    xs.any (·.pyEq r) = true ↔ ∃ k ∈ r.hashKey, ∃ x ∈ xs, x.hashKey = some k := by
  rw [List.any_eq_true]
  constructor
  · rintro ⟨x, hx, h⟩
    obtain ⟨k, hxk, hrk⟩ := (pyEq_iff_hashKey (hxs x hx) r).1 h
    exact ⟨k, hrk, x, hx, hxk⟩
  · rintro ⟨k, hrk, x, hx, hxk⟩
    exact ⟨x, hx, (pyEq_iff_hashKey (hxs x hx) r).2 ⟨k, hxk, hrk⟩⟩

theorem exists_insertNew {xs : List Json} (hxs : ∀ x ∈ xs, x.hashable = true)
    {k : FloatValue ⊕ Option String} {acc : List Json} (hacc : ∀ x ∈ acc, x.hashable = true) :
    (∃ x ∈ xs.foldl insertNew acc, x.hashKey = some k) ↔
      (∃ x ∈ acc, x.hashKey = some k) ∨ ∃ x ∈ xs, x.hashKey = some k := by
  induction xs generalizing acc with
  | nil => simp
  | cons y ys ih =>
      have hy := hxs y List.mem_cons_self
      by_cases hany : acc.any (·.pyEq y) = true
      · rw [List.foldl_cons, insertNew, if_pos hany,
          ih (fun x hx => hxs x (List.mem_cons_of_mem y hx)) hacc]
        obtain ⟨k', hyk, x, hx, hxk⟩ := (any_pyEq_iff hacc y).1 hany
        constructor
        · rintro (h | ⟨x', hx', h⟩)
          · exact .inl h
          · exact .inr ⟨x', List.mem_cons_of_mem y hx', h⟩
        · rintro (h | ⟨x', hx', h⟩)
          · exact .inl h
          · rcases List.mem_cons.1 hx' with rfl | hx'
            · rw [h] at hyk
              cases hyk
              exact .inl ⟨x, hx, hxk⟩
            · exact .inr ⟨x', hx', h⟩
      · have hacc' : ∀ x ∈ acc ++ [y], x.hashable = true := by
          intro x hx
          rcases List.mem_append.1 hx with hx | hx
          · exact hacc x hx
          · rw [List.mem_singleton.1 hx]
            exact hy
        rw [List.foldl_cons, insertNew, if_neg hany,
          ih (fun x hx => hxs x (List.mem_cons_of_mem y hx)) hacc']
        simp only [List.mem_append, List.mem_cons, List.not_mem_nil, or_false]
        constructor
        · rintro (⟨x, hx | rfl, h⟩ | ⟨x, hx, h⟩)
          · exact .inl ⟨x, hx, h⟩
          · exact .inr ⟨x, .inl rfl, h⟩
          · exact .inr ⟨x, .inr hx, h⟩
        · rintro (⟨x, hx, h⟩ | ⟨x, rfl | hx, h⟩)
          · exact .inl ⟨x, .inl hx, h⟩
          · exact .inl ⟨x, .inr rfl, h⟩
          · exact .inr ⟨x, hx, h⟩

variable {ε : Type}

theorem toSet_arr (xs : List Json) :
    (Json.arr xs).toSet = (if xs.all hashable then .ok (xs.foldl insertNew [])
      else .error .typeError : Except (PyErr ε) (List Json)) := rfl

theorem toSet_eq_ok {v : Json} {s : List Json} (h : v.toSet = (.ok s : Except (PyErr ε) _)) :
    ∃ xs, v.iter = (.ok xs : Except (PyErr ε) _) ∧ s = xs.foldl insertNew [] := by
  unfold toSet at h
  split at h
  · cases h
  · next xs hxs =>
      split at h
      · cases h
        exact ⟨xs, hxs, rfl⟩
      · cases h

theorem mem_of_mem_foldl_insertNew {xs acc : List Json} {y : Json}
    (h : y ∈ xs.foldl insertNew acc) : y ∈ acc ∨ y ∈ xs := by
  induction xs generalizing acc with
  | nil => exact .inl h
  | cons x xs ih =>
      rcases ih h with hacc | hxs
      · unfold insertNew at hacc
        split at hacc
        · exact .inl hacc
        · rcases List.mem_append.1 hacc with hacc | hx
          · exact .inl hacc
          · exact .inr (List.mem_singleton.1 hx ▸ List.mem_cons_self)
      · exact .inr (List.mem_cons_of_mem x hxs)

theorem subset_foldl_insertNew (xs acc : List Json) : acc ⊆ xs.foldl insertNew acc := by
  induction xs generalizing acc with
  | nil => exact List.Subset.refl acc
  | cons x xs ih =>
      refine List.Subset.trans ?_ (ih (insertNew acc x))
      unfold insertNew
      split
      · exact List.Subset.refl acc
      · exact List.subset_append_left acc [x]

theorem mem_or_any_foldl_insertNew {xs : List Json} {x : Json} (hx : x ∈ xs) (acc : List Json) :
    x ∈ xs.foldl insertNew acc ∨ (xs.foldl insertNew acc).any (·.pyEq x) = true := by
  induction xs generalizing acc with
  | nil => cases hx
  | cons y xs ih =>
      rcases List.mem_cons.1 hx with rfl | hx
      · have hsub := subset_foldl_insertNew xs (insertNew acc x)
        unfold insertNew at hsub
        split at hsub
        · next hany =>
            obtain ⟨y, hy, heq⟩ := List.any_eq_true.1 hany
            right
            refine List.any_eq_true.2 ⟨y, ?_, heq⟩
            rw [List.foldl_cons, insertNew, if_pos hany]
            exact hsub hy
        · next hany =>
            left
            rw [List.foldl_cons, insertNew, if_neg hany]
            exact hsub (List.mem_append_right acc (List.mem_singleton_self x))
      · exact ih hx (insertNew acc y)

theorem any_foldl_insertNew {xs : List Json} (hxs : ∀ x ∈ xs, x.hashable = true) (r : Json) :
    (xs.foldl insertNew []).any (·.pyEq r) = xs.any (·.pyEq r) := by
  have hset : ∀ x ∈ xs.foldl insertNew [], x.hashable = true := by
    intro x hx
    rcases mem_of_mem_foldl_insertNew hx with h | h
    · cases h
    · exact hxs x h
  rw [Bool.eq_iff_iff, any_pyEq_iff hset, any_pyEq_iff hxs]
  refine exists_congr fun k => and_congr_right fun _ => ?_
  rw [exists_insertNew hxs (by simp)]
  simp

/-- Lists with the same elements make sets that answer every membership test alike. -/
theorem any_pyEq_congr {xs ys : List Json} (h : ∀ x, x ∈ xs ↔ x ∈ ys) (r : Json) :
    xs.any (·.pyEq r) = ys.any (·.pyEq r) := by
  rw [Bool.eq_iff_iff, List.any_eq_true, List.any_eq_true]
  exact exists_congr fun x => and_congr_left fun _ => h x

end Json

end Wcp.Base
