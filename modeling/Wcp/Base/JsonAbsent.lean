import Wcp.Base.JsonOrder
/-!
# Absent values

`v or empty` puts a default where a value is absent, and with it wherever a value is
falsy.  Values that read the same after it are the same up to null and the
default (`SameUpTo`) exactly if falsy values of any other kind coincide
(`sameUpTo_iff`).
-/

namespace Wcp.Base.Json

/-! ## Comparisons -/

theorem str_pyEq_iff {s : String} {v : Json} : (Json.str s).pyEq v = true ↔ v = .str s := by
  simp [pyEq]

theorem pyEq_str_iff {v : Json} {s : String} : v.pyEq (.str s) = true ↔ v = .str s := by
  cases v with
  | str t =>
      simp only [pyEq, beq_iff_eq, str.injEq]
      exact eq_comm
  | _ => simp [pyEq, numeric]

theorem pyEq_null_iff {v : Json} : v.pyEq .null = true ↔ v = .null := by
  cases v <;> simp [pyEq, numeric]

theorem SameValue.truthy_eq {v w : Json} (h : v.SameValue w) : v.truthy = w.truthy := by
  have hsorted : ∀ u : Json, u.sortKeys.truthy = u.truthy := by
    intro u
    cases u with
    | arr xs => cases xs <;> rfl
    | obj ms =>
        have hlength : (sortMembers (sortKeysMembers ms)).length = ms.length := by
          rw [(sortMembers_perm _).length_eq, sortKeysMembers_eq_map, List.length_map]
        rw [Bool.eq_iff_iff]
        simp [sortKeys, truthy, ← List.length_eq_zero_iff, hlength]
    | _ => rfl
  rw [← hsorted v, ← hsorted w, h]

theorem sameValue_str_iff {v : Json} {s : String} : v.SameValue (.str s) ↔ v = .str s := by
  cases v <;> simp [SameValue, sortKeys]

/-! ## Defaults -/

theorem or_truthy {v d : Json} (h : v.truthy = true) : v.or d = v := if_pos h

theorem or_falsy {v d : Json} (h : v.truthy = false) : v.or d = d := by
  rw [Json.or, h]
  rfl

/-- Null, or the empty value that stands for it. -/
def Blank (empty v : Json) : Prop := v = .null ∨ v = empty

/-- A falsy value that is neither. -/
def Odd (empty v : Json) : Prop := v.truthy = false ∧ ¬Blank empty v

instance (empty v : Json) : Decidable (Blank empty v) :=
  inferInstanceAs (Decidable (v = .null ∨ v = empty))

instance (empty v : Json) : Decidable (Odd empty v) :=
  inferInstanceAs (Decidable (v.truthy = false ∧ ¬Blank empty v))

def SameUpTo (empty v w : Json) : Prop := v.SameValue w ∨ Blank empty v ∧ Blank empty w

/-- Odd values occur only on both sides. -/
def OddCoincide (empty v w : Json) : Prop := Odd empty v ∨ Odd empty w → v.SameValue w

/-- Where falsy values are replaced by the empty one, the originals agree up to null exactly if
odd values coincide. -/
theorem sameUpTo_iff {empty v w : Json} (hempty : empty.truthy = false)
    (h : (v.or empty).SameValue (w.or empty)) :
    SameUpTo empty v w ↔ OddCoincide empty v w := by
  cases hv : v.truthy with
  | true =>
      cases hw : w.truthy with
      | true =>
          rw [or_truthy hv, or_truthy hw] at h
          exact ⟨fun _ _ => h, fun _ => .inl h⟩
      | false =>
          rw [or_truthy hv, or_falsy hw] at h
          have heq := h.truthy_eq
          rw [hv, hempty] at heq
          cases heq
  | false =>
      cases hw : w.truthy with
      | true =>
          rw [or_falsy hv, or_truthy hw] at h
          have heq := h.truthy_eq
          rw [hw, hempty] at heq
          cases heq
      | false =>
          unfold SameUpTo OddCoincide Odd
          rw [hv, hw]
          by_cases hvw : v.SameValue w <;> simp [hvw]

end Wcp.Base.Json
