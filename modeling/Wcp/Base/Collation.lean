import Wcp.Base.JsonDialect
/-!
# Keys in the order of code points

Languages compare strings by the units of their own encodings.  An encoding that keeps the order of
code points, whatever comes after a character (`Collates`), keeps the order of strings
(`flatMap_lt_iff`), and JSON is written in the same way under it as under code points
(`text_collated`).
-/

namespace Wcp.Base

/-- Characters in the order of their code points have their units in that order. -/
structure Collates (units : Char → List Nat) : Prop where
  ne_nil : ∀ c, units c ≠ []
  lt : ∀ c d : Char, c < d → ∀ r r', units c ++ r < units d ++ r'

variable {units : Char → List Nat}

theorem nil_lt_append {l : List Nat} (hl : l ≠ []) (r : List Nat) : [] < l ++ r := by
  cases l with
  | nil => exact absurd rfl hl
  | cons x l => exact List.nil_lt_cons x (l ++ r)

theorem append_lt_append_iff (l r r' : List Nat) : l ++ r < l ++ r' ↔ r < r' := by
  induction l with
  | nil => exact Iff.rfl
  | cons x l ih =>
      rw [List.cons_append, List.cons_append, List.cons_lt_cons_iff, ih]
      simp

theorem flatMap_lt_iff (h : Collates units) (cs ds : List Char) :
    cs.flatMap units < ds.flatMap units ↔ cs < ds := by
  induction cs generalizing ds with
  | nil =>
      cases ds with
      | nil => simp
      | cons d ds =>
          rw [List.flatMap_nil, List.flatMap_cons]
          exact iff_of_true (nil_lt_append (h.ne_nil d) _) (List.nil_lt_cons d ds)
  | cons c cs ih =>
      cases ds with
      | nil => simp
      | cons d ds =>
          rw [List.flatMap_cons, List.flatMap_cons, List.cons_lt_cons_iff]
          rcases lt_trichotomy c d with hlt | heq | hgt
          · exact iff_of_true (h.lt c d hlt _ _) (.inl hlt)
          · subst heq
            rw [append_lt_append_iff, ih]
            simp
          · have hback := h.lt d c hgt (ds.flatMap units) (cs.flatMap units)
            refine iff_of_false (lt_asymm hback) ?_
            rintro (hlt | ⟨heq, -⟩)
            · exact lt_asymm hgt hlt
            · exact absurd heq (ne_of_gt hgt)

theorem keyUnits_collated (h : Collates units) (escape : Char → List Char) (s t : String) :
    (Dialect.mk escape units).keyUnits s ≤ (Dialect.mk escape units).keyUnits t ↔ s ≤ t := by
  rw [Dialect.keyUnits, Dialect.keyUnits, String.le_iff_toList_le, ← not_lt, ← not_lt,
    flatMap_lt_iff h]

theorem codePoints_collate : Collates fun c => [c.toNat] where
  ne_nil _ := List.cons_ne_nil _ _
  lt _ _ hlt _ _ := List.cons_lt_cons_iff.2 (.inl hlt)

section Written

variable {units' : Char → List Nat}

theorem sorted_collated (h : Collates units) (h' : Collates units') (escape : Char → List Char)
    (ms : List (String × List Char)) :
    (Dialect.mk escape units).sorted ms = (Dialect.mk escape units').sorted ms := by
  have hmap := List.map_insertionSort
    (fun m n : String × List Char =>
      (Dialect.mk escape units).keyUnits m.1 ≤ (Dialect.mk escape units).keyUnits n.1)
    (fun m n => (Dialect.mk escape units').keyUnits m.1 ≤ (Dialect.mk escape units').keyUnits n.1)
    id ms fun m _ n _ =>
      (keyUnits_collated h escape m.1 n.1).trans (keyUnits_collated h' escape m.1 n.1).symm
  rw [List.map_id, List.map_id] at hmap
  exact hmap

mutual

/-- Dialects with the same escapes that both collate write a value alike. -/
theorem text_collated (h : Collates units) (h' : Collates units') (escape : Char → List Char) :
    ∀ v : Json, (Dialect.mk escape units).text v = (Dialect.mk escape units').text v
  | .str _ => rfl
  | .arr xs => by rw [Dialect.text, Dialect.text, texts_collated h h' escape xs]
  | .obj ms => by
      have hmember : (Dialect.mk escape units).member = (Dialect.mk escape units').member := rfl
      rw [Dialect.text, Dialect.text, memberTexts_collated h h' escape ms,
        sorted_collated h h' escape, hmember]
  | .null => rfl
  | .bool _ => rfl
  | .int _ => rfl
  | .float _ => rfl

theorem texts_collated (h : Collates units) (h' : Collates units') (escape : Char → List Char) :
    ∀ xs : List Json, (Dialect.mk escape units).texts xs = (Dialect.mk escape units').texts xs
  | [] => rfl
  | x :: xs => by
      rw [Dialect.texts, Dialect.texts, text_collated h h' escape x, texts_collated h h' escape xs]

theorem memberTexts_collated (h : Collates units) (h' : Collates units')
    (escape : Char → List Char) : ∀ ms : List (String × Json),
    (Dialect.mk escape units).memberTexts ms = (Dialect.mk escape units').memberTexts ms
  | [] => rfl
  | (k, x) :: ms => by
      rw [Dialect.memberTexts, Dialect.memberTexts, text_collated h h' escape x,
        memberTexts_collated h h' escape ms]

end

end Written

end Wcp.Base
