import Wcp.Base.JsonOrder
/-!
# Values that a reader cannot tell apart

A reader that asks a value for some members sees nothing of the others.
`padded v` is another value than `v`, with another canonical text, and answers
every question about a key without an exclamation mark as `v` does.
-/

namespace Wcp.Base

namespace Json

variable {ε : Type}

/-- A key that no member of an object has and that no verifier asks for. -/
def unreadKey (ms : List (String × Json)) : String :=
  String.ofList ('!' :: ms.flatMap fun m => m.1.toList)

/-- Another value that answers alike for every key without an exclamation mark. -/
def padded : Json → Json
  | .obj ms => .obj (ms ++ [(unreadKey ms, .null)])
  | .arr xs => .arr (xs ++ [.null])
  | .str s => .str (s ++ "!")
  | .null => .bool true
  | _ => .null

theorem unreadKey_notMem (ms : List (String × Json)) : unreadKey ms ∉ ms.map (·.1) := by
  intro h
  obtain ⟨m, hm, hkey⟩ := List.mem_map.1 h
  have hle : m.1.toList.length ≤ (ms.flatMap fun m => m.1.toList).length := by
    rw [List.flatMap_def]
    have hmem : m.1.toList ∈ ms.map fun m => m.1.toList := List.mem_map.2 ⟨m, hm, rfl⟩
    exact (List.sublist_flatten_of_mem hmem).length_le
  rw [hkey, unreadKey, String.toList_ofList, List.length_cons] at hle
  omega

theorem lookup_padded (ms : List (String × Json)) {k : String} (hk : '!' ∉ k.toList) :
    (ms ++ [(unreadKey ms, Json.null)]).lookup k = ms.lookup k := by
  have hne : (k == unreadKey ms) = false := by
    rw [beq_eq_false_iff_ne]
    rintro rfl
    exact hk (by simp [unreadKey])
  rw [List.lookup_append, List.lookup_cons, hne, List.lookup_nil, Option.or_none]

theorem get_padded (p : Json) {k : String} (hk : '!' ∉ k.toList) :
    p.padded.get k = (p.get k : Except (PyErr ε) Json) := by
  cases p with
  | obj ms => simp only [padded, get, getD, lookup_padded ms hk]
  | _ => rfl

theorem item_padded (p : Json) {k : String} (hk : '!' ∉ k.toList) :
    p.padded.item k = (p.item k : Except (PyErr ε) Json) := by
  cases p with
  | obj ms => simp only [padded, item, lookup_padded ms hk]
  | _ => rfl

/-- A text that ends in a character outside a pattern holds the pattern before it. -/
theorem infix_append_singleton {α : Type} {xs ys : List α} {c : α} (hc : c ∉ xs) :
    xs <:+: ys ++ [c] ↔ xs <:+: ys := by
  constructor
  · rintro ⟨s, t, h⟩
    rcases List.eq_nil_or_concat t with rfl | ⟨t', c', rfl⟩
    · rw [List.append_nil] at h
      rcases List.eq_nil_or_concat xs with rfl | ⟨xs', c', rfl⟩
      · exact List.nil_infix
      · rw [List.concat_eq_append, ← List.append_assoc] at h
        obtain ⟨-, hcc⟩ := List.append_inj' h rfl
        cases hcc
        exact absurd (by simp) hc
    · rw [List.concat_eq_append, ← List.append_assoc] at h
      obtain ⟨hys, -⟩ := List.append_inj' h rfl
      exact ⟨s, t', hys⟩
  · intro h
    exact h.trans (List.prefix_append ys [c]).isInfix

theorem contains_padded (p : Json) {k : String} (hk : '!' ∉ k.toList) :
    p.padded.contains k = (p.contains k : Except (PyErr ε) Bool) := by
  cases p with
  | obj ms => simp only [padded, contains, lookup_padded ms hk]
  | arr xs => simp [padded, contains]
  | str s =>
      have htext : (s ++ "!").toList = s.toList ++ ['!'] := by simp
      simp [padded, contains, htext, infix_append_singleton hk]
  | _ => rfl

theorem parsed_padded {p : Json} (hp : p.parsed = true) : p.padded.parsed = true := by
  cases p with
  | obj ms =>
      rw [parsed, Bool.and_eq_true, decide_eq_true_eq] at hp
      have hnodup : ((ms ++ [(unreadKey ms, Json.null)]).map (·.1)).Nodup := by
        rw [List.map_append, List.map_singleton, ← List.concat_eq_append, List.nodup_concat]
        exact ⟨unreadKey_notMem ms, hp.1⟩
      rw [padded, parsed, parsedMembers_append, hp.2]
      simpa [parsedMembers, parsed] using hnodup
  | arr xs =>
      rw [padded, parsed, parsedList_append]
      simpa [parsedList, parsed] using hp
  | _ => rfl

theorem not_sameValue_padded (p : Json) : ¬ p.SameValue p.padded := by
  intro h
  cases p with
  | obj ms =>
      have hlength := congrArg List.length (Json.obj.inj h)
      rw [sortMembers, sortMembers, List.length_insertionSort, List.length_insertionSort,
        sortKeysMembers_eq_map, sortKeysMembers_eq_map, List.length_map, List.length_map,
        List.length_append] at hlength
      simp at hlength
  | arr xs =>
      have hlength := congrArg List.length (Json.arr.inj h)
      rw [sortKeysList_eq_map, sortKeysList_eq_map, List.length_map, List.length_map,
        List.length_append] at hlength
      simp at hlength
  | str s =>
      have hlength := congrArg String.length (Json.str.inj h)
      simp at hlength
  | _ => cases h

end Json

end Wcp.Base
