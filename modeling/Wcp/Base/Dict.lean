import Mathlib.Data.List.Nodup
/-!
# Dictionaries in insertion order

A dictionary lists its keys once, in the order in which they were first set.
Setting a key that is there replaces its value in place.
-/

namespace Wcp.Base

variable {κ α : Type} [DecidableEq κ]

/-- A dictionary: keys with their values, each key once. -/
structure Dict (κ α : Type) where
  items : List (κ × α)
  nodup : (items.map (·.1)).Nodup
deriving DecidableEq

namespace Dict

def empty : Dict κ α := ⟨[], List.nodup_nil⟩

def values (d : Dict κ α) : List α := d.items.map (·.2)

/-- `d.get(k)`. -/
def get (d : Dict κ α) (k : κ) : Option α := (d.items.find? fun p => p.1 = k).map (·.2)

/-- The items after `d[k] = v`. -/
def setItems (items : List (κ × α)) (k : κ) (v : α) : List (κ × α) :=
  if k ∈ items.map (·.1) then items.map fun p => if p.1 = k then (p.1, v) else p
  else items ++ [(k, v)]

theorem keys_setItems {items : List (κ × α)} {k : κ} {v : α} :
    (setItems items k v).map (·.1) =
      if k ∈ items.map (·.1) then items.map (·.1) else items.map (·.1) ++ [k] := by
  unfold setItems
  split
  · rw [List.map_map]
    refine List.map_congr_left fun p _ => ?_
    by_cases hk : p.1 = k <;> simp [hk]
  · rw [List.map_append, List.map_singleton]

/-- `d[k] = v`. -/
def set (d : Dict κ α) (k : κ) (v : α) : Dict κ α where
  items := setItems d.items k v
  nodup := by
    rw [keys_setItems]
    split
    · exact d.nodup
    · next hk =>
        rw [← List.concat_eq_append, List.nodup_concat]
        exact ⟨hk, d.nodup⟩

/-- `d.pop(k, None)`: what is left. -/
def pop (d : Dict κ α) (k : κ) : Dict κ α where
  items := d.items.filter fun p => p.1 ≠ k
  nodup := (List.Sublist.map Prod.fst List.filter_sublist).nodup d.nodup

theorem get_empty (k : κ) : (empty : Dict κ α).get k = none := rfl

variable {d : Dict κ α} {k l : κ} {v w : α}

theorem get_eq_some_iff : d.get k = some v ↔ (k, v) ∈ d.items := by
  unfold get
  constructor
  · intro h
    obtain ⟨p, hp, rfl⟩ := Option.map_eq_some_iff.1 h
    have hk : p.1 = k := by simpa using List.find?_some hp
    exact hk ▸ List.mem_of_find?_eq_some hp
  · intro h
    cases hfind : d.items.find? fun p => p.1 = k with
    | none => exact absurd (List.find?_eq_none.1 hfind _ h) (by simp)
    | some p =>
        have hk : p.1 = k := by simpa using List.find?_some hfind
        have hp := List.inj_on_of_nodup_map d.nodup (List.mem_of_find?_eq_some hfind) h hk
        rw [hp]
        rfl

theorem mem_values_iff : v ∈ d.values ↔ ∃ k, d.get k = some v := by
  simp only [get_eq_some_iff, values, List.mem_map, Prod.exists, exists_eq_right]

theorem mem_set {p : κ × α} (h : p ∈ (d.set k v).items) : p = (k, v) ∨ (p ∈ d.items ∧ p.1 ≠ k) := by
  unfold set setItems at h
  dsimp only at h
  split at h
  · obtain ⟨q, hq, rfl⟩ := List.mem_map.1 h
    by_cases hk : q.1 = k
    · exact .inl (by simp [hk])
    · rw [if_neg hk]
      exact .inr ⟨hq, hk⟩
  · next hnew =>
      rcases List.mem_append.1 h with hp | hp
      · exact .inr ⟨hp, fun hk => hnew (hk ▸ List.mem_map_of_mem hp)⟩
      · exact .inl (List.mem_singleton.1 hp)

theorem get_set (h : (d.set k v).get l = some w) :
    (l = k ∧ w = v) ∨ (l ≠ k ∧ d.get l = some w) := by
  rw [get_eq_some_iff] at h
  rcases mem_set h with heq | ⟨hmem, hne⟩
  · obtain ⟨rfl, rfl⟩ := Prod.mk.inj heq
    exact .inl ⟨rfl, rfl⟩
  · exact .inr ⟨hne, get_eq_some_iff.2 hmem⟩

theorem get_pop (h : (d.pop k).get l = some v) : l ≠ k ∧ d.get l = some v := by
  rw [get_eq_some_iff, pop] at h
  obtain ⟨hmem, hne⟩ := List.mem_filter.1 h
  exact ⟨by simpa using hne, get_eq_some_iff.2 hmem⟩

theorem get_set_eq : (d.set k v).get l = if l = k then some v else d.get l := by
  have hmem : (k, v) ∈ (d.set k v).items := by
    unfold set setItems
    split
    · next hk =>
        obtain ⟨p, hp, hpk⟩ := List.mem_map.1 hk
        exact List.mem_map.2 ⟨p, hp, by rw [if_pos hpk, hpk]⟩
    · exact List.mem_append_right _ List.mem_cons_self
  split
  · next hl =>
      rw [hl]
      exact get_eq_some_iff.2 hmem
  · next hl =>
      ext w
      constructor
      · intro h
        rcases get_set h with ⟨heq, -⟩ | ⟨-, hget⟩
        · exact absurd heq hl
        · exact hget
      · intro h
        rw [get_eq_some_iff] at h ⊢
        unfold set setItems
        split
        · exact List.mem_map.2 ⟨(l, w), h, if_neg hl⟩
        · exact List.mem_append_left _ h

theorem get_pop_eq : (d.pop k).get l = if l = k then none else d.get l := by
  ext w
  constructor
  · intro h
    obtain ⟨hne, hget⟩ := get_pop h
    rw [if_neg hne]
    exact hget
  · intro h
    split at h
    · cases h
    · next hne =>
        rw [get_eq_some_iff] at h ⊢
        exact List.mem_filter.2 ⟨h, by simpa using hne⟩

end Dict

end Wcp.Base
