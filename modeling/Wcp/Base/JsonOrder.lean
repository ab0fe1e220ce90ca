import Wcp.Base.JsonText
/-!
# Equality up to the order of members

`Json.eqUpToOrder` compares two values member by member: arrays position by
position, objects by looking each member of the one up in the other.  On values
that name every member once it is equality of the sorted values
(`sameValue_iff_eqUpToOrder`), so it is what the canonical text decides.
-/

namespace Wcp.Base

/-! ## Sorted members -/

theorem sortKeysList_eq_map (xs : List Json) : sortKeysList xs = xs.map Json.sortKeys := by
  induction xs with
  | nil => rfl
  | cons x xs ih => rw [sortKeysList, ih, List.map_cons]

theorem sortKeysMembers_eq_map (ms : List (String × Json)) :
    sortKeysMembers ms = ms.map fun m => (m.1, m.2.sortKeys) := by
  induction ms with
  | nil => rfl
  | cons m ms ih =>
      obtain ⟨k, x⟩ := m
      rw [sortKeysMembers, ih, List.map_cons]

theorem keys_sortKeysMembers (ms : List (String × Json)) :
    (sortKeysMembers ms).map (·.1) = ms.map (·.1) := by
  rw [sortKeysMembers_eq_map, List.map_map]
  rfl

theorem sortMembers_perm (ms : List (String × Json)) : (sortMembers ms).Perm ms :=
  List.perm_insertionSort _ ms

theorem sortMembers_pairwise (ms : List (String × Json)) :
    (sortMembers ms).Pairwise fun m n => m.1 ≤ n.1 :=
  have : Std.Total fun m n : String × Json => m.1 ≤ n.1 := ⟨fun m n => le_total m.1 n.1⟩
  have : IsTrans (String × Json) fun m n => m.1 ≤ n.1 := ⟨fun _ _ _ => le_trans⟩
  List.pairwise_insertionSort _ ms

theorem eq_of_mem_of_nodup {ms : List (String × Json)} (h : (ms.map (·.1)).Nodup)
    {m n : String × Json} (hm : m ∈ ms) (hn : n ∈ ms) (hkey : m.1 = n.1) : m = n :=
  List.inj_on_of_nodup_map h hm hn hkey

/-- Sorting tells the order of distinct members, and nothing else, apart. -/
theorem sortMembers_inj {ms ns : List (String × Json)} (h : (ms.map (·.1)).Nodup) :
    sortMembers ms = sortMembers ns ↔ ms.Perm ns := by
  constructor
  · intro heq
    exact (sortMembers_perm ms).symm.trans (heq ▸ sortMembers_perm ns)
  · intro hperm
    have hsorted : (sortMembers ms).Perm (sortMembers ns) :=
      (sortMembers_perm ms).trans (hperm.trans (sortMembers_perm ns).symm)
    refine hsorted.eq_of_pairwise ?_ (sortMembers_pairwise ms) (sortMembers_pairwise ns)
    intro m n hm hn hle hge
    have hm' : m ∈ ms := (sortMembers_perm ms).mem_iff.1 hm
    have hn' : n ∈ ms := hperm.mem_iff.2 ((sortMembers_perm ns).mem_iff.1 hn)
    exact eq_of_mem_of_nodup h hm' hn' (le_antisymm hle hge)

theorem mem_of_lookup {ms : List (String × Json)} {k : String} {x : Json}
    (h : ms.lookup k = some x) : (k, x) ∈ ms := by
  obtain ⟨l, r, rfl, -⟩ := List.lookup_eq_some_iff.1 h
  simp

theorem mem_iff_lookup {ms : List (String × Json)} (h : (ms.map (·.1)).Nodup) {k : String}
    {x : Json} : (k, x) ∈ ms ↔ ms.lookup k = some x := by
  refine ⟨fun hmem => ?_, mem_of_lookup⟩
  cases hlookup : ms.lookup k with
  | none =>
      have hne := List.lookup_eq_none_iff.1 hlookup _ hmem
      simp at hne
  | some y =>
      exact congrArg (some ·.2) (eq_of_mem_of_nodup h (mem_of_lookup hlookup) hmem rfl)

theorem mem_of_sameValue {ms ns : List (String × Json)} (h : (Json.obj ms).SameValue (.obj ns)) :
    sortKeysMembers ms ⊆ sortKeysMembers ns := by
  have hsorted : sortMembers (sortKeysMembers ms) = sortMembers (sortKeysMembers ns) :=
    Json.obj.inj h
  intro m hm
  have hmem : m ∈ sortMembers (sortKeysMembers ms) := (sortMembers_perm _).mem_iff.2 hm
  rw [hsorted] at hmem
  exact (sortMembers_perm _).mem_iff.1 hmem

theorem exists_mem_of_sameValue {ms ns : List (String × Json)}
    (h : (Json.obj ms).SameValue (.obj ns)) {k : String} {x : Json} (hmem : (k, x) ∈ ms) :
    ∃ y, (k, y) ∈ ns ∧ x.SameValue y := by
  have hsorted : (k, x.sortKeys) ∈ sortKeysMembers ms := by
    rw [sortKeysMembers_eq_map]
    exact List.mem_map_of_mem hmem
  have hother := mem_of_sameValue h hsorted
  rw [sortKeysMembers_eq_map] at hother
  obtain ⟨⟨l, y⟩, hy, heq⟩ := List.mem_map.1 hother
  obtain ⟨rfl, hxy⟩ := Prod.mk.inj heq
  exact ⟨y, hy, hxy.symm⟩

/-- Objects of the same value with the same list of distinct keys agree member by member. -/
theorem forall₂_of_sameValue {ms ns : List (String × Json)} (hkeys : ms.map (·.1) = ns.map (·.1))
    (hnodup : (ms.map (·.1)).Nodup) (h : (Json.obj ms).SameValue (.obj ns)) :
    List.Forall₂ (fun m n => m.1 = n.1 ∧ m.2.SameValue n.2) ms ns := by
  have hmember : ∀ m ∈ ms, ∃ y, (m.1, y) ∈ ns ∧ m.2.SameValue y :=
    fun m hm => exists_mem_of_sameValue h hm
  clear h
  induction ms generalizing ns with
  | nil =>
      cases ns with
      | nil => exact .nil
      | cons n ns => cases hkeys
  | cons m ms ih =>
      cases ns with
      | nil => cases hkeys
      | cons n ns =>
          rw [List.map_cons, List.map_cons, List.cons.injEq] at hkeys
          have hnodup' : ((n :: ns).map (·.1)).Nodup := by
            rw [List.map_cons, ← hkeys.1, ← hkeys.2]
            exact hnodup
          rw [List.map_cons, List.nodup_cons] at hnodup
          obtain ⟨y, hy, hvalue⟩ := hmember m List.mem_cons_self
          obtain rfl := eq_of_mem_of_nodup hnodup' hy List.mem_cons_self hkeys.1
          refine .cons ⟨rfl, hvalue⟩ (ih hkeys.2 hnodup.2 fun m' hm' => ?_)
          obtain ⟨z, hz, hvalue'⟩ := hmember m' (List.mem_cons_of_mem m hm')
          rcases List.mem_cons.1 hz with heq | hz
          · have hkey : m'.1 = m.1 := (Prod.mk.inj heq).1
            exact absurd (hkey ▸ List.mem_map_of_mem hm') hnodup.1
          · exact ⟨z, hz, hvalue'⟩

/-! ## Comparison -/

mutual

/-- The same value: arrays position by position, objects up to the order of members. -/
def Json.eqUpToOrder : Json → Json → Bool
  | .arr xs, .arr ys => eqUpToOrderList xs ys
  | .obj ms, .obj ns => ms.length == ns.length && eqUpToOrderMembers ms ns
  | .null, .null => true
  | .bool a, .bool b => a == b
  | .int i, .int j => i == j
  | .float f, .float g => f == g
  | .str s, .str t => s == t
  | _, _ => false

/-- `eqUpToOrder` of the elements, position by position. -/
def eqUpToOrderList : List Json → List Json → Bool
  | [], [] => true
  | x :: xs, y :: ys => x.eqUpToOrder y && eqUpToOrderList xs ys
  | _, _ => false

/-- Every member of the first object has an equal member of its name in the second. -/
def eqUpToOrderMembers : List (String × Json) → List (String × Json) → Bool
  | [], _ => true
  | (k, x) :: ms, ns =>
      (match ns.lookup k with
        | some y => x.eqUpToOrder y
        | none => false) && eqUpToOrderMembers ms ns

end

theorem parsedList_iff {xs : List Json} : parsedList xs = true ↔ ∀ x ∈ xs, x.parsed = true := by
  induction xs with
  | nil => simp [parsedList]
  | cons x xs ih => rw [parsedList, Bool.and_eq_true, ih, List.forall_mem_cons]

theorem parsedMembers_iff {ms : List (String × Json)} :
    parsedMembers ms = true ↔ ∀ m ∈ ms, m.2.parsed = true := by
  induction ms with
  | nil => simp [parsedMembers]
  | cons m ms ih =>
      obtain ⟨k, x⟩ := m
      rw [parsedMembers, Bool.and_eq_true, ih, List.forall_mem_cons]

/-- Objects with distinct keys are the same value when the one has the members of the other. -/
theorem sameValue_obj_iff {ms ns : List (String × Json)} (hms : (ms.map (·.1)).Nodup) :
    (Json.obj ms).SameValue (.obj ns) ↔
      ms.length = ns.length ∧ sortKeysMembers ms ⊆ sortKeysMembers ns := by
  have hkeys : ((sortKeysMembers ms).map (·.1)).Nodup := by rwa [keys_sortKeysMembers]
  have hlength : ∀ l : List (String × Json), (sortKeysMembers l).length = l.length := by
    intro l
    rw [sortKeysMembers_eq_map, List.length_map]
  have hsame : (Json.obj ms).SameValue (.obj ns) ↔
      (sortKeysMembers ms).Perm (sortKeysMembers ns) := by
    rw [Json.SameValue, Json.sortKeys, Json.sortKeys, Json.obj.injEq, sortMembers_inj hkeys]
  rw [hsame]
  constructor
  · intro hperm
    have h := hperm.length_eq
    rw [hlength, hlength] at h
    exact ⟨h, hperm.subset⟩
  · rintro ⟨hlen, hsub⟩
    refine (List.subperm_of_subset hkeys.of_map hsub).perm_of_length_le ?_
    rw [hlength, hlength, hlen]

mutual

/-- On parsed values, sorted keys agree exactly when the values do up to the order of members. -/
theorem sameValue_iff_eqUpToOrder : ∀ v w : Json, v.parsed = true → w.parsed = true →
    (v.SameValue w ↔ v.eqUpToOrder w = true)
  | .null, w, _, _ => by cases w <;> simp [Json.SameValue, Json.sortKeys, Json.eqUpToOrder]
  | .bool _, w, _, _ => by cases w <;> simp [Json.SameValue, Json.sortKeys, Json.eqUpToOrder]
  | .int _, w, _, _ => by cases w <;> simp [Json.SameValue, Json.sortKeys, Json.eqUpToOrder]
  | .float _, w, _, _ => by cases w <;> simp [Json.SameValue, Json.sortKeys, Json.eqUpToOrder]
  | .str _, w, _, _ => by cases w <;> simp [Json.SameValue, Json.sortKeys, Json.eqUpToOrder]
  | .arr xs, w, hv, hw => by
      cases w with
      | arr ys =>
          rw [Json.eqUpToOrder, ← sortKeysList_iff_eqUpToOrder xs ys hv hw, Json.SameValue,
            Json.sortKeys, Json.sortKeys, Json.arr.injEq]
      | _ => simp [Json.SameValue, Json.sortKeys, Json.eqUpToOrder]
  | .obj ms, w, hv, hw => by
      cases w with
      | obj ns =>
          rw [Json.parsed, Bool.and_eq_true, decide_eq_true_eq] at hv hw
          rw [sameValue_obj_iff hv.1, Json.eqUpToOrder, Bool.and_eq_true, beq_iff_eq,
            sortKeysMembers_subset_iff ms ns hv.2 hw.1 hw.2]
      | _ => simp [Json.SameValue, Json.sortKeys, Json.eqUpToOrder]

theorem sortKeysList_iff_eqUpToOrder : ∀ xs ys : List Json, parsedList xs = true →
    parsedList ys = true → (sortKeysList xs = sortKeysList ys ↔ eqUpToOrderList xs ys = true)
  | [], ys, _, _ => by cases ys <;> simp [sortKeysList, eqUpToOrderList]
  | x :: xs, ys, hxs, hys => by
      cases ys with
      | nil => simp [sortKeysList, eqUpToOrderList]
      | cons y ys =>
          rw [parsedList, Bool.and_eq_true] at hxs hys
          rw [eqUpToOrderList, Bool.and_eq_true, ← sameValue_iff_eqUpToOrder x y hxs.1 hys.1,
            ← sortKeysList_iff_eqUpToOrder xs ys hxs.2 hys.2, sortKeysList, sortKeysList,
            List.cons.injEq, Json.SameValue]

theorem sortKeysMembers_subset_iff : ∀ ms ns : List (String × Json), parsedMembers ms = true →
    (ns.map (·.1)).Nodup → parsedMembers ns = true →
    (sortKeysMembers ms ⊆ sortKeysMembers ns ↔ eqUpToOrderMembers ms ns = true)
  | [], ns, _, _, _ => by simp [sortKeysMembers, eqUpToOrderMembers]
  | (k, x) :: ms, ns, hms, hnodup, hns => by
      rw [parsedMembers, Bool.and_eq_true] at hms
      have hmember : (k, x.sortKeys) ∈ sortKeysMembers ns ↔
          ∃ y, ns.lookup k = some y ∧ x.eqUpToOrder y = true := by
        rw [sortKeysMembers_eq_map, List.mem_map]
        constructor
        · rintro ⟨⟨l, y⟩, hmem, heq⟩
          obtain ⟨rfl, hsort⟩ := Prod.mk.inj heq
          refine ⟨y, (mem_iff_lookup hnodup).1 hmem, ?_⟩
          rw [← sameValue_iff_eqUpToOrder x y hms.1 (parsedMembers_iff.1 hns _ hmem)]
          exact hsort.symm
        · rintro ⟨y, hlookup, heq⟩
          have hmem := mem_of_lookup hlookup
          rw [← sameValue_iff_eqUpToOrder x y hms.1 (parsedMembers_iff.1 hns _ hmem)] at heq
          exact ⟨(k, y), hmem, congrArg (Prod.mk k) heq.symm⟩
      rw [sortKeysMembers, List.cons_subset, hmember, eqUpToOrderMembers, Bool.and_eq_true,
        sortKeysMembers_subset_iff ms ns hms.2 hnodup hns]
      cases ns.lookup k <;> simp

end

/-- Two parsed values have one canonical text exactly when they are equal up to the order of
members. -/
theorem canonical_eq_iff {v w : Json} (hv : v.parsed = true) (hw : w.parsed = true) :
    canonical v = canonical w ↔ v.eqUpToOrder w = true :=
  canonical_inj.trans (sameValue_iff_eqUpToOrder v w hv hw)

/-! ## The sorted value -/

mutual

theorem sortKeys_parsed : ∀ v : Json, v.parsed = true → v.sortKeys.parsed = true
  | .arr xs, h => by
      rw [Json.sortKeys, Json.parsed]
      exact sortKeysList_parsed xs h
  | .obj ms, h => by
      rw [Json.parsed, Bool.and_eq_true, decide_eq_true_eq] at h
      have hperm := sortMembers_perm (sortKeysMembers ms)
      have hkeys : ((sortMembers (sortKeysMembers ms)).map (·.1)).Nodup := by
        rw [(hperm.map _).nodup_iff, keys_sortKeysMembers]
        exact h.1
      rw [Json.sortKeys, Json.parsed, Bool.and_eq_true, decide_eq_true_eq]
      refine ⟨hkeys, ?_⟩
      rw [parsedMembers_iff]
      intro m hm
      exact sortKeysMembers_parsed ms h.2 m (hperm.mem_iff.1 hm)
  | .null, _ => rfl
  | .bool _, _ => rfl
  | .int _, _ => rfl
  | .float _, _ => rfl
  | .str _, _ => rfl

theorem sortKeysList_parsed : ∀ xs : List Json, parsedList xs = true →
    parsedList (sortKeysList xs) = true
  | [], _ => rfl
  | x :: xs, h => by
      rw [parsedList, Bool.and_eq_true] at h
      rw [sortKeysList, parsedList, sortKeys_parsed x h.1, sortKeysList_parsed xs h.2]
      rfl

theorem sortKeysMembers_parsed : ∀ ms : List (String × Json), parsedMembers ms = true →
    ∀ m ∈ sortKeysMembers ms, m.2.parsed = true
  | [], _, m, hm => by cases hm
  | (k, x) :: ms, h, m, hm => by
      rw [parsedMembers, Bool.and_eq_true] at h
      rcases List.mem_cons.1 hm with rfl | hm
      · exact sortKeys_parsed x h.1
      · exact sortKeysMembers_parsed ms h.2 m hm

end

theorem sortKeysMembers_eq_self {ms : List (String × Json)}
    (h : ∀ m ∈ ms, m.2.sortKeys = m.2) : sortKeysMembers ms = ms := by
  rw [sortKeysMembers_eq_map]
  refine (List.map_congr_left fun m hm => ?_).trans (List.map_id ms)
  rw [h m hm]
  rfl

mutual

theorem sortKeys_sortKeys : ∀ v : Json, v.sortKeys.sortKeys = v.sortKeys
  | .arr xs => by rw [Json.sortKeys, Json.sortKeys, sortKeysList_sortKeysList xs]
  | .obj ms => by
      have hmembers : sortKeysMembers (sortMembers (sortKeysMembers ms)) =
          sortMembers (sortKeysMembers ms) := by
        refine sortKeysMembers_eq_self fun m hm => ?_
        exact sortKeys_of_mem ms m ((sortMembers_perm _).mem_iff.1 hm)
      rw [Json.sortKeys, Json.sortKeys, hmembers]
      exact congrArg Json.obj (sortMembers_pairwise _).insertionSort_eq
  | .null => rfl
  | .bool _ => rfl
  | .int _ => rfl
  | .float _ => rfl
  | .str _ => rfl

theorem sortKeysList_sortKeysList : ∀ xs : List Json,
    sortKeysList (sortKeysList xs) = sortKeysList xs
  | [] => rfl
  | x :: xs => by
      rw [sortKeysList, sortKeysList, sortKeys_sortKeys x, sortKeysList_sortKeysList xs]

theorem sortKeys_of_mem : ∀ ms : List (String × Json), ∀ m ∈ sortKeysMembers ms,
    m.2.sortKeys = m.2
  | [], m, hm => by cases hm
  | (k, x) :: ms, m, hm => by
      rcases List.mem_cons.1 hm with rfl | hm
      · exact sortKeys_sortKeys x
      · exact sortKeys_of_mem ms m hm

end

theorem sortKeys_sameValue (v : Json) : v.sortKeys.SameValue v := sortKeys_sortKeys v

end Wcp.Base
