import Wcp.Base.Positional
import Wcp.Coordinator.DidResolver
/-!
# Identifiers and keys

`_b58encode` and `_b58decode` move a numeral between base 256 and base 58 and keep
the count of leading zeros, so each undoes the other.  A DID that resolves is
`did:wcp:` followed by the base58 text of its key, and possibly a path
(`resolve_eq_ok_iff`).
-/

namespace Wcp.Coordinator

open Wcp.Base

/-! ## Digits and bytes -/

theorem idxOf_b58_eq_zero (c : Char) : b58.idxOf c = 0 ↔ c = '1' := by
  rw [show b58 = '1' :: b58.tail from rfl, List.idxOf_cons]
  by_cases hc : c = '1'
  · simp [hc]
  · have hne : ('1' == c) = false := by simpa using Ne.symm hc
    simp [hne, hc]

theorem getD_idxOf_b58 {c : Char} (h : c ∈ b58) : b58.getD (b58.idxOf c) '1' = c := by
  have hlt := List.idxOf_lt_length_of_mem h
  rw [List.getD_eq_getElem?_getD, List.getElem?_eq_getElem hlt, Option.getD_some,
    List.getElem_idxOf hlt]

theorem idxOf_getD_b58 : ∀ d, d < 58 → b58.getD d '1' ∈ b58 ∧ b58.idxOf (b58.getD d '1') = d := by
  decide

theorem leadingZeros_text (s : List Char) :
    leadingZeros (s.map b58.idxOf) = (s.takeWhile (· = '1')).length := by
  rw [leadingZeros, List.takeWhile_map, List.length_map]
  congr 2
  funext c
  simp [idxOf_b58_eq_zero]

theorem leadingZeros_bytes (b : List UInt8) :
    leadingZeros (b.map UInt8.toNat) = (b.takeWhile (· = 0)).length := by
  rw [leadingZeros, List.takeWhile_map, List.length_map]
  congr 2
  funext x
  simp [← UInt8.toNat_inj]

theorem fromBytes_eq (b : List UInt8) : fromBytes b = bigEndian 256 (b.map UInt8.toNat) := by
  rw [fromBytes, bigEndian, List.foldl_map]

theorem b58digits_eq (n : Nat) (out : List Char) :
    b58digits n out = (Nat.digits 58 n).reverse.map (b58.getD · '1') ++ out := by
  induction n using Nat.strongRecOn generalizing out with
  | _ n ih =>
      rw [b58digits]
      split
      · next hn => simp [hn]
      · next hn =>
          rw [ih (n / 58) (by omega), Nat.digits_def' (b := 58) (n := n) (by decide) (by omega)]
          simp

theorem b58encode_eq (b : List UInt8) :
    b58encode b = (numeral 58 (leadingZeros (b.map UInt8.toNat))
      (bigEndian 256 (b.map UInt8.toNat))).map (b58.getD · '1') := by
  rw [b58encode, b58digits_eq, fromBytes_eq, leadingZeros_bytes, numeral, List.map_append,
    List.map_replicate, List.append_nil]
  rfl

theorem b58value_of_mem {s : List Char} (h : ∀ c ∈ s, c ∈ b58) (n : Nat) :
    b58value n s = .ok ((s.map b58.idxOf).foldl (fun n d => n * 58 + d) n) := by
  induction s generalizing n with
  | nil => rfl
  | cons c s ih =>
      rw [b58value, if_pos (h c List.mem_cons_self), ih fun x hx => h x (List.mem_cons_of_mem c hx),
        List.map_cons, List.foldl_cons]

theorem b58value_of_notMem {s : List Char} {c : Char} (hc : c ∈ s) (hnot : c ∉ b58) (n : Nat) :
    ∃ d, b58value n s = .error d := by
  induction s generalizing n with
  | nil => cases hc
  | cons x s ih =>
      rw [b58value]
      by_cases hx : x ∈ b58
      · rw [if_pos hx]
        rcases List.mem_cons.1 hc with rfl | hc
        · exact absurd hx hnot
        · exact ih hc _
      · rw [if_neg hx]
        exact ⟨x, rfl⟩

theorem b58decode_of_mem {s : List Char} (h : ∀ c ∈ s, c ∈ b58) :
    b58decode s = .ok ((numeral 256 (leadingZeros (s.map b58.idxOf))
      (bigEndian 58 (s.map b58.idxOf))).map UInt8.ofNat) := by
  rw [b58decode, b58value_of_mem h, leadingZeros_text, numeral, List.map_append,
    List.map_replicate, List.map_reverse]
  rfl

/-- `_b58decode` raises on a character outside the alphabet, and only then. -/
theorem b58decode_error_iff (s : List Char) :
    (∃ c, b58decode s = .error c) ↔ ∃ c ∈ s, c ∉ b58 := by
  constructor
  · rintro ⟨c, hc⟩
    by_contra hall
    push Not at hall
    rw [b58decode_of_mem hall] at hc
    cases hc
  · rintro ⟨c, hc, hnot⟩
    obtain ⟨d, hd⟩ := b58value_of_notMem hc hnot 0
    exact ⟨d, by rw [b58decode, hd]⟩

/-! ## Round trips -/

theorem numeral_lt {b : Nat} (hb : 1 < b) (zeros n : Nat) : ∀ d ∈ numeral b zeros n, d < b := by
  intro d hd
  rcases List.mem_append.1 hd with hd | hd
  · rw [List.eq_of_mem_replicate hd]
    omega
  · exact Nat.digits_lt_base hb (List.mem_reverse.1 hd)

theorem map_idxOf_getD {ds : List Nat} (h : ∀ d ∈ ds, d < 58) :
    (ds.map (b58.getD · '1')).map b58.idxOf = ds := by
  rw [List.map_map]
  refine (List.map_congr_left fun d hd => ?_).trans (List.map_id ds)
  exact (idxOf_getD_b58 d (h d hd)).2

theorem map_toNat_ofNat {ds : List Nat} (h : ∀ d ∈ ds, d < 256) :
    (ds.map UInt8.ofNat).map UInt8.toNat = ds := by
  rw [List.map_map]
  refine (List.map_congr_left fun d hd => ?_).trans (List.map_id ds)
  exact UInt8.toNat_ofNat_of_lt' (h d hd)

theorem b58encode_mem (b : List UInt8) : ∀ c ∈ b58encode b, c ∈ b58 := by
  intro c hc
  rw [b58encode_eq] at hc
  obtain ⟨d, hd, rfl⟩ := List.mem_map.1 hc
  exact (idxOf_getD_b58 d (numeral_lt (by decide) _ _ d hd)).1

theorem b58decode_b58encode (b : List UInt8) : b58decode (b58encode b) = .ok b := by
  rw [b58decode_of_mem (b58encode_mem b), b58encode_eq,
    map_idxOf_getD (numeral_lt (by decide) _ _), leadingZeros_numeral, bigEndian_numeral,
    numeral_leadingZeros (by decide)]
  · rw [List.map_map]
    refine congrArg Except.ok ((List.map_congr_left fun x _ => ?_).trans (List.map_id b))
    exact UInt8.ofNat_toNat
  · intro d hd
    obtain ⟨x, -, rfl⟩ := List.mem_map.1 hd
    exact x.toNat_lt

theorem b58encode_b58decode {s : List Char} (h : ∀ c ∈ s, c ∈ b58) :
    ∃ b, b58decode s = .ok b ∧ b58encode b = s := by
  refine ⟨_, b58decode_of_mem h, ?_⟩
  rw [b58encode_eq, map_toNat_ofNat (numeral_lt (by decide) _ _), leadingZeros_numeral,
    bigEndian_numeral, numeral_leadingZeros (by decide)]
  · rw [List.map_map]
    exact (List.map_congr_left fun c hc => getD_idxOf_b58 (h c hc)).trans (List.map_id s)
  · intro d hd
    obtain ⟨c, hc, rfl⟩ := List.mem_map.1 hd
    exact List.idxOf_lt_length_of_mem (h c hc)

theorem b58decode_inj {s t : List Char} {b : List UInt8} (hs : b58decode s = .ok b)
    (ht : b58decode t = .ok b) : s = t := by
  have hmem : ∀ {u}, b58decode u = .ok b → b58encode b = u := by
    intro u hu
    have hall : ∀ c ∈ u, c ∈ b58 := by
      by_contra hnot
      push Not at hnot
      obtain ⟨d, hd⟩ := (b58decode_error_iff u).2 hnot
      cases hd.symm.trans hu
    obtain ⟨b', hb', henc⟩ := b58encode_b58decode hall
    cases hb'.symm.trans hu
    exact henc
  rw [← hmem hs, hmem ht]

/-! ## Resolving -/

theorem splitColon_cases (n : Nat) (cs : List Char) :
    (':' ∉ cs ∧ splitColon (n + 1) cs = [cs]) ∨
      ∃ t r, cs = t ++ ':' :: r ∧ ':' ∉ t ∧ splitColon (n + 1) cs = t :: splitColon n r := by
  have hnot : ':' ∉ cs.takeWhile (· ≠ ':') := by
    intro h
    simpa using List.all_eq_true.1 (List.all_takeWhile (l := cs)) _ h
  rw [splitColon]
  cases hdrop : cs.dropWhile (· ≠ ':') with
  | nil =>
      left
      have htake : cs.takeWhile (· ≠ ':') = cs := by
        rw [← List.append_nil (cs.takeWhile _), ← hdrop, List.takeWhile_append_dropWhile]
      exact ⟨htake ▸ hnot, rfl⟩
  | cons c r =>
      right
      have hhead : c = ':' := by
        have h := List.head?_dropWhile_not (fun x : Char => decide (x ≠ ':')) cs
        rw [hdrop] at h
        simpa using h
      subst hhead
      refine ⟨_, r, ?_, hnot, rfl⟩
      rw [← hdrop, List.takeWhile_append_dropWhile]

theorem splitColon_append (n : Nat) {t : List Char} (ht : ':' ∉ t) (r : List Char) :
    splitColon (n + 1) (t ++ ':' :: r) = t :: splitColon n r := by
  have hpos : ∀ c ∈ t, decide (c ≠ ':') = true := by
    intro c hc
    simpa using fun h : c = ':' => ht (h ▸ hc)
  rw [splitColon, List.dropWhile_append_of_pos hpos, List.dropWhile_cons_of_neg (by simp),
    List.takeWhile_append_of_pos hpos, List.takeWhile_cons_of_neg (by simp), List.append_nil]

theorem splitColon_did {cs : List Char} (hdid : "did:".toList <+: cs) {first id : List Char}
    {rest : List (List Char)} (h : splitColon 3 cs = first :: "wcp".toList :: id :: rest) :
    ∃ t, cs = "did:wcp:".toList ++ t ∧ splitColon 1 t = id :: rest := by
  obtain ⟨r, rfl⟩ := hdid
  have hsplit : splitColon 3 ("did:".toList ++ r) = "did".toList :: splitColon 2 r :=
    splitColon_append 2 (t := "did".toList) (by decide) r
  rw [hsplit] at h
  obtain ⟨-, h⟩ := List.cons.inj h
  rcases splitColon_cases 1 r with ⟨-, hone⟩ | ⟨t, r', rfl, -, htwo⟩
  · rw [hone] at h
    cases (List.cons.inj h).2
  · obtain ⟨rfl, htail⟩ := List.cons.inj (htwo.symm.trans h)
    exact ⟨r', rfl, htail⟩

theorem splitColon_wcp (t : List Char) :
    splitColon 3 ("did:wcp:".toList ++ t) = "did".toList :: "wcp".toList :: splitColon 1 t := by
  have hdid : splitColon 3 ("did:wcp:".toList ++ t) =
      "did".toList :: splitColon 2 ("wcp".toList ++ ':' :: t) :=
    splitColon_append 2 (t := "did".toList) (by decide) _
  rw [hdid, splitColon_append 1 (by decide)]

/-- What a text must be for the resolver to find a key in it. -/
def NamesKey (cs : List Char) (key : List UInt8) (path : Option (List Char)) : Prop :=
  ∃ t id rest, cs = "did:wcp:".toList ++ t ∧ splitColon 1 t = id :: rest ∧
    b58decode id = .ok key ∧ key.length = 32 ∧ path = rest.head?

variable {env : Env}

theorem resolve_eq_ok_iff {s : String} {r : ResolvedDID} :
    resolve env (.str s) = .ok r ↔
      ∃ path, NamesKey s.toList r.publicKey path ∧ r.did = s ∧ r.path = path.map String.ofList := by
  constructor
  · intro h
    unfold resolve at h
    replace h : (if "did:".toList.isPrefixOf s.toList = false then _ else _) = Except.ok r := h
    split at h
    · cases h
    next hdid =>
    rw [Bool.not_eq_false, List.isPrefixOf_iff_prefix] at hdid
    split at h
    · next first method id rest hsplit =>
        split at h
        · cases h
        next hmethod =>
        rw [not_not] at hmethod
        subst hmethod
        cases hkey : b58decode id with
        | error c =>
            rw [hkey] at h
            cases h
        | ok key =>
            rw [hkey] at h
            dsimp only at h
            split at h
            · cases h
            next hlength =>
            cases h
            obtain ⟨t, hs, ht⟩ := splitColon_did hdid hsplit
            exact ⟨rest.head?, ⟨t, id, rest, hs, ht, hkey, not_not.1 hlength, rfl⟩, rfl, rfl⟩
    · cases h
  · rintro ⟨path, ⟨t, id, rest, hs, ht, hkey, hlength, rfl⟩, rfl, hpath⟩
    have hdid : "did:".toList.isPrefixOf r.did.toList = true := by
      rw [hs]
      rfl
    obtain ⟨did, key, path⟩ := r
    unfold resolve
    change (if "did:".toList.isPrefixOf did.toList = false then _ else _) = _
    rw [if_neg (by simp only [hdid, Bool.true_eq_false, not_false_eq_true]), hs,
      splitColon_wcp, ht]
    simp only [ne_eq, not_true_eq_false, if_false, hkey, hlength]
    rw [show path = _ from hpath]
    rfl

theorem resolve_text {did : Json} {r : ResolvedDID} (h : resolve env did = .ok r) :
    did = .str r.did := by
  cases did with
  | str s =>
      obtain ⟨-, -, hdid, -⟩ := resolve_eq_ok_iff.1 h
      rw [hdid]
  | _ => cases h

end Wcp.Coordinator
