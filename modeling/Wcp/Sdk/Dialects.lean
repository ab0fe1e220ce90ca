import Wcp.Base.JsonDialect
import Wcp.Sdk.Canonical
/-!
# The four SDKs' canonical JSON

The TypeScript, Go and Rust SDKs write the same compact text with sorted keys as
the Python one, each with the string escapes of its own JSON library and the
string order of its own language.  They agree with Python exactly on values whose
strings are plain ASCII (`canonicalisers_agree_iff`).
-/

namespace Wcp.Sdk

open Wcp.Base

/-! ## Escapes and orders -/

/-- The escapes of `JSON.stringify` and `serde_json`: quotes, backslashes and control characters.
Everything else stands for itself. -/
def minimalEscape (c : Char) : List Char :=
  if c = '"' then ['\\', '"']
  else if c = '\\' then ['\\', '\\']
  else if c = '\n' then ['\\', 'n']
  else if c = '\r' then ['\\', 'r']
  else if c = '\t' then ['\\', 't']
  else if c.toNat = 12 then ['\\', 'f']
  else if c.toNat = 8 then ['\\', 'b']
  else if c.toNat < 32 then '\\' :: 'u' :: hex4 c.toNat
  else [c]

/-- The characters that `encoding/json` escapes besides: those of HTML, and the two line
separators of JavaScript. -/
def goEscaped (c : Char) : Bool :=
  c == '<' || c == '>' || c == '&' || c.toNat == 8232 || c.toNat == 8233

def marshalEscape (c : Char) : List Char :=
  if goEscaped c = true then '\\' :: 'u' :: hex4 c.toNat else minimalEscape c

/-- UTF-16 code units, by which JavaScript compares strings. -/
def utf16Units (c : Char) : List Nat :=
  if c.toNat < 65536 then [c.toNat]
  else [55296 + (c.toNat - 65536) / 1024, 56320 + (c.toNat - 65536) % 1024]

/-- UTF-8 bytes, by which Go and Rust compare strings. -/
def utf8Units (c : Char) : List Nat := (String.utf8EncodeChar c).map UInt8.toNat

def typescriptDialect : Dialect := ⟨minimalEscape, utf16Units⟩

def goDialect : Dialect := ⟨marshalEscape, utf8Units⟩

def rustDialect : Dialect := ⟨minimalEscape, utf8Units⟩

/-- `canonicalJsonStringify` of the TypeScript SDK. -/
def canonicalJsonStringify (value : Json) : String := String.ofList (typescriptDialect.text value)

/-- `CanonicalJSON` of the Go SDK. -/
def canonicalJSON (v : Json) : ByteArray := (String.ofList (goDialect.text v)).toUTF8

/-- `canonical_json` of the Rust SDK. -/
def canonicalJson (value : Json) : String := String.ofList (rustDialect.text value)

/-! ## Plain characters -/

/-- Up to the tilde, without the characters of HTML. -/
def Plain (c : Char) : Prop := c.toNat ≤ 126 ∧ c ≠ '<' ∧ c ≠ '>' ∧ c ≠ '&'

theorem minimalEscape_of_le {c : Char} (h : c.toNat ≤ 126) : minimalEscape c = escapeChar c := by
  unfold minimalEscape escapeChar
  -- the short escapes are the same
  iterate 7 refine ite_congr rfl (fun _ => rfl) fun _ => ?_
  by_cases hcontrol : c.toNat < 32
  · rw [if_pos hcontrol, if_neg (by omega), if_pos (by omega)]
  · rw [if_neg hcontrol, if_pos (by omega)]

theorem marshalEscape_of_plain {c : Char} (h : Plain c) : marshalEscape c = escapeChar c := by
  have hnot : goEscaped c = false := by
    obtain ⟨hle, hlt, hgt, hamp⟩ := h
    have h1 : c.toNat ≠ 8232 := by omega
    have h2 : c.toNat ≠ 8233 := by omega
    simp [goEscaped, hlt, hgt, hamp, h1, h2]
  rw [marshalEscape, hnot, if_neg Bool.false_ne_true, minimalEscape_of_le h.1]

theorem utf16Units_of_le {c : Char} (h : c.toNat ≤ 126) : utf16Units c = [c.toNat] :=
  if_pos (by omega)

theorem utf8Units_of_le {c : Char} (h : c.toNat ≤ 126) : utf8Units c = [c.toNat] := by
  have hnat : c.val.toNat = c.toNat := rfl
  have hsize : c.utf8Size = 1 := by
    rw [Char.utf8Size_eq_one_iff, UInt32.le_iff_toNat_le]
    exact hnat ▸ Nat.le_succ_of_le h
  rw [utf8Units, String.utf8EncodeChar_eq_singleton hsize, List.map_singleton, UInt32.toNat_toUInt8,
    hnat, Nat.mod_eq_of_lt (by omega)]

theorem minimalEscape_of_gt {c : Char} (h : 126 < c.toNat) : minimalEscape c = [c] := by
  have hne : ∀ d : Char, d.toNat ≤ 126 → c ≠ d := by
    rintro d hd rfl
    omega
  unfold minimalEscape
  rw [if_neg (hne _ (by decide)), if_neg (hne _ (by decide)), if_neg (hne _ (by decide)),
    if_neg (hne _ (by decide)), if_neg (hne _ (by decide)), if_neg (by omega), if_neg (by omega),
    if_neg (by omega)]

def escapeAlphabet : List Char := "\\\"nrtfbu0123456789abcdef".toList

theorem hex4_subset (n : Nat) : ∀ x ∈ '\\' :: 'u' :: hex4 n, x ∈ escapeAlphabet := by
  have hdigit : ∀ d < 16, Nat.digitChar d ∈ escapeAlphabet := by decide
  have hmod : ∀ m, Nat.digitChar (m % 16) ∈ escapeAlphabet :=
    fun m => hdigit _ (Nat.mod_lt m (by decide))
  intro x hx
  simp only [hex4, List.mem_cons, List.not_mem_nil, or_false] at hx
  rcases hx with rfl | rfl | rfl | rfl | rfl | rfl
  · decide
  · decide
  all_goals exact hmod _

/-- A character is written as it is, where a condition holds, or as an escape. -/
def WrittenAs (plainly : Prop) (c : Char) (t : List Char) : Prop :=
  t = [c] ∧ plainly ∨ ∀ x ∈ t, x ∈ escapeAlphabet

theorem WrittenAs.ite {plainly p : Prop} [Decidable p] {c : Char} {s t : List Char}
    (hs : p → WrittenAs plainly c s) (ht : ¬ p → WrittenAs plainly c t) :
    WrittenAs plainly c (if p then s else t) := by
  by_cases hp : p
  · rw [if_pos hp]
    exact hs hp
  · rw [if_neg hp]
    exact ht hp

theorem WrittenAs.short {plainly : Prop} {c : Char} {t : List Char}
    (h : t.all escapeAlphabet.contains = true) : WrittenAs plainly c t :=
  .inr fun x hx => List.contains_iff_mem.1 (List.all_eq_true.1 h x hx)

theorem WrittenAs.hex {plainly : Prop} {c : Char} (n : Nat) :
    WrittenAs plainly c ('\\' :: 'u' :: hex4 n) :=
  .inr (hex4_subset n)

theorem escapeChar_written (c : Char) : WrittenAs (c.toNat ≤ 126) c (escapeChar c) := by
  unfold escapeChar
  iterate 7 refine WrittenAs.ite (fun _ => WrittenAs.short (by decide)) fun _ => ?_
  refine WrittenAs.ite (fun hprintable => .inl ⟨rfl, hprintable.2⟩) fun _ => ?_
  refine WrittenAs.ite (fun _ => WrittenAs.hex _) fun _ => .inr fun x hx => ?_
  rcases List.mem_append.1 hx with hx | hx <;> exact hex4_subset _ x hx

theorem minimalEscape_written (c : Char) : WrittenAs True c (minimalEscape c) := by
  unfold minimalEscape
  iterate 7 refine WrittenAs.ite (fun _ => WrittenAs.short (by decide)) fun _ => ?_
  exact WrittenAs.ite (fun _ => WrittenAs.hex _) fun _ => .inl ⟨rfl, trivial⟩

theorem le_of_mem_pythonText (v : Json) : ∀ x ∈ pythonDialect.text v, x.toNat ≤ 126 := by
  have hsyntax : (syntaxChars.all fun c => decide (c.toNat ≤ 126)) = true := by decide
  have halphabet : (escapeAlphabet.all fun c => decide (c.toNat ≤ 126)) = true := by decide
  apply forall_mem_text
  · intro c hc
    exact of_decide_eq_true (List.all_eq_true.1 hsyntax c hc)
  · intro c x hx
    rcases escapeChar_written c with ⟨heq, hle⟩ | hescape
    · obtain rfl : x = c := List.mem_singleton.1 (heq ▸ hx)
      exact hle
    · exact of_decide_eq_true (List.all_eq_true.1 halphabet x (hescape x hx))

theorem not_mem_goText (v : Json) : ∀ x ∈ goDialect.text v, x ≠ '<' ∧ x ≠ '>' ∧ x ≠ '&' := by
  have hsyntax : (syntaxChars.all fun c => decide (c ≠ '<' ∧ c ≠ '>' ∧ c ≠ '&')) = true := by decide
  have halphabet : (escapeAlphabet.all fun c => decide (c ≠ '<' ∧ c ≠ '>' ∧ c ≠ '&')) = true := by
    decide
  have hescaped : ∀ x ∈ escapeAlphabet, x ≠ '<' ∧ x ≠ '>' ∧ x ≠ '&' :=
    fun x hx => of_decide_eq_true (List.all_eq_true.1 halphabet x hx)
  apply forall_mem_text
  · intro c hc
    exact of_decide_eq_true (List.all_eq_true.1 hsyntax c hc)
  · intro c x hx
    have hx : x ∈ marshalEscape c := hx
    unfold marshalEscape at hx
    split_ifs at hx with hgo
    · exact hescaped x (hex4_subset _ x hx)
    · rcases minimalEscape_written c with ⟨heq, -⟩ | hescape
      · obtain rfl : x = c := List.mem_singleton.1 (heq ▸ hx)
        simp only [goEscaped, Bool.or_eq_true, beq_iff_eq, not_or] at hgo
        exact ⟨hgo.1.1.1.1, hgo.1.1.1.2, hgo.1.1.2⟩
      · exact hescaped x (hescape x hx)

/-! ## Agreement -/

theorem ofList_toUTF8_inj {cs ds : List Char} :
    (String.ofList cs).toUTF8 = (String.ofList ds).toUTF8 ↔ cs = ds :=
  String.toByteArray_inj.trans String.ofList_inj

mutual

/-- Every integer is one that a double represents exactly, with its neighbours. -/
def safeInts : Json → Bool
  | .int i => decide (i.natAbs ≤ 2 ^ 53 - 1)
  | .arr xs => safeIntsList xs
  | .obj ms => safeIntsMembers ms
  | _ => true

/-- `safeInts` of every element. -/
def safeIntsList : List Json → Bool
  | [] => true
  | x :: xs => safeInts x && safeIntsList xs

def safeIntsMembers : List (String × Json) → Bool
  | [] => true
  | (_, x) :: ms => safeInts x && safeIntsMembers ms

end

/-- The values that all four languages represent: no floating-point numbers, integers in the safe
range, distinct keys. -/
def PortableJson : Type := { v : Json // Exact v ∧ safeInts v = true }

mutual

theorem le_of_mem_numbers {i : Int} : ∀ v : Json, safeInts v = true → .int i ∈ v.numbers →
    i.natAbs ≤ 2 ^ 53 - 1
  | .int j, h, hi => by
      cases List.mem_singleton.1 hi
      exact of_decide_eq_true h
  | .arr xs, h, hi => le_of_mem_numbersList xs h hi
  | .obj ms, h, hi => le_of_mem_numbersMembers ms h hi
  | .null, _, hi => absurd hi List.not_mem_nil
  | .bool _, _, hi => absurd hi List.not_mem_nil
  | .float _, _, hi => by cases List.mem_singleton.1 hi
  | .str _, _, hi => absurd hi List.not_mem_nil

theorem le_of_mem_numbersList {i : Int} : ∀ xs : List Json, safeIntsList xs = true →
    .int i ∈ numbersList xs → i.natAbs ≤ 2 ^ 53 - 1
  | [], _, hi => absurd hi List.not_mem_nil
  | x :: xs, h, hi => by
      obtain ⟨hx, hxs⟩ := Bool.and_eq_true_iff.1 h
      rcases List.mem_append.1 hi with hi | hi
      · exact le_of_mem_numbers x hx hi
      · exact le_of_mem_numbersList xs hxs hi

theorem le_of_mem_numbersMembers {i : Int} : ∀ ms : List (String × Json),
    safeIntsMembers ms = true → .int i ∈ numbersMembers ms → i.natAbs ≤ 2 ^ 53 - 1
  | [], _, hi => absurd hi List.not_mem_nil
  | (_, x) :: ms, h, hi => by
      obtain ⟨hx, hms⟩ := Bool.and_eq_true_iff.1 h
      rcases List.mem_append.1 hi with hi | hi
      · exact le_of_mem_numbers x hx hi
      · exact le_of_mem_numbersMembers ms hms hi

end

theorem convertible_of_safeInts {v : Json} (h : safeInts v = true) :
    Convertible defaultMaxStrDigits v := by
  intro i hi
  have hle := le_of_mem_numbers v h (mem_ints.1 hi)
  have hdigits : (Nat.toDigits 10 i.natAbs).length ≤ 16 :=
    (Nat.length_toDigits_le_iff (by decide) (by decide)).2 (by omega)
  exact .inr (hdigits.trans (by decide))

/-- The four canonicalisers write a portable value alike. -/
def CanonicalisersAgree (v : PortableJson) : Prop :=
  canonicalJsonBytes defaultMaxStrDigits v.1 = some (canonicalJsonStringify v.1).toUTF8 ∧
    canonicalJsonBytes defaultMaxStrDigits v.1 = some (canonicalJSON v.1) ∧
    canonicalJsonBytes defaultMaxStrDigits v.1 = some (canonicalJson v.1).toUTF8

/-- Python's bytes of a portable value are some others exactly where its text is. -/
theorem canonicalJsonBytes_eq_some_iff (v : PortableJson) {cs : List Char} :
    canonicalJsonBytes defaultMaxStrDigits v.1 = some (String.ofList cs).toUTF8 ↔
      cs = pythonDialect.text v.1 := by
  rw [canonicalJsonBytes, if_pos (convertible_of_safeInts v.2.2), Option.some.injEq,
    canonical_eq_text, eq_comm, ofList_toUTF8_inj]

/-- The canonicalisers of the four SDKs agree exactly on the values all of whose strings and keys
are plain. -/
theorem canonicalisers_agree_iff (v : PortableJson) :
    CanonicalisersAgree v ↔ ∀ c ∈ v.1.chars, Plain c := by
  rw [CanonicalisersAgree, canonicalJsonStringify, canonicalJSON, canonicalJson,
    canonicalJsonBytes_eq_some_iff, canonicalJsonBytes_eq_some_iff, canonicalJsonBytes_eq_some_iff]
  constructor
  · rintro ⟨htypescript, hgo, -⟩ c hc
    have hle : c.toNat ≤ 126 := by
      by_contra hgt
      have hraw : c ∈ minimalEscape c := by
        rw [minimalEscape_of_gt (not_le.1 hgt)]
        exact List.mem_singleton_self c
      have hmem : c ∈ typescriptDialect.text v.1 := mem_text v.1 hc hraw
      rw [htypescript] at hmem
      exact hgt (le_of_mem_pythonText v.1 c hmem)
    have hhtml : ∀ x : Char, pythonDialect.escape x = [x] → x ∈ v.1.chars →
        x ∈ goDialect.text v.1 := by
      intro x hescape hx
      rw [hgo]
      exact mem_text v.1 hx (hescape ▸ List.mem_singleton_self x)
    refine ⟨hle, ?_, ?_, ?_⟩
    · rintro rfl
      exact (not_mem_goText v.1 _ (hhtml _ rfl hc)).1 rfl
    · rintro rfl
      exact (not_mem_goText v.1 _ (hhtml _ rfl hc)).2.1 rfl
    · rintro rfl
      exact (not_mem_goText v.1 _ (hhtml _ rfl hc)).2.2 rfl
  · intro hplain
    refine ⟨text_congr v.1 fun c hc => ?_, text_congr v.1 fun c hc => ?_,
      text_congr v.1 fun c hc => ?_⟩
    · exact ⟨minimalEscape_of_le (hplain c hc).1, utf16Units_of_le (hplain c hc).1⟩
    · exact ⟨marshalEscape_of_plain (hplain c hc), utf8Units_of_le (hplain c hc).1⟩
    · exact ⟨minimalEscape_of_le (hplain c hc).1, utf8Units_of_le (hplain c hc).1⟩

def accented : PortableJson := ⟨.obj [("reason", .str "café")], by decide⟩

/-- Python escapes the accent and TypeScript does not. -/
theorem accented_disagree : ¬ CanonicalisersAgree accented := by
  rintro ⟨htypescript, -, -⟩
  exact absurd ((canonicalJsonBytes_eq_some_iff accented).1 htypescript) (by decide +kernel)

end Wcp.Sdk
