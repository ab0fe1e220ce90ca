import Wcp.Base.JsonReader
/-!
# Canonical JSON

`canonical_json_bytes` of the Python SDK, and `_canonical_json` of the coordinator's audit
chain, task service and federation layer: one expression, written out in each of them.
The interpreter converts integers up to a number of digits to decimal text and back, and
raises on longer ones.  Up to there the bytes are an exact encoding of the values without
floating-point numbers.
-/

namespace Wcp.Sdk

open Wcp.Base

/-! ## The limit on digits -/

def defaultMaxStrDigits : Nat := 4300

/-- `sys.get_int_max_str_digits()` admits a number of digits; 0 stands for no limit. -/
def Admits (maxStrDigits digits : Nat) : Prop := maxStrDigits = 0 ∨ digits ≤ maxStrDigits

instance (maxStrDigits digits : Nat) : Decidable (Admits maxStrDigits digits) :=
  inferInstanceAs (Decidable (_ ∨ _))

/-- The interpreter converts every integer in a value. -/
def Convertible (maxStrDigits : Nat) (v : Json) : Prop :=
  ∀ i ∈ v.ints, Admits maxStrDigits (Nat.toDigits 10 i.natAbs).length

instance (maxStrDigits : Nat) (v : Json) : Decidable (Convertible maxStrDigits v) :=
  inferInstanceAs (Decidable (∀ i ∈ v.ints, Admits maxStrDigits _))

/-- `int(text)` of an integer literal. -/
def intWithin (maxStrDigits : Nat) (cs : List Char) : Option Int :=
  if Admits maxStrDigits (cs.filter Char.isDigit).length then some (intLiteral cs) else none

/-- `canonical_json_bytes`, and `_canonical_json` of the coordinator; `json.dumps` raises
`ValueError` on an integer that is too long. -/
def canonicalJsonBytes (maxStrDigits : Nat) (payload : Json) : Option ByteArray :=
  if Convertible maxStrDigits payload then some (canonical payload).toUTF8 else none

/-- `json.loads` of bytes in UTF-8. -/
def loadsBytes (maxStrDigits : Nat) (float : List Char → Option PyFloat) (b : ByteArray) :
    Option Json :=
  (String.fromUTF8? b).bind (loadsWith ⟨intWithin maxStrDigits, float, none⟩)

/-! ## Exactness -/

/-- Null, booleans, integers, strings, arrays and objects with distinct keys. -/
def Exact (v : Json) : Prop := v.parsed = true ∧ v.floats = []

instance (v : Json) : Decidable (Exact v) := inferInstanceAs (Decidable (_ ∧ _))

theorem filter_isDigit_intText (i : Int) :
    (intText i).filter Char.isDigit = Nat.toDigits 10 i.natAbs := by
  have hdigits : (Nat.toDigits 10 i.natAbs).filter Char.isDigit = Nat.toDigits 10 i.natAbs :=
    List.filter_eq_self.2 fun c hc => Nat.isDigit_of_mem_toDigits (by decide) (by decide) hc
  unfold intText
  split_ifs with hi
  · rw [List.filter_cons_of_neg (by decide), hdigits]
  · exact hdigits

theorem intWithin_intText {maxStrDigits : Nat} {i : Int}
    (h : Admits maxStrDigits (Nat.toDigits 10 i.natAbs).length) :
    intWithin maxStrDigits (intText i) = some i := by
  rw [intWithin, filter_isDigit_intText, if_pos h, intLiteral_intText]

theorem loadsBytes_canonical {maxStrDigits : Nat} (float : List Char → Option PyFloat) {v : Json}
    (hv : Exact v) (hints : Convertible maxStrDigits v) :
    loadsBytes maxStrDigits float (canonical v).toUTF8 = some v.sortKeys := by
  have hutf8 : String.fromUTF8? (canonical v).toUTF8 = some (canonical v) :=
    dif_pos (canonical v).isValidUTF8
  rw [loadsBytes, hutf8, Option.bind_some]
  refine loadsWith_canonical hv.1 fun x hx => ?_
  cases x with
  | int i => exact intWithin_intText (hints i (mem_ints.2 hx))
  | float f =>
      have hf := mem_floats.2 hx
      rw [hv.2] at hf
      cases hf
  | _ => trivial

/-- The canonical bytes of two values are equal exactly when the values are equal up to the
order of members, and they are read back as the value, where no integer is too long. -/
theorem canonicalJsonBytes_exact (maxStrDigits : Nat) (float : List Char → Option PyFloat)
    {a b : Json} (ha : Exact a) (hb : Exact b) (hintsA : Convertible maxStrDigits a)
    (hintsB : Convertible maxStrDigits b) :
    ∃ bytesA bytesB, canonicalJsonBytes maxStrDigits a = some bytesA ∧
      canonicalJsonBytes maxStrDigits b = some bytesB ∧
      (bytesA = bytesB ↔ a.eqUpToOrder b = true) ∧
      ∃ c, loadsBytes maxStrDigits float bytesA = some c ∧ Exact c ∧ c.eqUpToOrder a = true := by
  refine ⟨_, _, if_pos hintsA, if_pos hintsB, ?_, ?_⟩
  · rw [← canonical_eq_iff ha.1 hb.1]
    exact String.toByteArray_inj
  · have hparsed := sortKeys_parsed a ha.1
    have hfloats : a.sortKeys.floats = [] := by
      rw [List.eq_nil_iff_forall_not_mem]
      intro f hf
      rw [mem_floats, mem_numbers_sortKeys, ← mem_floats, ha.2] at hf
      cases hf
    refine ⟨a.sortKeys, loadsBytes_canonical float ha hintsA, ⟨hparsed, hfloats⟩, ?_⟩
    rw [← sameValue_iff_eqUpToOrder _ _ hparsed ha.1]
    exact sortKeys_sameValue a

/-- A nested value, with escapes and a character beyond the basic plane. -/
def escapedValue : Json := .obj [
  ("k\"", .arr [.int (-3), .str "é😀\n"]),
  ("a", .obj [("y", .null), ("x", .bool true)])]

/-- The value with its members in another order. -/
def reorderedValue : Json := .obj [
  ("a", .obj [("x", .bool true), ("y", .null)]),
  ("k\"", .arr [.int (-3), .str "é😀\n"])]

theorem canonicalJsonBytes_exact_reordered :
    ∃ bytes, canonicalJsonBytes defaultMaxStrDigits escapedValue = some bytes ∧
      canonicalJsonBytes defaultMaxStrDigits reorderedValue = some bytes := by
  obtain ⟨bytes, bytes', hbytes, hbytes', hequal, -⟩ := @canonicalJsonBytes_exact
    defaultMaxStrDigits (fun _ => none) escapedValue reorderedValue (by decide) (by decide)
    (by decide) (by decide)
  exact ⟨bytes, hbytes, hequal.2 (by decide) ▸ hbytes'⟩

theorem canonicalJsonBytes_long_integer : Exact (.int (10 ^ 4300)) ∧
    ¬ ∃ bytes c, canonicalJsonBytes defaultMaxStrDigits (.int (10 ^ 4300)) = some bytes ∧
      loadsBytes defaultMaxStrDigits (fun _ => none) bytes = some c ∧
      c.eqUpToOrder (.int (10 ^ 4300)) = true := by
  refine ⟨⟨rfl, rfl⟩, ?_⟩
  rintro ⟨bytes, c, hbytes, -⟩
  have hlong : ¬ Convertible defaultMaxStrDigits (.int (10 ^ 4300)) := by
    intro h
    rcases h (10 ^ 4300) List.mem_cons_self with h | h
    · cases h
    · rw [defaultMaxStrDigits, Nat.length_toDigits_le_iff (by decide) (by decide),
        Int.natAbs_pow, show (10 : Int).natAbs = 10 from rfl] at h
      exact lt_irrefl _ h
  rw [canonicalJsonBytes, if_neg hlong] at hbytes
  cases hbytes

end Wcp.Sdk
