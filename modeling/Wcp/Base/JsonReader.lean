import Wcp.Base.JsonOrder
/-!
# Reading JSON text

`loadsWith` is the reader of the interpreter's library: white space between tokens,
escapes with surrogate pairs, the last of several members with one key.  What the
interpreter makes of a literal is a parameter: which integers it converts, the value
of a float, and whether a surrogate outside a pair, which no text of the model holds,
is refused or read as another character.  `dump` writes a value with a given gap after
commas and colons; what it writes is read back (`loads_dump`), and the compact text is
the case without a gap.
-/

namespace Wcp.Base

/-! ## Strings -/

def isSpace (c : Char) : Bool := c == ' ' || c == '\t' || c == '\n' || c == '\r'

def skipSpace (cs : List Char) : List Char := cs.dropWhile isSpace

/-- The value of a hexadecimal digit in either case. -/
def hexDigit (c : Char) : Option Nat :=
  if '0' ≤ c ∧ c ≤ '9' then some (c.toNat - 48)
  else if 'a' ≤ c ∧ c ≤ 'f' then some (c.toNat - 87)
  else if 'A' ≤ c ∧ c ≤ 'F' then some (c.toNat - 55)
  else none

/-- The code unit of a `\u` escape. -/
def readHex4 : List Char → Option (Nat × List Char)
  | a :: b :: c :: d :: rest => do
      let n := 4096 * (← hexDigit a) + 256 * (← hexDigit b) + 16 * (← hexDigit c) + (← hexDigit d)
      return (n, rest)
  | _ => none

/-- The characters that a backslash may stand before, other than `u`. -/
def escapes : List (Char × Char) := [
  ('"', '"'), ('\\', '\\'), ('/', '/'), ('b', Char.ofNat 8), ('f', Char.ofNat 12), ('n', '\n'),
  ('r', '\r'), ('t', '\t')]

/-- How literals are read: `int` of an integer literal, `float` of another number, and the
character that stands for a surrogate outside a pair, if such a text is read at all. -/
structure Literals where
  int : List Char → Option Int
  float : List Char → Option PyFloat
  stray : Option Char

section Strings

variable (stray : Option Char)

/-- One character of a string literal.  A surrogate counts as itself only in a pair. -/
def readChar : List Char → Option (Char × List Char)
  | '\\' :: 'u' :: rest => do
      let (n, rest) ← readHex4 rest
      if 55296 ≤ n ∧ n < 56320 then
        match rest with
        | '\\' :: 'u' :: low => do
            let (m, after) ← readHex4 low
            if 56320 ≤ m ∧ m < 57344 then
              some (Char.ofNat (65536 + (n - 55296) * 1024 + (m - 56320)), after)
            else stray.map fun c => (c, rest)
        | _ => stray.map fun c => (c, rest)
      else if 56320 ≤ n ∧ n < 57344 then stray.map fun c => (c, rest)
      else some (Char.ofNat n, rest)
  | '\\' :: c :: rest => (escapes.lookup c).map fun d => (d, rest)
  | c :: rest => if c.toNat < 32 then none else some (c, rest)
  | [] => none

/-- The characters of a string literal, up to the closing quote. -/
def readChars : Nat → List Char → Option (List Char × List Char)
  | 0, _ => none
  | n + 1, cs =>
      match cs with
      | '"' :: rest => some ([], rest)
      | cs => do
          let (c, rest) ← readChar stray cs
          let (s, rest) ← readChars n rest
          return (c :: s, rest)

end Strings

theorem hexDigit_digitChar : ∀ d, d < 16 → hexDigit (Nat.digitChar d) = some d := by decide

theorem readHex4_hex4 {n : Nat} (h : n < 65536) (r : List Char) :
    readHex4 (hex4 n ++ r) = some (n, r) := by
  simp only [hex4, List.cons_append, List.nil_append, readHex4,
    hexDigit_digitChar _ (Nat.mod_lt _ (by decide : 0 < 16)), Option.bind_eq_bind, Option.bind_some,
    Option.pure_def, Option.some.injEq, Prod.mk.injEq, and_true]
  omega

private theorem char_toNat_valid (c : Char) :
    c.toNat < 55296 ∨ 57344 ≤ c.toNat ∧ c.toNat < 1114112 := by
  have h := c.valid
  simp only [UInt32.isValidChar, Nat.isValidChar] at h
  have : c.toNat = c.val.toNat := rfl
  omega

private theorem escapeChar_length_pos (c : Char) : 0 < (escapeChar c).length := by
  unfold escapeChar
  split_ifs <;> simp

variable {stray : Option Char}

private theorem readChar_unit {n : Nat} (h : n < 55296 ∨ 57344 ≤ n ∧ n < 65536) (r : List Char) :
    readChar stray ('\\' :: 'u' :: (hex4 n ++ r)) = some (Char.ofNat n, r) := by
  have hlow : ¬ (55296 ≤ n ∧ n < 56320) := by omega
  have hhigh : ¬ (56320 ≤ n ∧ n < 57344) := by omega
  simp only [readChar, readHex4_hex4 (show n < 65536 by omega), Option.bind_eq_bind,
    Option.bind_some, if_neg hlow, if_neg hhigh]

private theorem readChar_pair {n m : Nat} (hn : 55296 ≤ n ∧ n < 56320) (hm : 56320 ≤ m ∧ m < 57344)
    (r : List Char) :
    readChar stray ('\\' :: 'u' :: (hex4 n ++ '\\' :: 'u' :: (hex4 m ++ r))) =
      some (Char.ofNat (65536 + (n - 55296) * 1024 + (m - 56320)), r) := by
  simp only [readChar, readHex4_hex4 (show n < 65536 by omega),
    readHex4_hex4 (show m < 65536 by omega), Option.bind_eq_bind, Option.bind_some, if_pos hn,
    if_pos hm]

theorem readChar_escapeChar (c : Char) (r : List Char) :
    readChar stray (escapeChar c ++ r) = some (c, r) := by
  have hvalid := char_toNat_valid c
  unfold escapeChar
  split_ifs with h1 h2 h3 h4 h5 h6 h7 h8 h9
  · rw [h1]
    rfl
  · rw [h2]
    rfl
  · rw [h3]
    rfl
  · rw [h4]
    rfl
  · rw [h5]
    rfl
  · rw [← Char.ofNat_toNat c, h6]
    rfl
  · rw [← Char.ofNat_toNat c, h7]
    rfl
  · have hcontrol : ¬ c.toNat < 32 := by omega
    simp [readChar, h2, hcontrol]
  · have hunit := @readChar_unit stray c.toNat (by omega) r
    rwa [Char.ofNat_toNat] at hunit
  · have hpair := @readChar_pair stray (55296 + (c.toNat - 65536) / 1024)
      (56320 + (c.toNat - 65536) % 1024) (by omega) (by omega) r
    have hvalue : 65536 + (55296 + (c.toNat - 65536) / 1024 - 55296) * 1024 +
        (56320 + (c.toNat - 65536) % 1024 - 56320) = c.toNat := by omega
    rw [hvalue, Char.ofNat_toNat] at hpair
    simpa using hpair

/-- A string literal is read back, with as many steps as it has characters. -/
theorem readChars_escapeChars (cs r : List Char) {n : Nat} (hn : (escapeChars cs).length ≤ n) :
    readChars stray n (escapeChars cs ++ r) = some (cs, r) := by
  induction cs generalizing n with
  | nil =>
      obtain ⟨n, rfl⟩ : ∃ k, n = k + 1 := ⟨n - 1, by simp [escapeChars] at hn; omega⟩
      rfl
  | cons c cs ih =>
      have hpos := escapeChar_length_pos c
      rw [escapeChars, List.length_append] at hn
      obtain ⟨n, rfl⟩ : ∃ k, n = k + 1 := ⟨n - 1, by omega⟩
      rw [escapeChars, List.append_assoc, readChars]
      · simp [readChar_escapeChar, ih (show (escapeChars cs).length ≤ n by omega)]
      · exact fun rest hquote => escapeChar_head_ne_quote c _ _ hquote

/-! ## Numbers and keywords -/

/-- The characters of a number or of one of the constants `NaN` and `Infinity`. -/
def isNumberChar (c : Char) : Bool := floatChars.contains c || c == 'E'

/-- An integer literal: no fraction, no exponent, no leading zero. -/
def isIntLiteral (cs : List Char) : Bool :=
  let digits := if cs.head? = some '-' then cs.tail else cs
  !digits.isEmpty && digits.all Char.isDigit && (digits.head? != some '0' || digits.length == 1)

/-- `int(text)` of an integer literal. -/
def intLiteral (cs : List Char) : Int :=
  if cs.head? = some '-' then -(Nat.ofDigitChars 10 cs.tail 0 : Int)
  else (Nat.ofDigitChars 10 cs 0 : Int)

section Reader

variable (lits : Literals)

/-- A number, or one of the constants that stand for the numbers JSON has no literal for. -/
def readNumber (cs : List Char) : Option (Json × List Char) :=
  let token := cs.takeWhile isNumberChar
  let rest := cs.dropWhile isNumberChar
  if isIntLiteral token then (lits.int token).map fun i => (.int i, rest)
  else (lits.float token).map fun f => (.float f, rest)

/-- A value that starts with none of a quote, a bracket and a brace. -/
def readScalar (cs : List Char) : Option (Json × List Char) :=
  match cs with
  | 'n' :: 'u' :: 'l' :: 'l' :: rest => some (.null, rest)
  | 't' :: 'r' :: 'u' :: 'e' :: rest => some (.bool true, rest)
  | 'f' :: 'a' :: 'l' :: 's' :: 'e' :: rest => some (.bool false, rest)
  | cs => readNumber lits cs

/-- The members of an object: a key that comes again replaces the value it had. -/
def dictOf (pairs : List (String × Json)) : List (String × Json) :=
  pairs.foldl (fun ms m => Json.setItem ms m.1 m.2) []

mutual

/-- A value at the start of a text. -/
def readValue : Nat → List Char → Option (Json × List Char)
  | 0, _ => none
  | n + 1, cs =>
      match cs with
      | '"' :: cs => do
          let (s, rest) ← readChars lits.stray n cs
          return (.str (String.ofList s), rest)
      | '[' :: cs =>
          match skipSpace cs with
          | ']' :: rest => some (.arr [], rest)
          | cs => do
              let (xs, rest) ← readElements n cs
              return (.arr xs, rest)
      | '{' :: cs =>
          match skipSpace cs with
          | '}' :: rest => some (.obj [], rest)
          | cs => do
              let (ms, rest) ← readMembers n cs
              return (.obj (dictOf ms), rest)
      | cs => readScalar lits cs

/-- The elements of an array, up to the closing bracket. -/
def readElements : Nat → List Char → Option (List Json × List Char)
  | 0, _ => none
  | n + 1, cs => do
      let (x, rest) ← readValue n cs
      match skipSpace rest with
      | ',' :: rest => do
          let (xs, rest) ← readElements n (skipSpace rest)
          return (x :: xs, rest)
      | ']' :: rest => some ([x], rest)
      | _ => none

/-- The members of an object, up to the closing brace. -/
def readMembers : Nat → List Char → Option (List (String × Json) × List Char)
  | 0, _ => none
  | n + 1, cs =>
      match cs with
      | '"' :: cs => do
          let (k, rest) ← readChars lits.stray n cs
          match skipSpace rest with
          | ':' :: rest => do
              let (x, rest) ← readValue n (skipSpace rest)
              match skipSpace rest with
              | ',' :: rest => do
                  let (ms, rest) ← readMembers n (skipSpace rest)
                  return ((String.ofList k, x) :: ms, rest)
              | '}' :: rest => some ([(String.ofList k, x)], rest)
              | _ => none
          | _ => none
      | _ => none

end

/-- `json.loads(text)`, with the literals read in some way. -/
def loadsWith (text : String) : Option Json :=
  match readValue lits (text.toList.length + 1) (skipSpace text.toList) with
  | some (v, rest) => if skipSpace rest = [] then some v else none
  | none => none

end Reader

/-- `json.loads(text)` of a text without surrogates outside a pair, with integers of any length. -/
def loads (float : List Char → Option PyFloat) (text : String) : Option Json :=
  loadsWith ⟨fun cs => some (intLiteral cs), float, none⟩ text

/-- `json.loads(text)`, where U+FFFD stands for each surrogate outside a pair. -/
def loadsReplacing (float : List Char → Option PyFloat) (text : String) : Option Json :=
  loadsWith ⟨fun cs => some (intLiteral cs), float, some (Char.ofNat 65533)⟩ text

/-! ## Writing -/

section Dump

variable (gap : List Char)

mutual

/-- `json.dumps(v)` with separators of a comma or a colon and a gap. -/
def dump : Json → List Char
  | .str s => quote s
  | .arr [] => ['[', ']']
  | .arr (x :: xs) => '[' :: (dump x ++ dumpTail xs)
  | .obj [] => ['{', '}']
  | .obj ((k, x) :: ms) => '{' :: (quote k ++ ':' :: (gap ++ (dump x ++ dumpMembers ms)))
  | v => scalarText v

/-- The elements after the first, closing bracket included. -/
def dumpTail : List Json → List Char
  | [] => [']']
  | x :: xs => ',' :: (gap ++ (dump x ++ dumpTail xs))

/-- The members after the first, closing brace included. -/
def dumpMembers : List (String × Json) → List Char
  | [] => ['}']
  | (k, x) :: ms => ',' :: (gap ++ (quote k ++ ':' :: (gap ++ (dump x ++ dumpMembers ms))))

end

end Dump

mutual

theorem dump_nil : ∀ v : Json, dump [] v = render v
  | .null => rfl
  | .bool _ => rfl
  | .int _ => rfl
  | .float _ => rfl
  | .str _ => rfl
  | .arr [] => rfl
  | .arr (x :: xs) => by rw [dump, render, dump_nil x, dumpTail_nil xs]
  | .obj [] => rfl
  | .obj ((k, x) :: ms) => by
      rw [dump, render, dump_nil x, dumpMembers_nil ms, List.nil_append]

theorem dumpTail_nil : ∀ xs : List Json, dumpTail [] xs = renderTail xs
  | [] => rfl
  | x :: xs => by rw [dumpTail, renderTail, dump_nil x, dumpTail_nil xs, List.nil_append]

theorem dumpMembers_nil : ∀ ms : List (String × Json), dumpMembers [] ms = renderMembers ms
  | [] => rfl
  | (k, x) :: ms => by
      rw [dumpMembers, renderMembers, dump_nil x, dumpMembers_nil ms, List.nil_append,
        List.nil_append]

end

mutual

def Json.numbers : Json → List Json
  | .int i => [.int i]
  | .float f => [.float f]
  | .arr xs => numbersList xs
  | .obj ms => numbersMembers ms
  | _ => []

/-- `numbers` of every element. -/
def numbersList : List Json → List Json
  | [] => []
  | x :: xs => x.numbers ++ numbersList xs

def numbersMembers : List (String × Json) → List Json
  | [] => []
  | (_, x) :: ms => x.numbers ++ numbersMembers ms

end

def Json.floats (v : Json) : List PyFloat :=
  v.numbers.filterMap fun
    | .float f => some f
    | _ => none

/-- The integers in a value. -/
def Json.ints (v : Json) : List Int :=
  v.numbers.filterMap fun
    | .int i => some i
    | _ => none

theorem mem_floats {f : PyFloat} {v : Json} : f ∈ v.floats ↔ .float f ∈ v.numbers := by
  rw [Json.floats, List.mem_filterMap]
  constructor
  · rintro ⟨x, hx, hf⟩
    cases x with
    | float g => exact Option.some.inj hf ▸ hx
    | _ => cases hf
  · exact fun h => ⟨_, h, rfl⟩

theorem mem_ints {i : Int} {v : Json} : i ∈ v.ints ↔ .int i ∈ v.numbers := by
  rw [Json.ints, List.mem_filterMap]
  constructor
  · rintro ⟨x, hx, hi⟩
    cases x with
    | int j => exact Option.some.inj hi ▸ hx
    | _ => cases hi
  · exact fun h => ⟨_, h, rfl⟩

theorem mem_numbersMembers {n : Json} {ms : List (String × Json)} :
    n ∈ numbersMembers ms ↔ ∃ m ∈ ms, n ∈ m.2.numbers := by
  induction ms with
  | nil => simp [numbersMembers]
  | cons m ms ih =>
      obtain ⟨k, x⟩ := m
      rw [numbersMembers, List.mem_append, ih, List.exists_mem_cons_iff]

mutual

theorem mem_numbers_sortKeys {n : Json} : ∀ v : Json, n ∈ v.sortKeys.numbers ↔ n ∈ v.numbers
  | .arr xs => by
      rw [Json.sortKeys, Json.numbers, Json.numbers, mem_numbersList_sortKeysList xs]
  | .obj ms => by
      rw [Json.sortKeys, Json.numbers, Json.numbers, mem_numbersMembers,
        ← mem_numbersMembers_sortKeysMembers ms, mem_numbersMembers]
      simp only [(sortMembers_perm _).mem_iff]
  | .null => Iff.rfl
  | .bool _ => Iff.rfl
  | .int _ => Iff.rfl
  | .float _ => Iff.rfl
  | .str _ => Iff.rfl

theorem mem_numbersList_sortKeysList {n : Json} : ∀ xs : List Json,
    n ∈ numbersList (sortKeysList xs) ↔ n ∈ numbersList xs
  | [] => Iff.rfl
  | x :: xs => by
      rw [sortKeysList, numbersList, numbersList, List.mem_append, List.mem_append,
        mem_numbers_sortKeys x, mem_numbersList_sortKeysList xs]

theorem mem_numbersMembers_sortKeysMembers {n : Json} : ∀ ms : List (String × Json),
    n ∈ numbersMembers (sortKeysMembers ms) ↔ n ∈ numbersMembers ms
  | [] => Iff.rfl
  | (k, x) :: ms => by
      rw [sortKeysMembers, numbersMembers, numbersMembers, List.mem_append, List.mem_append,
        mem_numbers_sortKeys x, mem_numbersMembers_sortKeysMembers ms]

end

/-- A number is read back from its text. -/
def Literals.Reads (lits : Literals) : Json → Prop
  | .int i => lits.int (intText i) = some i
  | .float f => lits.float f.text.toList = some f
  | _ => True

/-! ## Reading back what was written -/

theorem skipSpace_cons {c : Char} (h : isSpace c = false) (cs : List Char) :
    skipSpace (c :: cs) = c :: cs := by
  rw [skipSpace, List.dropWhile_cons_of_neg (by simp [h])]

theorem skipSpace_gap {gap : List Char} (h : ∀ c ∈ gap, isSpace c = true) (cs : List Char) :
    skipSpace (gap ++ cs) = skipSpace cs := by
  induction gap with
  | nil => rfl
  | cons c gap ih =>
      rw [List.cons_append, skipSpace, List.dropWhile_cons_of_pos (h c List.mem_cons_self)]
      exact ih fun d hd => h d (List.mem_cons_of_mem c hd)

theorem isNumberChar_of_digit {c : Char} (h : c.isDigit = true) : isNumberChar c = true := by
  have hrange : 48 ≤ c.toNat ∧ c.toNat ≤ 57 := by
    simpa [Char.isDigit, UInt32.le_iff_toNat_le] using h
  have hall : ∀ d, d < 10 → isNumberChar (Char.ofNat (48 + d)) = true := by decide
  have hc := hall (c.toNat - 48) (by omega)
  rwa [Nat.add_sub_of_le hrange.1, Char.ofNat_toNat] at hc

theorem span_token {t r : List Char} (ht : ∀ c ∈ t, isNumberChar c = true) (hr : Delimited r) :
    (t ++ r).takeWhile isNumberChar = t ∧ (t ++ r).dropWhile isNumberChar = r := by
  have hhead : r.takeWhile isNumberChar = [] ∧ r.dropWhile isNumberChar = r := by
    cases r with
    | nil => exact ⟨rfl, rfl⟩
    | cons c r =>
        have hc := hr c rfl
        have hnot : isNumberChar c = false := by
          simp only [isDelim, Bool.or_eq_true, beq_iff_eq] at hc
          rcases hc with (rfl | rfl) | rfl <;> decide
        exact ⟨List.takeWhile_cons_of_neg (by simp [hnot]),
          List.dropWhile_cons_of_neg (by simp [hnot])⟩
  rw [List.takeWhile_append_of_pos ht, List.dropWhile_append_of_pos ht, hhead.1, hhead.2]
  exact ⟨List.append_nil t, rfl⟩

theorem toDigits_head (n : Nat) (h : 0 < n) : (Nat.toDigits 10 n).head? ≠ some '0' := by
  induction n using Nat.strongRecOn with
  | _ n ih =>
      by_cases hn : n < 10
      · rw [Nat.toDigits_of_lt_base hn]
        have hall : ∀ d, d < 10 → 0 < d → [Nat.digitChar d].head? ≠ some '0' := by decide
        exact hall n hn h
      · rw [Nat.toDigits_of_base_le (by decide) (by omega),
          List.head?_append_of_ne_nil _ Nat.toDigits_ne_nil]
        exact ih (n / 10) (by omega) (by omega)

private theorem toDigits_isIntLiteral (n : Nat) :
    (!(Nat.toDigits 10 n).isEmpty && (Nat.toDigits 10 n).all Char.isDigit &&
      ((Nat.toDigits 10 n).head? != some '0' || (Nat.toDigits 10 n).length == 1)) = true := by
  have hne : (Nat.toDigits 10 n).isEmpty = false := by simp
  have hall : (Nat.toDigits 10 n).all Char.isDigit = true :=
    List.all_eq_true.2 fun c hc => Nat.isDigit_of_mem_toDigits (by decide) (by decide) hc
  rw [hne, hall]
  rcases Nat.eq_zero_or_pos n with rfl | hn
  · rfl
  · have hhead := toDigits_head n hn
    simp [hhead]

private theorem toDigits_head_ne_minus (n : Nat) : (Nat.toDigits 10 n).head? ≠ some '-' := by
  intro h
  have hdigit := Nat.isDigit_of_mem_toDigits (b := 10) (by decide) (by decide)
    (List.mem_of_mem_head? h)
  exact absurd hdigit (by decide)

theorem isIntLiteral_intText (i : Int) : isIntLiteral (intText i) = true := by
  unfold isIntLiteral intText
  split_ifs with hi hminus hminus
  · exact toDigits_isIntLiteral _
  · exact absurd rfl hminus
  · exact absurd hminus (toDigits_head_ne_minus i.natAbs)
  · exact toDigits_isIntLiteral _

theorem intLiteral_intText (i : Int) : intLiteral (intText i) = i := by
  unfold intLiteral intText
  split_ifs with hi hminus hminus
  · simp only [List.tail_cons, Nat.ofDigitChars_ten_toDigits]
    omega
  · exact absurd rfl hminus
  · exact absurd hminus (toDigits_head_ne_minus i.natAbs)
  · simp only [Nat.ofDigitChars_ten_toDigits]
    omega

theorem isIntLiteral_floatText (f : PyFloat) : isIntLiteral f.text.toList = false := by
  obtain ⟨-, ⟨c, hc, hdigit, hminus⟩, -⟩ := floatText_spec f
  by_contra h
  have h : isIntLiteral f.text.toList = true := by simpa using h
  unfold isIntLiteral at h
  simp only [Bool.and_eq_true, List.all_eq_true] at h
  have hmem :
      c ∈ (if f.text.toList.head? = some '-' then f.text.toList.tail else f.text.toList) := by
    split_ifs with hhead
    · cases hcs : f.text.toList with
      | nil =>
          rw [hcs] at hc
          cases hc
      | cons d ds =>
          rw [hcs] at hc hhead
          rcases List.mem_cons.1 hc with rfl | hc
          · exact absurd (Option.some.inj hhead) hminus
          · exact hc
    · exact hc
  rw [h.1.2 c hmem] at hdigit
  cases hdigit

section RoundTrip

variable {lits : Literals} {gap : List Char}

/-- A number starts with a digit, a minus sign or a capital letter, so it is no keyword. -/
private theorem readScalar_number {c : Char} {cs : List Char}
    (hc : c.isDigit = true ∨ c = '-' ∨ c = 'N' ∨ c = 'I') :
    readScalar lits (c :: cs) = readNumber lits (c :: cs) := by
  have hne : c ≠ 'n' ∧ c ≠ 't' ∧ c ≠ 'f' := by
    refine ⟨?_, ?_, ?_⟩ <;> (rintro rfl; revert hc; decide)
  unfold readScalar
  split
  · next heq => exact absurd (List.cons.inj heq).1 hne.1
  · next heq => exact absurd (List.cons.inj heq).1 hne.2.1
  · next heq => exact absurd (List.cons.inj heq).1 hne.2.2
  · rfl

theorem readScalar_scalarText {v : Json} (hv : v.isScalar = true)
    (hreads : ∀ x ∈ v.numbers, lits.Reads x) {r : List Char} (hr : Delimited r) :
    readScalar lits (scalarText v ++ r) = some (v, r) := by
  cases v with
  | null => rfl
  | bool b => cases b <;> rfl
  | int i =>
      obtain ⟨c, cs, hcs⟩ := List.exists_cons_of_ne_nil (intText_ne_nil i)
      have hhead := mem_intText (i := i) (c := c) (by rw [hcs]; exact List.mem_cons_self)
      have htoken : ∀ d ∈ intText i, isNumberChar d = true := by
        intro d hd
        rcases mem_intText hd with h | rfl
        · exact isNumberChar_of_digit h
        · decide
      have hnumber : readNumber lits (intText i ++ r) = some (.int i, r) := by
        have hread : lits.int (intText i) = some i := hreads _ List.mem_cons_self
        simp only [readNumber, span_token htoken hr, isIntLiteral_intText, hread, if_true,
          Option.map_some]
      rw [scalarText, ← hnumber, hcs]
      exact readScalar_number (hhead.imp_right .inl)
  | float f =>
      obtain ⟨hmem, -, c, cs, hcs, hhead⟩ := floatText_spec f
      have htoken : ∀ d ∈ f.text.toList, isNumberChar d = true := by
        intro d hd
        simp [isNumberChar, hmem d hd]
      have hnumber : readNumber lits (f.text.toList ++ r) = some (.float f, r) := by
        have hread : lits.float f.text.toList = some f := hreads _ List.mem_cons_self
        simp [readNumber, span_token htoken hr, isIntLiteral_floatText, hread]
      rw [scalarText, ← hnumber, hcs]
      exact readScalar_number hhead
  | str _ => cases hv
  | arr _ => cases hv
  | obj _ => cases hv

private theorem isSpace_numberHead {c : Char}
    (hc : c.isDigit = true ∨ c = '-' ∨ c = 'N' ∨ c = 'I') : isSpace c = false := by
  rcases hc with hc | rfl | rfl | rfl
  · have hne : ∀ d : Char, d.isDigit = false → (c == d) = false := by
      intro d hd
      rw [beq_eq_false_iff_ne]
      rintro rfl
      rw [hc] at hd
      cases hd
    simp only [isSpace, hne ' ' rfl, hne '\t' rfl, hne '\n' rfl, hne '\r' rfl, Bool.or_false]
  all_goals rfl

private theorem isSpace_scalarHead {v : Json} (hv : v.isScalar = true) {c : Char} {cs : List Char}
    (h : scalarText v = c :: cs) : isSpace c = false := by
  cases v with
  | null =>
      obtain ⟨rfl, -⟩ := List.cons.inj h
      rfl
  | bool b =>
      cases b
      · obtain ⟨rfl, -⟩ := List.cons.inj h
        rfl
      · obtain ⟨rfl, -⟩ := List.cons.inj h
        rfl
  | int i =>
      have hmem : c ∈ intText i := by
        rw [show intText i = c :: cs from h]
        exact List.mem_cons_self
      exact isSpace_numberHead ((mem_intText hmem).imp_right .inl)
  | float f =>
      obtain ⟨-, -, d, ds, hds, hhead⟩ := floatText_spec f
      obtain ⟨rfl, -⟩ := List.cons.inj (hds.symm.trans h)
      exact isSpace_numberHead hhead
  | str _ => cases hv
  | arr _ => cases hv
  | obj _ => cases hv

/-- How the text of a value starts: not with a space and not with a closing bracket. -/
theorem dump_head (gap : List Char) (v : Json) :
    ∃ c cs, dump gap v = c :: cs ∧ isSpace c = false ∧ c ≠ ']' := by
  have hscalar (hv : v.isScalar = true) :
      ∃ c cs, scalarText v = c :: cs ∧ isSpace c = false ∧ c ≠ ']' := by
    obtain ⟨hne, hall⟩ := scalarText_spec hv
    obtain ⟨c, cs, hcs⟩ := List.exists_cons_of_ne_nil hne
    have hc := hall c (by rw [hcs]; exact List.mem_cons_self)
    have hclose : c ≠ ']' := by
      rintro rfl
      exact absurd hc (by decide)
    exact ⟨c, cs, hcs, isSpace_scalarHead hv hcs, hclose⟩
  cases v with
  | null => exact hscalar rfl
  | bool b => exact hscalar rfl
  | int i => exact hscalar rfl
  | float f => exact hscalar rfl
  | str s => exact ⟨'"', _, rfl, by decide, by decide⟩
  | arr xs => cases xs <;> exact ⟨'[', _, rfl, by decide, by decide⟩
  | obj ms => rcases ms with _ | ⟨⟨k, x⟩, ms⟩ <;> exact ⟨'{', _, rfl, by decide, by decide⟩

theorem skipSpace_dump (gap : List Char) (v : Json) (r : List Char) :
    skipSpace (dump gap v ++ r) = dump gap v ++ r := by
  obtain ⟨c, cs, hcs, hspace, -⟩ := dump_head gap v
  rw [hcs, List.cons_append, skipSpace_cons hspace]

theorem dumpTail_delimited (gap : List Char) (xs : List Json) (r : List Char) :
    Delimited (dumpTail gap xs ++ r) := by
  cases xs <;> simp [Delimited, dumpTail, isDelim]

theorem dumpMembers_delimited (gap : List Char) (ms : List (String × Json)) (r : List Char) :
    Delimited (dumpMembers gap ms ++ r) := by
  rcases ms with _ | ⟨⟨k, x⟩, ms⟩ <;> simp [Delimited, dumpMembers, isDelim]

theorem dictOf_eq {ms : List (String × Json)} (h : (ms.map (·.1)).Nodup) : dictOf ms = ms := by
  have hfold : ∀ acc : List (String × Json), ((acc ++ ms).map (·.1)).Nodup →
      ms.foldl (fun ms m => Json.setItem ms m.1 m.2) acc = acc ++ ms := by
    clear h
    induction ms with
    | nil => intro acc _; rw [List.foldl_nil, List.append_nil]
    | cons m ms ih =>
        intro acc hacc
        have hlookup : acc.lookup m.1 = none := by
          rw [List.lookup_eq_none_iff]
          intro n hn
          rw [List.map_append, List.nodup_append] at hacc
          have hne := hacc.2.2 n.1 (List.mem_map_of_mem hn) m.1 (by simp)
          simpa using hne.symm
        rw [List.foldl_cons, Json.setItem, hlookup, if_neg (by simp),
          ih (acc ++ [m]) (by rwa [List.append_assoc]), List.append_assoc]
        rfl
  exact hfold [] h

private theorem readValue_scalar {v : Json} (hv : v.isScalar = true)
    (hreads : ∀ x ∈ v.numbers, lits.Reads x) {n : Nat} {r : List Char}
    (hn : (scalarText v).length ≤ n) (hr : Delimited r) :
    readValue lits n (scalarText v ++ r) = some (v, r) := by
  obtain ⟨hne, hall⟩ := scalarText_spec hv
  obtain ⟨c, cs, hcs⟩ := List.exists_cons_of_ne_nil hne
  have hc := hall c (by rw [hcs]; exact List.mem_cons_self)
  rw [hcs, List.length_cons] at hn
  obtain ⟨n, rfl⟩ : ∃ k, n = k + 1 := ⟨n - 1, by omega⟩
  rw [← readScalar_scalarText hv hreads hr, hcs, List.cons_append, readValue]
  · rintro rest heq
    obtain ⟨rfl, -⟩ := List.cons.inj heq
    exact absurd hc (by decide)
  · rintro rest heq
    obtain ⟨rfl, -⟩ := List.cons.inj heq
    exact absurd hc (by decide)
  · rintro rest heq
    obtain ⟨rfl, -⟩ := List.cons.inj heq
    exact absurd hc (by decide)

mutual

theorem readValue_dump (hgap : ∀ c ∈ gap, isSpace c = true) :
    ∀ (v : Json) {n : Nat} {r : List Char}, v.parsed = true →
      (∀ x ∈ v.numbers, lits.Reads x) → (dump gap v).length ≤ n → Delimited r →
      readValue lits n (dump gap v ++ r) = some (v, r)
  | .str s, n, r, _, _, hn, _ => by
      rw [dump, quote, List.length_cons] at hn
      obtain ⟨n, rfl⟩ : ∃ k, n = k + 1 := ⟨n - 1, by omega⟩
      rw [dump, quote, List.cons_append, readValue, readChars_escapeChars _ _ (by omega)]
      simp
  | .arr [], n, r, _, _, hn, _ => by
      rw [dump, List.length_cons] at hn
      obtain ⟨n, rfl⟩ : ∃ k, n = k + 1 := ⟨n - 1, by omega⟩
      rw [dump, List.cons_append, readValue, List.cons_append, skipSpace_cons (by decide)]
      rfl
  | .arr (x :: xs), n, r, hp, hf, hn, _ => by
      rw [dump, List.length_cons, List.length_append] at hn
      obtain ⟨n, rfl⟩ : ∃ k, n = k + 1 := ⟨n - 1, by omega⟩
      have helements := readElements_dump hgap x xs hp hf (n := n) (r := r) (by omega)
      obtain ⟨c, cs, hcs, hspace, hclose⟩ := dump_head gap x
      rw [dump, List.cons_append, readValue, List.append_assoc, skipSpace_dump]
      rw [hcs, List.cons_append] at helements ⊢
      split
      · next heq => exact absurd (List.cons.inj heq).1 hclose
      · rw [helements]
        rfl
  | .obj [], n, r, _, _, hn, _ => by
      rw [dump, List.length_cons] at hn
      obtain ⟨n, rfl⟩ : ∃ k, n = k + 1 := ⟨n - 1, by omega⟩
      rw [dump, List.cons_append, readValue, List.cons_append, skipSpace_cons (by decide)]
      rfl
  | .obj ((k, x) :: ms), n, r, hp, hf, hn, _ => by
      rw [Json.parsed, Bool.and_eq_true, decide_eq_true_eq] at hp
      simp only [dump, List.length_cons, List.length_append] at hn
      obtain ⟨n, rfl⟩ : ∃ k, n = k + 1 := ⟨n - 1, by omega⟩
      have hmembers := readMembers_dump hgap k x ms hp.2 hf (n := n) (r := r) (by omega)
      have hskip : skipSpace (quote k ++ ':' :: (gap ++ (dump gap x ++ dumpMembers gap ms)) ++ r) =
          quote k ++ ':' :: (gap ++ (dump gap x ++ (dumpMembers gap ms ++ r))) := by
        rw [quote, List.cons_append, List.cons_append, skipSpace_cons (by decide)]
        simp
      rw [dump, List.cons_append, readValue, hskip]
      split
      · next heq => cases (List.cons.inj heq).1
      · rw [hmembers]
        simp [dictOf_eq hp.1]
  | .null, n, r, _, hf, hn, hr => readValue_scalar rfl hf hn hr
  | .bool b, n, r, _, hf, hn, hr => readValue_scalar rfl hf hn hr
  | .int i, n, r, _, hf, hn, hr => readValue_scalar rfl hf hn hr
  | .float f, n, r, _, hf, hn, hr => readValue_scalar rfl hf hn hr
termination_by _ n => n

theorem readElements_dump (hgap : ∀ c ∈ gap, isSpace c = true) :
    ∀ (x : Json) (xs : List Json) {n : Nat} {r : List Char}, parsedList (x :: xs) = true →
      (∀ y ∈ numbersList (x :: xs), lits.Reads y) →
      (dump gap x).length + (dumpTail gap xs).length ≤ n →
      readElements lits n (dump gap x ++ (dumpTail gap xs ++ r)) = some (x :: xs, r)
  | x, [], n, r, hp, hf, hn => by
      rw [parsedList, Bool.and_eq_true] at hp
      rw [dumpTail, List.length_cons] at hn
      obtain ⟨n, rfl⟩ : ∃ k, n = k + 1 := ⟨n - 1, by omega⟩
      have hx := readValue_dump hgap x (n := n) hp.1
        (fun f h => hf f (List.mem_append_left _ h)) (by omega) (dumpTail_delimited gap [] r)
      rw [readElements, hx]
      simp [dumpTail, skipSpace_cons (show isSpace ']' = false by decide)]
  | x, y :: ys, n, r, hp, hf, hn => by
      rw [parsedList, Bool.and_eq_true] at hp
      simp only [dumpTail, List.length_cons, List.length_append] at hn
      obtain ⟨n, rfl⟩ : ∃ k, n = k + 1 := ⟨n - 1, by omega⟩
      have hx := readValue_dump hgap x (n := n) hp.1
        (fun f h => hf f (List.mem_append_left _ h)) (by omega)
        (dumpTail_delimited gap (y :: ys) r)
      have hys := readElements_dump hgap y ys (n := n) (r := r) hp.2
        (fun f h => hf f (List.mem_append_right _ h)) (by omega)
      have hcomma : skipSpace (dumpTail gap (y :: ys) ++ r) =
          ',' :: (gap ++ (dump gap y ++ (dumpTail gap ys ++ r))) := by
        rw [dumpTail, List.cons_append, skipSpace_cons (by decide)]
        simp
      rw [readElements, hx]
      simp only [Option.bind_eq_bind, Option.bind_some, hcomma, skipSpace_gap hgap,
        skipSpace_dump, hys, Option.pure_def]
termination_by _ _ n => n

theorem readMembers_dump (hgap : ∀ c ∈ gap, isSpace c = true) :
    ∀ (k : String) (x : Json) (ms : List (String × Json)) {n : Nat} {r : List Char},
      parsedMembers ((k, x) :: ms) = true →
      (∀ y ∈ numbersMembers ((k, x) :: ms), lits.Reads y) →
      (quote k).length + (dump gap x).length + (dumpMembers gap ms).length ≤ n →
      readMembers lits n (quote k ++ ':' :: (gap ++ (dump gap x ++ (dumpMembers gap ms ++ r)))) =
        some ((k, x) :: ms, r)
  | k, x, [], n, r, hp, hf, hn => by
      rw [parsedMembers, Bool.and_eq_true] at hp
      simp only [dumpMembers, quote, List.length_cons] at hn
      obtain ⟨n, rfl⟩ : ∃ k, n = k + 1 := ⟨n - 1, by omega⟩
      have hx := readValue_dump hgap x (n := n) hp.1
        (fun f h => hf f (List.mem_append_left _ h)) (by omega)
        (dumpMembers_delimited gap [] r)
      rw [quote, List.cons_append, readMembers, readChars_escapeChars _ _ (by omega)]
      simp only [Option.bind_eq_bind, Option.bind_some,
        skipSpace_cons (show isSpace ':' = false by decide),
        skipSpace_gap hgap, skipSpace_dump, hx]
      simp [dumpMembers, skipSpace_cons (show isSpace '}' = false by decide)]
  | k, x, (l, y) :: ms, n, r, hp, hf, hn => by
      rw [parsedMembers, Bool.and_eq_true] at hp
      simp only [dumpMembers, quote, List.length_cons, List.length_append] at hn
      obtain ⟨n, rfl⟩ : ∃ k, n = k + 1 := ⟨n - 1, by omega⟩
      have hx := readValue_dump hgap x (n := n) hp.1
        (fun f h => hf f (List.mem_append_left _ h)) (by omega)
        (dumpMembers_delimited gap ((l, y) :: ms) r)
      have hms := readMembers_dump hgap l y ms (n := n) (r := r) hp.2
        (fun f h => hf f (List.mem_append_right _ h))
        (by simp only [quote, List.length_cons]; omega)
      have hcomma : skipSpace (dumpMembers gap ((l, y) :: ms) ++ r) =
          ',' :: (gap ++
            (quote l ++ ':' :: (gap ++ (dump gap y ++ (dumpMembers gap ms ++ r))))) := by
        rw [dumpMembers, List.cons_append, skipSpace_cons (by decide)]
        simp
      have hkey : skipSpace (quote l ++ ':' :: (gap ++ (dump gap y ++ (dumpMembers gap ms ++ r)))) =
          quote l ++ ':' :: (gap ++ (dump gap y ++ (dumpMembers gap ms ++ r))) := by
        rw [quote, List.cons_append, skipSpace_cons (by decide)]
      rw [quote, List.cons_append, readMembers, readChars_escapeChars _ _ (by omega)]
      simp only [Option.bind_eq_bind, Option.bind_some,
        skipSpace_cons (show isSpace ':' = false by decide),
        skipSpace_gap hgap, skipSpace_dump, hx, hcomma, hkey, hms, Option.pure_def,
        String.ofList_toList]
termination_by _ _ _ n => n

end

theorem loadsWith_dump (hgap : ∀ c ∈ gap, isSpace c = true) {v : Json} (hp : v.parsed = true)
    (hreads : ∀ x ∈ v.numbers, lits.Reads x) :
    loadsWith lits (String.ofList (dump gap v)) = some v := by
  have hend : Delimited [] := by simp [Delimited]
  have hread := readValue_dump hgap v (n := (dump gap v).length + 1) hp hreads (by omega) hend
  have hskip := skipSpace_dump gap v []
  rw [List.append_nil] at hread hskip
  rw [loadsWith, String.toList_ofList, hskip, hread]
  rfl

/-- The canonical text of a value is read back as the value, up to the order of members. -/
theorem loadsWith_canonical {v : Json} (hp : v.parsed = true)
    (hreads : ∀ x ∈ v.numbers, lits.Reads x) :
    loadsWith lits (canonical v) = some v.sortKeys := by
  rw [canonical, ← dump_nil]
  refine loadsWith_dump (by simp) (sortKeys_parsed v hp) fun x h => hreads x ?_
  exact (mem_numbers_sortKeys v).1 h

theorem loads_dump {float : List Char → Option PyFloat} (hgap : ∀ c ∈ gap, isSpace c = true)
    {v : Json} (hp : v.parsed = true) (hf : ∀ f ∈ v.floats, float f.text.toList = some f) :
    loads float (String.ofList (dump gap v)) = some v := by
  refine loadsWith_dump hgap hp fun x hx => ?_
  cases x with
  | int i => exact congrArg some (intLiteral_intText i)
  | float f => exact hf f (mem_floats.2 hx)
  | _ => trivial

end RoundTrip

end Wcp.Base
