import Wcp.Base.Json
/-!
# Canonical JSON text

The compact ASCII rendering with sorted keys that is hashed and signed.
`render` writes a value as it stands; `canonical` sorts the members of every
object first.  The rendering determines the value (`render_injective`), so the
canonical text determines it up to the order of members (`canonical_inj`).

A rendered value followed by more text can be split off in one way only, as long
as what follows starts with a delimiter: scalars contain no delimiter, and the
bracketed forms say where they end.
-/

namespace Wcp.Base

/-! ## Strings -/

/-- Four hexadecimal digits. -/
def hex4 (n : Nat) : List Char :=
  [Nat.digitChar (n / 4096 % 16), Nat.digitChar (n / 256 % 16), Nat.digitChar (n / 16 % 16),
    Nat.digitChar (n % 16)]

/-- The escape of one character; beyond the basic plane, a pair of surrogates. -/
def escapeChar (c : Char) : List Char :=
  if c = '"' then ['\\', '"']
  else if c = '\\' then ['\\', '\\']
  else if c = '\n' then ['\\', 'n']
  else if c = '\r' then ['\\', 'r']
  else if c = '\t' then ['\\', 't']
  else if c.toNat = 12 then ['\\', 'f']
  else if c.toNat = 8 then ['\\', 'b']
  else if 32 ≤ c.toNat ∧ c.toNat ≤ 126 then [c]
  else if c.toNat < 65536 then '\\' :: 'u' :: hex4 c.toNat
  else
    '\\' :: 'u' :: hex4 (55296 + (c.toNat - 65536) / 1024) ++
      '\\' :: 'u' :: hex4 (56320 + (c.toNat - 65536) % 1024)

/-- The body of a string literal, closing quote included. -/
def escapeChars : List Char → List Char
  | [] => ['"']
  | c :: cs => escapeChar c ++ escapeChars cs

/-- A string literal. -/
def quote (s : String) : List Char := '"' :: escapeChars s.toList

/-- The value of a hexadecimal digit. -/
def hexValue (c : Char) : Nat :=
  if c.toNat ≤ 57 then c.toNat - 48 else c.toNat - 87

/-- The value of four hexadecimal digits. -/
def hexValue4 (a b c d : Char) : Nat :=
  4096 * hexValue a + 256 * hexValue b + 16 * hexValue c + hexValue d

/-- Read one escaped character back. -/
def unescapeChar : List Char → Option (Char × List Char)
  | '\\' :: '"' :: r => some ('"', r)
  | '\\' :: '\\' :: r => some ('\\', r)
  | '\\' :: 'n' :: r => some ('\n', r)
  | '\\' :: 'r' :: r => some ('\r', r)
  | '\\' :: 't' :: r => some ('\t', r)
  | '\\' :: 'f' :: r => some (Char.ofNat 12, r)
  | '\\' :: 'b' :: r => some (Char.ofNat 8, r)
  | '\\' :: 'u' :: a :: b :: c :: d :: r =>
      let n := hexValue4 a b c d
      if 55296 ≤ n ∧ n < 56320 then
        match r with
        | '\\' :: 'u' :: a' :: b' :: c' :: d' :: r' =>
            let m := hexValue4 a' b' c' d'
            some (Char.ofNat (65536 + (n - 55296) * 1024 + (m - 56320)), r')
        | _ => none
      else some (Char.ofNat n, r)
  | c :: r => some (c, r)
  | [] => none

theorem hexValue_digitChar : ∀ d, d < 16 → hexValue (Nat.digitChar d) = d := by decide

theorem hexValue4_hex4 {n : Nat} (h : n < 65536) :
    hexValue4 (Nat.digitChar (n / 4096 % 16)) (Nat.digitChar (n / 256 % 16))
      (Nat.digitChar (n / 16 % 16)) (Nat.digitChar (n % 16)) = n := by
  unfold hexValue4
  simp only [hexValue_digitChar _ (Nat.mod_lt _ (by decide : 0 < 16))]
  omega

private theorem not_surrogate (c : Char) : ¬(55296 ≤ c.toNat ∧ c.toNat < 57344) := by
  have h := c.valid
  simp only [UInt32.isValidChar, Nat.isValidChar] at h
  have : c.toNat = c.val.toNat := rfl
  omega

private theorem toNat_le (c : Char) : c.toNat < 1114112 := by
  have h := c.valid
  simp only [UInt32.isValidChar, Nat.isValidChar] at h
  have : c.toNat = c.val.toNat := rfl
  omega

theorem unescapeChar_escapeChar (c : Char) (r : List Char) :
    unescapeChar (escapeChar c ++ r) = some (c, r) := by
  unfold escapeChar
  split_ifs with h1 h2 h3 h4 h5 h6 h7 h8 h9
  · simp [unescapeChar, h1]
  · simp [unescapeChar, h2]
  · simp [unescapeChar, h3]
  · simp [unescapeChar, h4]
  · simp [unescapeChar, h5]
  · have : Char.ofNat 12 = c := by rw [← h6, Char.ofNat_toNat]
    simpa [unescapeChar] using this
  · have : Char.ofNat 8 = c := by rw [← h7, Char.ofNat_toNat]
    simpa [unescapeChar] using this
  · simp [unescapeChar, h2]
  · simp only [hex4, List.cons_append, List.nil_append, unescapeChar]
    rw [hexValue4_hex4 h9, if_neg (fun h => not_surrogate c ⟨h.1, by omega⟩), Char.ofNat_toNat]
  · have hc := toNat_le c
    have hhigh : 55296 + (c.toNat - 65536) / 1024 < 56320 := by omega
    simp only [hex4, List.cons_append, List.nil_append, unescapeChar]
    rw [hexValue4_hex4 (by omega), if_pos ⟨by omega, hhigh⟩, hexValue4_hex4 (by omega)]
    have : 65536 + (55296 + (c.toNat - 65536) / 1024 - 55296) * 1024 +
        (56320 + (c.toNat - 65536) % 1024 - 56320) = c.toNat := by omega
    rw [this, Char.ofNat_toNat]

theorem escapeChar_head_ne_quote (c : Char) (r s : List Char) :
    escapeChar c ++ r ≠ '"' :: s := by
  unfold escapeChar
  split_ifs with h1 <;> simp [h1]

theorem escapeChars_append_inj {cs ds r r' : List Char}
    (h : escapeChars cs ++ r = escapeChars ds ++ r') : cs = ds ∧ r = r' := by
  induction cs generalizing ds with
  | nil =>
      cases ds with
      | nil => simpa [escapeChars] using h
      | cons d ds =>
          simp only [escapeChars, List.append_assoc, List.cons_append, List.nil_append] at h
          exact absurd h.symm (escapeChar_head_ne_quote d _ _)
  | cons c cs ih =>
      cases ds with
      | nil =>
          simp only [escapeChars, List.append_assoc, List.cons_append, List.nil_append] at h
          exact absurd h (escapeChar_head_ne_quote c _ _)
      | cons d ds =>
          simp only [escapeChars, List.append_assoc] at h
          have hread := congrArg unescapeChar h
          rw [unescapeChar_escapeChar, unescapeChar_escapeChar] at hread
          obtain ⟨rfl, hrest⟩ : c = d ∧ _ := by simpa using hread
          obtain ⟨rfl, hr⟩ := ih hrest
          exact ⟨rfl, hr⟩

theorem quote_append_inj {s t : String} {r r' : List Char}
    (h : quote s ++ r = quote t ++ r') : s = t ∧ r = r' := by
  simp only [quote, List.cons_append, List.cons.injEq, true_and] at h
  obtain ⟨hst, hr⟩ := escapeChars_append_inj h
  exact ⟨String.toList_inj.mp hst, hr⟩

/-! ## Scalars -/

def intText (i : Int) : List Char :=
  if i < 0 then '-' :: Nat.toDigits 10 i.natAbs else Nat.toDigits 10 i.natAbs

/-- The text of a scalar other than a string. -/
def scalarText : Json → List Char
  | .null => "null".toList
  | .bool true => "true".toList
  | .bool false => "false".toList
  | .int i => intText i
  | .float f => f.text.toList
  | _ => []

/-- A scalar other than a string. -/
def Json.isScalar : Json → Bool
  | .null | .bool _ | .int _ | .float _ => true
  | _ => false

/-- The characters that may follow a value inside a document. -/
def isDelim (c : Char) : Bool := c == ',' || c == ']' || c == '}'

/-- A continuation of a document after a value: empty, or starting with a delimiter. -/
def Delimited (r : List Char) : Prop := ∀ c ∈ r.head?, isDelim c = true

/-- A character that no bracketed value or string starts with, and no delimiter. -/
def isScalarChar (c : Char) : Bool :=
  !isDelim c && c != '"' && c != '[' && c != '{'

theorem intText_ne_nil (i : Int) : intText i ≠ [] := by
  unfold intText
  split_ifs
  · exact List.cons_ne_nil _ _
  · exact Nat.toDigits_ne_nil

theorem mem_intText {i : Int} {c : Char} (h : c ∈ intText i) : c.isDigit = true ∨ c = '-' := by
  have hdigit (hc : c ∈ Nat.toDigits 10 i.natAbs) : c.isDigit = true :=
    Nat.isDigit_of_mem_toDigits (by decide) (by decide) hc
  unfold intText at h
  split_ifs at h
  · rcases List.mem_cons.mp h with rfl | h
    · exact Or.inr rfl
    · exact Or.inl (hdigit h)
  · exact Or.inl (hdigit h)

theorem toDigits_injective {m n : Nat} (h : Nat.toDigits 10 m = Nat.toDigits 10 n) : m = n := by
  rw [← Nat.ofDigitChars_ten_toDigits (n := m), h, Nat.ofDigitChars_ten_toDigits]

private theorem minus_notMem_toDigits (n : Nat) : '-' ∉ Nat.toDigits 10 n := by
  intro h
  have := Nat.isDigit_of_mem_toDigits (b := 10) (by decide) (by decide) h
  exact absurd this (by decide)

theorem intText_injective {i j : Int} (h : intText i = intText j) : i = j := by
  unfold intText at h
  split_ifs at h with hi hj hj
  · have := toDigits_injective (List.cons.inj h).2
    omega
  · exact absurd (h ▸ List.mem_cons_self) (minus_notMem_toDigits j.natAbs)
  · exact absurd (h ▸ List.mem_cons_self) (minus_notMem_toDigits i.natAbs)
  · have := toDigits_injective h
    omega

theorem floatText_spec (f : PyFloat) :
    (∀ c ∈ f.text.toList, c ∈ floatChars) ∧
      (∃ c ∈ f.text.toList, c.isDigit = false ∧ c ≠ '-') ∧
      ∃ c cs, f.text.toList = c :: cs ∧ (c.isDigit = true ∨ c = '-' ∨ c = 'N' ∨ c = 'I') := by
  have h := f.isText
  unfold isFloatText at h
  simp only [Bool.and_eq_true, List.all_eq_true, List.contains_iff_mem, List.any_eq_true,
    Bool.not_eq_true', bne_iff_ne, ne_eq] at h
  refine ⟨h.1.1, h.1.2, ?_⟩
  have hhead := h.2
  revert hhead
  cases f.text.toList with
  | nil => simp
  | cons c cs =>
      intro hhead
      refine ⟨c, cs, rfl, ?_⟩
      simpa [or_assoc] using hhead

private theorem floatChar_isScalarChar : ∀ c ∈ floatChars, isScalarChar c = true := by
  rw [← List.all_eq_true]
  decide

private theorem digit_isScalarChar {c : Char} (h : c.isDigit = true) : isScalarChar c = true := by
  have hne : ∀ d : Char, d.isDigit = false → c ≠ d := by
    rintro d hd rfl
    rw [h] at hd
    cases hd
  simp [isScalarChar, isDelim, hne ',' rfl, hne ']' rfl, hne '}' rfl, hne '"' rfl,
    hne '[' rfl, hne '{' rfl]

theorem scalarText_spec {v : Json} (hv : v.isScalar = true) :
    scalarText v ≠ [] ∧ ∀ c ∈ scalarText v, isScalarChar c = true := by
  cases v with
  | null => exact ⟨by decide, List.all_eq_true.1 (by decide)⟩
  | bool b => cases b <;> exact ⟨by decide, List.all_eq_true.1 (by decide)⟩
  | int i =>
      refine ⟨intText_ne_nil i, fun c hc => ?_⟩
      rcases mem_intText hc with h | rfl
      · exact digit_isScalarChar h
      · decide
  | float f =>
      obtain ⟨hmem, -, c, cs, hcs, -⟩ := floatText_spec f
      refine ⟨?_, fun c hc => floatChar_isScalarChar c (hmem c hc)⟩
      simp [scalarText, hcs]
  | str _ => simp [Json.isScalar] at hv
  | arr _ => simp [Json.isScalar] at hv
  | obj _ => simp [Json.isScalar] at hv

private theorem intText_ne_floatText (i : Int) (f : PyFloat) : intText i ≠ f.text.toList := by
  intro h
  obtain ⟨-, ⟨c, hc, hdigit, hminus⟩, -⟩ := floatText_spec f
  rcases mem_intText (h ▸ hc) with hd | hm
  · rw [hd] at hdigit
    cases hdigit
  · exact hminus hm

private theorem numberText_head {v : Json} (hv : (∃ i, v = .int i) ∨ ∃ f, v = .float f) :
    ∃ c cs, scalarText v = c :: cs ∧
      (c.isDigit = true ∨ c = '-' ∨ c = 'N' ∨ c = 'I') := by
  rcases hv with ⟨i, rfl⟩ | ⟨f, rfl⟩
  · obtain ⟨c, cs, hcs⟩ := List.exists_cons_of_ne_nil (intText_ne_nil i)
    refine ⟨c, cs, hcs, ?_⟩
    rcases mem_intText (i := i) (c := c) (by rw [hcs]; exact List.mem_cons_self) with h | h
    · exact Or.inl h
    · exact Or.inr (Or.inl h)
  · exact (floatText_spec f).2.2

private theorem numberText_ne {v : Json} (hv : (∃ i, v = .int i) ∨ ∃ f, v = .float f)
    {d : Char} {ds : List Char} (hd : d = 'n' ∨ d = 't' ∨ d = 'f') : scalarText v ≠ d :: ds := by
  obtain ⟨c, cs, hcs, hc⟩ := numberText_head hv
  rw [hcs]
  rintro h
  obtain ⟨rfl, -⟩ := List.cons.inj h
  rcases hd with rfl | rfl | rfl <;> revert hc <;> decide

theorem scalarText_injective {v w : Json} (hv : v.isScalar = true) (hw : w.isScalar = true)
    (h : scalarText v = scalarText w) : v = w := by
  have hkeyword : ∀ {x y : Json}, ((∃ i, x = .int i) ∨ ∃ f, x = .float f) →
      (y = .null ∨ ∃ b, y = .bool b) → scalarText x ≠ scalarText y := by
    rintro x y hx (rfl | ⟨_ | _, rfl⟩)
    · exact numberText_ne hx (Or.inl rfl)
    · exact numberText_ne hx (Or.inr (Or.inr rfl))
    · exact numberText_ne hx (Or.inr (Or.inl rfl))
  cases v <;> cases w <;> simp only [Json.isScalar, Bool.false_eq_true] at hv hw
  case null.null => rfl
  case null.bool b => cases b <;> exact absurd h (by decide)
  case null.int => exact absurd h.symm (hkeyword (Or.inl ⟨_, rfl⟩) (Or.inl rfl))
  case null.float => exact absurd h.symm (hkeyword (Or.inr ⟨_, rfl⟩) (Or.inl rfl))
  case bool.null b => cases b <;> exact absurd h (by decide)
  case bool.bool a b => cases a <;> cases b <;> first | rfl | exact absurd h (by decide)
  case bool.int => exact absurd h.symm (hkeyword (Or.inl ⟨_, rfl⟩) (Or.inr ⟨_, rfl⟩))
  case bool.float => exact absurd h.symm (hkeyword (Or.inr ⟨_, rfl⟩) (Or.inr ⟨_, rfl⟩))
  case int.null => exact absurd h (hkeyword (Or.inl ⟨_, rfl⟩) (Or.inl rfl))
  case int.bool => exact absurd h (hkeyword (Or.inl ⟨_, rfl⟩) (Or.inr ⟨_, rfl⟩))
  case int.int => rw [intText_injective h]
  case int.float i f => exact absurd h (intText_ne_floatText i f)
  case float.null => exact absurd h (hkeyword (Or.inr ⟨_, rfl⟩) (Or.inl rfl))
  case float.bool => exact absurd h (hkeyword (Or.inr ⟨_, rfl⟩) (Or.inr ⟨_, rfl⟩))
  case float.int f i => exact absurd h.symm (intText_ne_floatText i f)
  case float.float f g =>
      have htext : f.text = g.text := String.toList_inj.mp h
      cases f
      cases g
      cases htext
      rfl

/-- Text without delimiters followed by a delimited rest splits in one way. -/
theorem append_delimited_inj {t t' r r' : List Char} (ht : ∀ c ∈ t, isScalarChar c = true)
    (ht' : ∀ c ∈ t', isScalarChar c = true) (hr : Delimited r) (hr' : Delimited r')
    (h : t ++ r = t' ++ r') : t = t' ∧ r = r' := by
  have hnot : ∀ {c}, isScalarChar c = true → isDelim c = false := by
    intro c hc
    simp only [isScalarChar, Bool.and_eq_true, Bool.not_eq_true'] at hc
    exact hc.1.1.1
  induction t generalizing t' with
  | nil =>
      cases t' with
      | nil => exact ⟨rfl, by simpa using h⟩
      | cons c t' =>
          have hdelim := hr c (by simp only [List.nil_append] at h; rw [h]; simp)
          rw [hnot (ht' c List.mem_cons_self)] at hdelim
          cases hdelim
  | cons c t ih =>
      cases t' with
      | nil =>
          have hdelim := hr' c (by simp only [List.nil_append] at h; rw [← h]; simp)
          rw [hnot (ht c List.mem_cons_self)] at hdelim
          cases hdelim
      | cons d t' =>
          simp only [List.cons_append, List.cons.injEq] at h
          obtain ⟨rfl, hrest⟩ := h
          obtain ⟨rfl, hr⟩ := ih (fun x hx => ht x (List.mem_cons_of_mem _ hx))
            (fun x hx => ht' x (List.mem_cons_of_mem _ hx)) hrest
          exact ⟨rfl, hr⟩

/-! ## Values -/

mutual

/-- The compact text of a value, members in the order they stand in. -/
def render : Json → List Char
  | .str s => quote s
  | .arr [] => ['[', ']']
  | .arr (x :: xs) => '[' :: (render x ++ renderTail xs)
  | .obj [] => ['{', '}']
  | .obj ((k, x) :: ms) => '{' :: (quote k ++ ':' :: (render x ++ renderMembers ms))
  | .null => scalarText .null
  | .bool b => scalarText (.bool b)
  | .int i => scalarText (.int i)
  | .float f => scalarText (.float f)

/-- The elements after the first, closing bracket included. -/
def renderTail : List Json → List Char
  | [] => [']']
  | x :: xs => ',' :: (render x ++ renderTail xs)

/-- The members after the first, closing brace included. -/
def renderMembers : List (String × Json) → List Char
  | [] => ['}']
  | (k, x) :: ms => ',' :: (quote k ++ ':' :: (render x ++ renderMembers ms))

end

theorem render_scalar {v : Json} (hv : v.isScalar = true) : render v = scalarText v := by
  cases v with
  | str _ => simp [Json.isScalar] at hv
  | arr _ => simp [Json.isScalar] at hv
  | obj _ => simp [Json.isScalar] at hv
  | _ => rfl

theorem render_head (v : Json) :
    (v.isScalar = true ∧ ∃ c cs, render v = c :: cs ∧ isScalarChar c = true) ∨
      (∃ s, v = .str s ∧ ∃ cs, render v = '"' :: cs) ∨
      (∃ xs, v = .arr xs ∧ ∃ cs, render v = '[' :: cs) ∨
      ∃ ms, v = .obj ms ∧ ∃ cs, render v = '{' :: cs := by
  have hscalar (hv : v.isScalar = true) :
      v.isScalar = true ∧ ∃ c cs, render v = c :: cs ∧ isScalarChar c = true := by
    obtain ⟨hne, hall⟩ := scalarText_spec hv
    obtain ⟨c, cs, hcs⟩ := List.exists_cons_of_ne_nil hne
    exact ⟨hv, c, cs, by rw [render_scalar hv, hcs], hall c (by rw [hcs]; exact List.mem_cons_self)⟩
  cases v with
  | null => exact Or.inl (hscalar rfl)
  | bool _ => exact Or.inl (hscalar rfl)
  | int _ => exact Or.inl (hscalar rfl)
  | float _ => exact Or.inl (hscalar rfl)
  | str s => exact Or.inr (Or.inl ⟨s, rfl, _, rfl⟩)
  | arr xs => exact Or.inr (Or.inr (Or.inl ⟨xs, rfl, by cases xs <;> exact ⟨_, rfl⟩⟩))
  | obj ms =>
      refine Or.inr (Or.inr (Or.inr ⟨ms, rfl, ?_⟩))
      rcases ms with _ | ⟨⟨k, x⟩, ms⟩ <;> exact ⟨_, rfl⟩

theorem render_ne_close (v : Json) (r s : List Char) : render v ++ r ≠ ']' :: s := by
  rcases render_head v with ⟨-, c, cs, h, hc⟩ | ⟨-, -, cs, h⟩ | ⟨-, -, cs, h⟩ | ⟨-, -, cs, h⟩
  · rw [h]
    rintro h'
    obtain ⟨rfl, -⟩ := List.cons.inj h'
    exact absurd hc (by decide)
  all_goals simp [h]

theorem renderTail_delimited (xs : List Json) (r : List Char) :
    Delimited (renderTail xs ++ r) := by
  cases xs <;> simp [Delimited, renderTail, isDelim]

theorem renderMembers_delimited (ms : List (String × Json)) (r : List Char) :
    Delimited (renderMembers ms ++ r) := by
  rcases ms with _ | ⟨⟨k, x⟩, ms⟩ <;> simp [Delimited, renderMembers, isDelim]

private theorem head_ne {c d : Char} {cs ds r r' : List Char} (h : c ≠ d) :
    c :: cs ++ r ≠ d :: ds ++ r' := by
  intro h'
  exact h (List.cons.inj h').1

private theorem scalar_append_inj {v : Json} (hv : v.isScalar = true) (w : Json)
    {r r' : List Char} (hr : Delimited r) (hr' : Delimited r')
    (h : render v ++ r = render w ++ r') : v = w ∧ r = r' := by
  obtain ⟨hne, hall⟩ := scalarText_spec hv
  obtain ⟨c, cs, hcs⟩ := List.exists_cons_of_ne_nil hne
  have hc : isScalarChar c = true := hall c (by rw [hcs]; exact List.mem_cons_self)
  have hopen : ∀ d, isScalarChar d = false → c ≠ d := by
    rintro d hd rfl
    rw [hc] at hd
    cases hd
  rw [render_scalar hv] at h
  rcases render_head w with ⟨hw, -⟩ | ⟨-, -, ds, hw⟩ | ⟨-, -, ds, hw⟩ | ⟨-, -, ds, hw⟩
  · rw [render_scalar hw] at h
    obtain ⟨ht, hrest⟩ := append_delimited_inj hall (scalarText_spec hw).2 hr hr' h
    exact ⟨scalarText_injective hv hw ht, hrest⟩
  · rw [hw, hcs] at h
    exact absurd h (head_ne (hopen _ rfl))
  · rw [hw, hcs] at h
    exact absurd h (head_ne (hopen _ rfl))
  · rw [hw, hcs] at h
    exact absurd h (head_ne (hopen _ rfl))

mutual

/-- The text of a value inside a document says where the value ends and which
value it is.  By recursion on the value; the three bracketed forms of the second
value are told apart by their first character. -/
theorem render_append_inj : ∀ (v w : Json) {r r' : List Char}, Delimited r → Delimited r' →
    render v ++ r = render w ++ r' → v = w ∧ r = r'
  | .str s, w, r, r', _, _, h => by
      rcases render_head w with ⟨-, c, cs, hw, hc⟩ | ⟨t, rfl, -⟩ | ⟨-, -, cs, hw⟩ | ⟨-, -, cs, hw⟩
      · rw [hw] at h
        refine absurd h (head_ne ?_)
        rintro rfl
        exact absurd hc (by decide)
      · obtain ⟨rfl, hr⟩ := quote_append_inj h
        exact ⟨rfl, hr⟩
      · exact absurd (hw ▸ h) (head_ne (by decide))
      · exact absurd (hw ▸ h) (head_ne (by decide))
  | .arr xs, w, r, r', _, _, h => by
      rcases render_head w with ⟨-, c, cs, hw, hc⟩ | ⟨-, -, cs, hw⟩ | ⟨ys, rfl, -⟩ | ⟨-, -, cs, hw⟩
      · obtain ⟨ds, hv⟩ : ∃ ds, render (.arr xs) = '[' :: ds := by
          cases xs <;> exact ⟨_, rfl⟩
        rw [hw, hv] at h
        refine absurd h (head_ne ?_)
        rintro rfl
        exact absurd hc (by decide)
      · cases xs <;> exact absurd (hw ▸ h) (head_ne (by decide))
      · cases xs with
        | nil =>
            cases ys with
            | nil => exact ⟨rfl, by simpa [render] using h⟩
            | cons y ys =>
                simp only [render, List.cons_append, List.nil_append, List.append_assoc,
                  List.cons.injEq, true_and] at h
                exact absurd h.symm (render_ne_close y _ _)
        | cons x xs =>
            cases ys with
            | nil =>
                simp only [render, List.cons_append, List.nil_append, List.append_assoc,
                  List.cons.injEq, true_and] at h
                exact absurd h (render_ne_close x _ _)
            | cons y ys =>
                simp only [render, List.cons_append, List.append_assoc, List.cons.injEq,
                  true_and] at h
                obtain ⟨rfl, htail⟩ := render_append_inj x y (renderTail_delimited xs r)
                  (renderTail_delimited ys r') h
                obtain ⟨rfl, hr⟩ := renderTail_append_inj xs ys htail
                exact ⟨rfl, hr⟩
      · cases xs <;> exact absurd (hw ▸ h) (head_ne (by decide))
  | .obj [], w, r, r', _, _, h => by
      rcases render_head w with ⟨-, c, cs, hw, hc⟩ | ⟨-, -, cs, hw⟩ | ⟨-, -, cs, hw⟩ | ⟨ns, rfl, -⟩
      · rw [hw] at h
        refine absurd h (head_ne ?_)
        rintro rfl
        exact absurd hc (by decide)
      · exact absurd (hw ▸ h) (head_ne (by decide))
      · exact absurd (hw ▸ h) (head_ne (by decide))
      · rcases ns with _ | ⟨⟨l, y⟩, ns⟩
        · exact ⟨rfl, by simpa [render] using h⟩
        · simp [render, quote] at h
  | .obj ((k, x) :: ms), w, r, r', _, _, h => by
      rcases render_head w with ⟨-, c, cs, hw, hc⟩ | ⟨-, -, cs, hw⟩ | ⟨-, -, cs, hw⟩ | ⟨ns, rfl, -⟩
      · rw [hw] at h
        refine absurd h (head_ne ?_)
        rintro rfl
        exact absurd hc (by decide)
      · exact absurd (hw ▸ h) (head_ne (by decide))
      · exact absurd (hw ▸ h) (head_ne (by decide))
      · rcases ns with _ | ⟨⟨l, y⟩, ns⟩
        · simp [render, quote] at h
        · simp only [render, List.cons_append, List.append_assoc, List.cons.injEq, true_and] at h
          obtain ⟨rfl, hvalue⟩ := quote_append_inj h
          obtain ⟨rfl, htail⟩ := render_append_inj x y (renderMembers_delimited ms r)
            (renderMembers_delimited ns r') (List.cons.inj hvalue).2
          obtain ⟨rfl, hr⟩ := renderMembers_append_inj ms ns htail
          exact ⟨rfl, hr⟩
  | .null, w, _, _, hr, hr', h => scalar_append_inj rfl w hr hr' h
  | .bool _, w, _, _, hr, hr', h => scalar_append_inj rfl w hr hr' h
  | .int _, w, _, _, hr, hr', h => scalar_append_inj rfl w hr hr' h
  | .float _, w, _, _, hr, hr', h => scalar_append_inj rfl w hr hr' h

theorem renderTail_append_inj : ∀ (xs ys : List Json) {r r' : List Char},
    renderTail xs ++ r = renderTail ys ++ r' → xs = ys ∧ r = r'
  | [], [], _, _, h => ⟨rfl, by simpa [renderTail] using h⟩
  | [], _ :: _, _, _, h => by simp [renderTail] at h
  | _ :: _, [], _, _, h => by simp [renderTail] at h
  | x :: xs, y :: ys, r, r', h => by
      simp only [renderTail, List.cons_append, List.append_assoc, List.cons.injEq, true_and] at h
      obtain ⟨rfl, htail⟩ := render_append_inj x y (renderTail_delimited xs r)
        (renderTail_delimited ys r') h
      obtain ⟨rfl, hr⟩ := renderTail_append_inj xs ys htail
      exact ⟨rfl, hr⟩

theorem renderMembers_append_inj : ∀ (ms ns : List (String × Json)) {r r' : List Char},
    renderMembers ms ++ r = renderMembers ns ++ r' → ms = ns ∧ r = r'
  | [], [], _, _, h => ⟨rfl, by simpa [renderMembers] using h⟩
  | [], (_, _) :: _, _, _, h => by simp [renderMembers] at h
  | (_, _) :: _, [], _, _, h => by simp [renderMembers] at h
  | (k, x) :: ms, (l, y) :: ns, r, r', h => by
      simp only [renderMembers, List.cons_append, List.append_assoc, List.cons.injEq,
        true_and] at h
      obtain ⟨rfl, hvalue⟩ := quote_append_inj h
      obtain ⟨rfl, htail⟩ := render_append_inj x y (renderMembers_delimited ms r)
        (renderMembers_delimited ns r') (List.cons.inj hvalue).2
      obtain ⟨rfl, hr⟩ := renderMembers_append_inj ms ns htail
      exact ⟨rfl, hr⟩

end

theorem render_injective {v w : Json} (h : render v = render w) : v = w := by
  have hend : Delimited [] := by simp [Delimited]
  exact (render_append_inj v w hend hend (by simpa using h)).1

/-! ## Sorted keys -/

/-- Members in the order of their keys. -/
def sortMembers (ms : List (String × Json)) : List (String × Json) :=
  ms.insertionSort fun m n => m.1 ≤ n.1

mutual

/-- The members of every object in the order of their keys. -/
def Json.sortKeys : Json → Json
  | .arr xs => .arr (sortKeysList xs)
  | .obj ms => .obj (sortMembers (sortKeysMembers ms))
  | v => v

/-- `sortKeys` on every element. -/
def sortKeysList : List Json → List Json
  | [] => []
  | x :: xs => x.sortKeys :: sortKeysList xs

def sortKeysMembers : List (String × Json) → List (String × Json)
  | [] => []
  | (k, x) :: ms => (k, x.sortKeys) :: sortKeysMembers ms

end

/-- The text that is hashed and signed: compact, ASCII, sorted keys. -/
def canonical (v : Json) : String := String.ofList (render v.sortKeys)

/-- The same JSON value, up to the order of members. -/
def Json.SameValue (v w : Json) : Prop := v.sortKeys = w.sortKeys

theorem canonical_inj {v w : Json} : canonical v = canonical w ↔ v.SameValue w := by
  constructor
  · intro h
    have htext := congrArg String.toList h
    simp only [canonical, String.toList_ofList] at htext
    exact render_injective htext
  · intro h
    rw [canonical, canonical, h]

end Wcp.Base
