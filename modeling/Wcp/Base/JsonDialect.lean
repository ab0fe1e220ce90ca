import Wcp.Base.JsonOrder
/-!
# Dialects of canonical JSON

Compact JSON with sorted keys leaves two things open: how a character is escaped
in a string, and by which units keys are compared.  A `Dialect` fixes both.  Two
dialects that treat the characters of a value alike write it alike
(`text_congr`); whatever the dialect, the characters of the text are the brackets
and scalars of the syntax and the escapes of the characters of the value
(`forall_mem_text`, `mem_text`).  The canonical text is one of the dialects
(`canonical_eq_text`).
-/

namespace Wcp.Base

/-- How characters are written in strings, and how they count in the comparison of keys. -/
structure Dialect where
  escape : Char → List Char
  units : Char → List Nat

mutual

/-- The characters of the strings and keys of a value. -/
def Json.chars : Json → List Char
  | .str s => s.toList
  | .arr xs => charsList xs
  | .obj ms => charsMembers ms
  | _ => []

/-- `chars` of every element. -/
def charsList : List Json → List Char
  | [] => []
  | x :: xs => x.chars ++ charsList xs

def charsMembers : List (String × Json) → List Char
  | [] => []
  | (k, x) :: ms => k.toList ++ (x.chars ++ charsMembers ms)

end

/-- Texts with commas between them. -/
def commaSeparated : List (List Char) → List Char
  | [] => []
  | t :: ts => t ++ ts.flatMap fun u => ',' :: u

namespace Dialect

variable (d : Dialect)

/-- A string literal. -/
def quote (s : String) : List Char := '"' :: (s.toList.flatMap d.escape ++ ['"'])

def keyUnits (key : String) : List Nat := key.toList.flatMap d.units

/-- The members of an object, values written out, in the order of their keys. -/
def sorted (ms : List (String × List Char)) : List (String × List Char) :=
  ms.insertionSort fun m n => d.keyUnits m.1 ≤ d.keyUnits n.1

def member (m : String × List Char) : List Char := d.quote m.1 ++ ':' :: m.2

mutual

def text : Json → List Char
  | .str s => d.quote s
  | .arr xs => '[' :: (commaSeparated (texts xs) ++ [']'])
  | .obj ms => '{' :: (commaSeparated ((d.sorted (memberTexts ms)).map d.member) ++ ['}'])
  | .null => scalarText .null
  | .bool b => scalarText (.bool b)
  | .int i => scalarText (.int i)
  | .float f => scalarText (.float f)

/-- `text` of every element. -/
def texts : List Json → List (List Char)
  | [] => []
  | x :: xs => text x :: texts xs

def memberTexts : List (String × Json) → List (String × List Char)
  | [] => []
  | (k, x) :: ms => (k, text x) :: memberTexts ms

end

end Dialect

/-! ## Dialects that agree -/

section Congruence

variable {d d' : Dialect}

theorem quote_congr {s : String} (h : ∀ c ∈ s.toList, d.escape c = d'.escape c) :
    d.quote s = d'.quote s := by
  have hbody : s.toList.flatMap d.escape = s.toList.flatMap d'.escape := List.flatMap_congr h
  rw [Dialect.quote, Dialect.quote, hbody]

theorem sorted_congr {ms : List (String × List Char)}
    (h : ∀ m ∈ ms, d.keyUnits m.1 = d'.keyUnits m.1) : d.sorted ms = d'.sorted ms := by
  have hmap := List.map_insertionSort (fun m n => d.keyUnits m.1 ≤ d.keyUnits n.1)
    (fun m n => d'.keyUnits m.1 ≤ d'.keyUnits n.1) id ms (fun m hm n hn => by
      rw [h m hm, h n hn]
      rfl)
  rw [List.map_id, List.map_id] at hmap
  exact hmap

theorem memberTexts_keys (ms : List (String × Json)) :
    (d.memberTexts ms).map (·.1) = ms.map (·.1) := by
  induction ms with
  | nil => rfl
  | cons m ms ih =>
      obtain ⟨k, x⟩ := m
      rw [Dialect.memberTexts, List.map_cons, List.map_cons, ih]

theorem key_chars {ms : List (String × Json)} {k : String} (hk : k ∈ ms.map (·.1)) :
    ∀ c ∈ k.toList, c ∈ charsMembers ms := by
  induction ms with
  | nil => cases hk
  | cons m ms ih =>
      obtain ⟨l, x⟩ := m
      rw [List.map_cons] at hk
      intro c hc
      rw [charsMembers, List.mem_append, List.mem_append]
      rcases List.mem_cons.1 hk with rfl | hk
      · exact .inl hc
      · exact .inr (.inr (ih hk c hc))

mutual

/-- Dialects that treat the characters of a value alike write it alike. -/
theorem text_congr : ∀ v : Json,
    (∀ c ∈ v.chars, d.escape c = d'.escape c ∧ d.units c = d'.units c) → d.text v = d'.text v
  | .str s, h => quote_congr fun c hc => (h c hc).1
  | .arr xs, h => by rw [Dialect.text, Dialect.text, texts_congr xs h]
  | .obj ms, h => by
      have hkey : ∀ m ∈ d'.memberTexts ms, ∀ c ∈ m.1.toList,
          d.escape c = d'.escape c ∧ d.units c = d'.units c := by
        intro m hm c hc
        have hk : m.1 ∈ ms.map (·.1) := memberTexts_keys ms ▸ List.mem_map_of_mem hm
        exact h c (key_chars hk c hc)
      have hsorted : d.sorted (d'.memberTexts ms) = d'.sorted (d'.memberTexts ms) :=
        sorted_congr fun m hm => List.flatMap_congr fun c hc => (hkey m hm c hc).2
      have hmembers : (d'.sorted (d'.memberTexts ms)).map d.member =
          (d'.sorted (d'.memberTexts ms)).map d'.member := by
        refine List.map_congr_left fun m hm => ?_
        have hm : m ∈ d'.memberTexts ms := (List.mem_insertionSort _).1 hm
        rw [Dialect.member, Dialect.member, quote_congr fun c hc => (hkey m hm c hc).1]
      rw [Dialect.text, Dialect.text, memberTexts_congr ms h, hsorted, hmembers]
  | .null, _ => rfl
  | .bool _, _ => rfl
  | .int _, _ => rfl
  | .float _, _ => rfl

theorem texts_congr : ∀ xs : List Json,
    (∀ c ∈ charsList xs, d.escape c = d'.escape c ∧ d.units c = d'.units c) →
    d.texts xs = d'.texts xs
  | [], _ => rfl
  | x :: xs, h => by
      rw [Dialect.texts, Dialect.texts, text_congr x fun c hc => h c (List.mem_append_left _ hc),
        texts_congr xs fun c hc => h c (List.mem_append_right _ hc)]

theorem memberTexts_congr : ∀ ms : List (String × Json),
    (∀ c ∈ charsMembers ms, d.escape c = d'.escape c ∧ d.units c = d'.units c) →
    d.memberTexts ms = d'.memberTexts ms
  | [], _ => rfl
  | (k, x) :: ms, h => by
      have hrest : ∀ c ∈ x.chars ++ charsMembers ms,
          d.escape c = d'.escape c ∧ d.units c = d'.units c :=
        fun c hc => h c (List.mem_append_right _ hc)
      rw [Dialect.memberTexts, Dialect.memberTexts,
        text_congr x fun c hc => hrest c (List.mem_append_left _ hc),
        memberTexts_congr ms fun c hc => hrest c (List.mem_append_right _ hc)]

end

end Congruence

/-! ## The characters of a text -/

section Characters

variable {d : Dialect}

theorem mem_commaSeparated {ts : List (List Char)} {t : List Char} (ht : t ∈ ts) :
    ∀ c ∈ t, c ∈ commaSeparated ts := by
  intro c hc
  cases ts with
  | nil => cases ht
  | cons u us =>
      rw [commaSeparated, List.mem_append, List.mem_flatMap]
      rcases List.mem_cons.1 ht with rfl | ht
      · exact .inl hc
      · exact .inr ⟨t, ht, List.mem_cons_of_mem _ hc⟩

theorem of_mem_commaSeparated {ts : List (List Char)} {c : Char} (hc : c ∈ commaSeparated ts) :
    c = ',' ∨ ∃ t ∈ ts, c ∈ t := by
  cases ts with
  | nil => cases hc
  | cons u us =>
      rw [commaSeparated, List.mem_append, List.mem_flatMap] at hc
      rcases hc with hc | ⟨t, ht, hc⟩
      · exact .inr ⟨u, List.mem_cons_self, hc⟩
      · rcases List.mem_cons.1 hc with rfl | hc
        · exact .inl rfl
        · exact .inr ⟨t, List.mem_cons_of_mem _ ht, hc⟩

theorem mem_quote {s : String} {c x : Char} (hc : c ∈ s.toList) (hx : x ∈ d.escape c) :
    x ∈ d.quote s :=
  List.mem_cons_of_mem _ (List.mem_append_left _ (List.mem_flatMap.2 ⟨c, hc, hx⟩))

theorem mem_member_text {ms : List (String × Json)} {m : String × List Char}
    (hm : m ∈ d.memberTexts ms) {x : Char} (hx : x ∈ d.member m) : x ∈ d.text (.obj ms) := by
  have hsorted : m ∈ d.sorted (d.memberTexts ms) := (List.mem_insertionSort _).2 hm
  rw [Dialect.text]
  exact List.mem_cons_of_mem _ (List.mem_append_left _
    (mem_commaSeparated (List.mem_map_of_mem hsorted) x hx))

mutual

theorem mem_text : ∀ (v : Json) {c x : Char}, c ∈ v.chars → x ∈ d.escape c → x ∈ d.text v
  | .str s, _, _, hc, hx => mem_quote hc hx
  | .arr xs, _, x, hc, hx => by
      obtain ⟨t, ht, hmem⟩ := mem_texts xs hc hx
      rw [Dialect.text]
      exact List.mem_cons_of_mem _ (List.mem_append_left _ (mem_commaSeparated ht x hmem))
  | .obj ms, _, _, hc, hx => by
      obtain ⟨m, hm, hmem⟩ := mem_memberTexts ms hc hx
      exact mem_member_text hm hmem
  | .null, _, _, hc, _ => by cases hc
  | .bool _, _, _, hc, _ => by cases hc
  | .int _, _, _, hc, _ => by cases hc
  | .float _, _, _, hc, _ => by cases hc

theorem mem_texts : ∀ (xs : List Json) {c x : Char}, c ∈ charsList xs → x ∈ d.escape c →
    ∃ t ∈ d.texts xs, x ∈ t
  | [], _, _, hc, _ => by cases hc
  | y :: xs, _, _, hc, hx => by
      rw [Dialect.texts]
      rcases List.mem_append.1 hc with hc | hc
      · exact ⟨_, List.mem_cons_self, mem_text y hc hx⟩
      · obtain ⟨t, ht, hmem⟩ := mem_texts xs hc hx
        exact ⟨t, List.mem_cons_of_mem _ ht, hmem⟩

theorem mem_memberTexts : ∀ (ms : List (String × Json)) {c x : Char}, c ∈ charsMembers ms →
    x ∈ d.escape c → ∃ m ∈ d.memberTexts ms, x ∈ d.member m
  | [], _, _, hc, _ => by cases hc
  | (k, y) :: ms, _, _, hc, hx => by
      rw [Dialect.memberTexts]
      rcases List.mem_append.1 hc with hc | hc
      · exact ⟨_, List.mem_cons_self, List.mem_append_left _ (mem_quote hc hx)⟩
      · rcases List.mem_append.1 hc with hc | hc
        · exact ⟨_, List.mem_cons_self,
            List.mem_append_right _ (List.mem_cons_of_mem _ (mem_text y hc hx))⟩
        · obtain ⟨m, hm, hmem⟩ := mem_memberTexts ms hc hx
          exact ⟨m, List.mem_cons_of_mem _ hm, hmem⟩

end

/-- The characters of everything but the contents of strings. -/
def syntaxChars : List Char := "\"[]{}:,nulltruefalse".toList ++ floatChars

theorem digit_mem_floatChars {c : Char} (h : c.isDigit = true) : c ∈ floatChars := by
  have hall : ∀ n, n < 10 → Char.ofNat (48 + n) ∈ floatChars := by decide
  have hrange : 48 ≤ c.toNat ∧ c.toNat ≤ 57 := by
    simpa [Char.isDigit, UInt32.le_iff_toNat_le] using h
  have hmem := hall (c.toNat - 48) (by omega)
  rwa [Nat.add_sub_cancel' hrange.1, Char.ofNat_toNat] at hmem

theorem mem_syntaxChars_of_scalar (v : Json) {c : Char} (hc : c ∈ scalarText v) :
    c ∈ syntaxChars := by
  have hkeyword : ∀ {s : List Char}, (s.all fun x => syntaxChars.contains x) = true → c ∈ s →
      c ∈ syntaxChars := by
    intro s hs hmem
    exact List.contains_iff_mem.1 (List.all_eq_true.1 hs c hmem)
  cases v with
  | null => exact hkeyword (by decide) hc
  | bool b => cases b <;> exact hkeyword (by decide) hc
  | int i =>
      rcases mem_intText hc with hdigit | rfl
      · exact List.mem_append_right _ (digit_mem_floatChars hdigit)
      · decide
  | float f => exact List.mem_append_right _ ((floatText_spec f).1 c hc)
  | str s => cases hc
  | arr xs => cases hc
  | obj ms => cases hc

variable {P : Char → Prop}

theorem forall_mem_quote (hplain : ∀ c ∈ syntaxChars, P c) (hescape : ∀ c, ∀ x ∈ d.escape c, P x)
    (s : String) : ∀ x ∈ d.quote s, P x := by
  intro x hx
  rcases List.mem_cons.1 hx with rfl | hx
  · exact hplain _ (by decide)
  · rcases List.mem_append.1 hx with hx | hx
    · obtain ⟨c, -, hx⟩ := List.mem_flatMap.1 hx
      exact hescape c x hx
    · exact hplain _ (List.mem_singleton.1 hx ▸ by decide)

mutual

/-- The text has no other characters than those of the syntax and those of the escapes. -/
theorem forall_mem_text (hplain : ∀ c ∈ syntaxChars, P c)
    (hescape : ∀ c, ∀ x ∈ d.escape c, P x) : ∀ v : Json, ∀ x ∈ d.text v, P x
  | .str s, x, hx => forall_mem_quote hplain hescape s x hx
  | .arr xs, x, hx => by
      rw [Dialect.text] at hx
      rcases List.mem_cons.1 hx with rfl | hx
      · exact hplain _ (by decide)
      · rcases List.mem_append.1 hx with hx | hx
        · rcases of_mem_commaSeparated hx with rfl | ⟨t, ht, hx⟩
          · exact hplain _ (by decide)
          · exact forall_mem_texts hplain hescape xs t ht x hx
        · exact hplain _ (List.mem_singleton.1 hx ▸ by decide)
  | .obj ms, x, hx => by
      rw [Dialect.text] at hx
      rcases List.mem_cons.1 hx with rfl | hx
      · exact hplain _ (by decide)
      · rcases List.mem_append.1 hx with hx | hx
        · rcases of_mem_commaSeparated hx with rfl | ⟨t, ht, hx⟩
          · exact hplain _ (by decide)
          · obtain ⟨m, hm, rfl⟩ := List.mem_map.1 ht
            have hm : m ∈ d.memberTexts ms := (List.mem_insertionSort _).1 hm
            rcases List.mem_append.1 hx with hx | hx
            · exact forall_mem_quote hplain hescape m.1 x hx
            · rcases List.mem_cons.1 hx with rfl | hx
              · exact hplain _ (by decide)
              · exact forall_mem_memberTexts hplain hescape ms m hm x hx
        · exact hplain _ (List.mem_singleton.1 hx ▸ by decide)
  | .null, x, hx => hplain x (mem_syntaxChars_of_scalar .null hx)
  | .bool b, x, hx => hplain x (mem_syntaxChars_of_scalar (.bool b) hx)
  | .int i, x, hx => hplain x (mem_syntaxChars_of_scalar (.int i) hx)
  | .float f, x, hx => hplain x (mem_syntaxChars_of_scalar (.float f) hx)

theorem forall_mem_texts (hplain : ∀ c ∈ syntaxChars, P c)
    (hescape : ∀ c, ∀ x ∈ d.escape c, P x) :
    ∀ xs : List Json, ∀ t ∈ d.texts xs, ∀ x ∈ t, P x
  | [], t, ht => by cases ht
  | y :: xs, t, ht => by
      rw [Dialect.texts] at ht
      rcases List.mem_cons.1 ht with rfl | ht
      · exact forall_mem_text hplain hescape y
      · exact forall_mem_texts hplain hescape xs t ht

theorem forall_mem_memberTexts (hplain : ∀ c ∈ syntaxChars, P c)
    (hescape : ∀ c, ∀ x ∈ d.escape c, P x) :
    ∀ ms : List (String × Json), ∀ m ∈ d.memberTexts ms, ∀ x ∈ m.2, P x
  | [], m, hm => by cases hm
  | (k, y) :: ms, m, hm => by
      rw [Dialect.memberTexts] at hm
      rcases List.mem_cons.1 hm with rfl | hm
      · exact forall_mem_text hplain hescape y
      · exact forall_mem_memberTexts hplain hescape ms m hm

end

end Characters

/-! ## The canonical text -/

/-- Python's dialect: every character outside printable ASCII is escaped, and keys are compared by
code points. -/
def pythonDialect : Dialect where
  escape := escapeChar
  units c := [c.toNat]

theorem escapeChars_eq (cs : List Char) : escapeChars cs = cs.flatMap escapeChar ++ ['"'] := by
  induction cs with
  | nil => rfl
  | cons c cs ih => rw [escapeChars, ih, List.flatMap_cons, List.append_assoc]

theorem quote_eq (s : String) : quote s = pythonDialect.quote s := by
  rw [quote, escapeChars_eq]
  rfl

theorem renderTail_eq (xs : List Json) :
    renderTail xs = (xs.map render).flatMap (fun t => ',' :: t) ++ [']'] := by
  induction xs with
  | nil => rfl
  | cons x xs ih =>
      rw [renderTail, ih, List.map_cons, List.flatMap_cons]
      simp

theorem render_arr (xs : List Json) :
    render (.arr xs) = '[' :: (commaSeparated (xs.map render) ++ [']']) := by
  cases xs with
  | nil => rfl
  | cons x xs => rw [render, renderTail_eq, List.map_cons, commaSeparated, List.append_assoc]

/-- A member with its value written out. -/
def renderMember (m : String × Json) : String × List Char := (m.1, render m.2)

theorem renderMembers_eq (ms : List (String × Json)) :
    renderMembers ms =
      ((ms.map renderMember).map pythonDialect.member).flatMap (fun t => ',' :: t) ++ ['}'] := by
  induction ms with
  | nil => rfl
  | cons m ms ih =>
      obtain ⟨k, x⟩ := m
      rw [renderMembers, ih, List.map_cons, List.map_cons, List.flatMap_cons, quote_eq]
      simp [Dialect.member, renderMember]

theorem render_obj (ms : List (String × Json)) :
    render (.obj ms) =
      '{' :: (commaSeparated ((ms.map renderMember).map pythonDialect.member) ++ ['}']) := by
  cases ms with
  | nil => rfl
  | cons m ms =>
      obtain ⟨k, x⟩ := m
      rw [render, renderMembers_eq, List.map_cons, List.map_cons, commaSeparated, quote_eq]
      simp [Dialect.member, renderMember]

theorem map_toNat_lt_iff (cs ds : List Char) :
    cs.map Char.toNat < ds.map Char.toNat ↔ cs < ds := by
  induction cs generalizing ds with
  | nil => cases ds <;> simp
  | cons c cs ih =>
      cases ds with
      | nil => simp
      | cons d ds =>
          rw [List.map_cons, List.map_cons, List.cons_lt_cons_iff, List.cons_lt_cons_iff, ih,
            Char.toNat_inj]
          exact Iff.rfl

theorem keyUnits_le_iff (s t : String) :
    pythonDialect.keyUnits s ≤ pythonDialect.keyUnits t ↔ s ≤ t := by
  have hunits : ∀ u : String, pythonDialect.keyUnits u = u.toList.map Char.toNat :=
    fun u => List.flatMap_pure_eq_map Char.toNat u.toList
  rw [hunits, hunits, String.le_iff_toList_le, ← not_lt, ← not_lt, map_toNat_lt_iff]

mutual

theorem render_sortKeys : ∀ v : Json, render v.sortKeys = pythonDialect.text v
  | .str s => quote_eq s
  | .arr xs => by rw [Json.sortKeys, render_arr, Dialect.text, renderList_sortKeys xs]
  | .obj ms => by
      have hsorted : (sortMembers (sortKeysMembers ms)).map renderMember =
          pythonDialect.sorted (pythonDialect.memberTexts ms) := by
        rw [sortMembers, Dialect.sorted, ← renderMembers_sortKeys ms]
        exact List.map_insertionSort _ _ _ _ fun m _ n _ => (keyUnits_le_iff m.1 n.1).symm
      rw [Json.sortKeys, render_obj, hsorted, Dialect.text]
  | .null => rfl
  | .bool _ => rfl
  | .int _ => rfl
  | .float _ => rfl

theorem renderList_sortKeys : ∀ xs : List Json,
    (sortKeysList xs).map render = pythonDialect.texts xs
  | [] => rfl
  | x :: xs => by
      rw [sortKeysList, List.map_cons, Dialect.texts, render_sortKeys x, renderList_sortKeys xs]

theorem renderMembers_sortKeys : ∀ ms : List (String × Json),
    (sortKeysMembers ms).map renderMember = pythonDialect.memberTexts ms
  | [] => rfl
  | (k, x) :: ms => by
      rw [sortKeysMembers, List.map_cons, Dialect.memberTexts, renderMember, render_sortKeys x,
        renderMembers_sortKeys ms]

end

theorem canonical_eq_text (v : Json) : canonical v = String.ofList (pythonDialect.text v) := by
  rw [canonical, render_sortKeys]

end Wcp.Base
