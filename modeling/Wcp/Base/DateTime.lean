import Wcp.Base.Json
/-!
# Dates and times

A date-time is a wall-clock reading in microseconds since the first day of
year 1, with or without an offset from UTC.  `isoformat` prints the calendar
fields, which `ord2ymd` computes by the interpreter's own cycles of 400, 100, 4
and 1 years.  Printing loses nothing (`isoformatNaive_injective`), so a signed
timestamp text fixes the instant.
-/

namespace Wcp.Base

def microsPerDay : Nat := 86400000000

/-- The first wall-clock reading after year 9999. -/
def maxMicros : Nat := 3652059 * microsPerDay

/-- A date-time; `offset` is the distance from UTC in microseconds, absent in a naive one. -/
structure DateTime where
  wall : Nat
  offset : Option Int
deriving DecidableEq

namespace DateTime

variable {ε : Type}

/-- A reading of the UTC clock. -/
def utc (micros : Nat) : DateTime := ⟨micros, some 0⟩

/-- `d.replace(tzinfo=timezone.utc)` where `d` is naive. -/
def assumeUtc (d : DateTime) : DateTime := if d.offset.isNone then ⟨d.wall, some 0⟩ else d

/-- The instant of an aware date-time, in microseconds of UTC. -/
def instant (d : DateTime) : Int := d.wall - d.offset.getD 0

/-- `d.astimezone(timezone.utc).replace(tzinfo=None)` for an aware date-time. -/
def toNaiveUtc (d : DateTime) : Except (PyErr ε) Nat :=
  if 0 ≤ d.instant ∧ d.instant < maxMicros then .ok d.instant.toNat else .error .overflowError

/-- `d - timedelta(microseconds=t)`. -/
def minus (d : DateTime) (t : Nat) : Except (PyErr ε) DateTime :=
  if t ≤ d.wall then .ok ⟨d.wall - t, d.offset⟩ else .error .overflowError

/-- `a - b` in microseconds; naive and aware do not mix. -/
def difference (a b : DateTime) : Except (PyErr ε) Int :=
  if a.offset.isSome = b.offset.isSome then .ok (a.instant - b.instant) else .error .typeError

/-- `a < b`. -/
def less (a b : DateTime) : Except (PyErr ε) Bool :=
  match (difference a b : Except (PyErr ε) Int) with
  | .ok t => .ok (decide (t < 0))
  | .error e => .error e

@[simp] theorem instant_utc (micros : Nat) : (utc micros).instant = micros := by
  simp [instant, utc]

@[simp] theorem isSome_offset_assumeUtc (d : DateTime) : d.assumeUtc.offset.isSome = true := by
  unfold assumeUtc
  split
  · rfl
  · next h => simpa [Option.isSome_iff_ne_none] using h

theorem less_aware {a b : DateTime} (ha : a.offset.isSome = true) (hb : b.offset.isSome = true) :
    (less a b : Except (PyErr ε) Bool) = .ok (decide (a.instant < b.instant)) := by
  rw [less, difference, if_pos (ha.trans hb.symm)]
  have hsides : a.instant - b.instant < 0 ↔ a.instant < b.instant := by omega
  simp only [hsides]

end DateTime

/-! ## Calendar -/

/-- Whether a year has a 29th of February. -/
def isLeap (y : Nat) : Bool := y % 4 == 0 && (y % 100 != 0 || y % 400 == 0)

/-- Days before the first of a month in a common year. -/
def daysBeforeMonth (m : Nat) : Nat :=
  [0, 0, 31, 59, 90, 120, 151, 181, 212, 243, 273, 304, 334].getD m 0

def daysBefore (m : Nat) (leap : Bool) : Nat :=
  daysBeforeMonth m + if m > 2 ∧ leap = true then 1 else 0

/-- Days before the first of January, counted from year 1. -/
def daysBeforeYear (year : Nat) : Nat :=
  let y := year - 1
  y * 365 + y / 4 - y / 100 + y / 400

/-- The month and the day of the `n`-th day of a year, from an estimate that is at
most one month too late. -/
def monthDay (leap : Bool) (n : Nat) : Nat × Nat :=
  let month := (n + 50) / 32
  if daysBefore month leap > n then (month - 1, n - daysBefore (month - 1) leap + 1)
  else (month, n - daysBefore month leap + 1)

/-- Year, month and day of the `n`-th day from the first of January of year 1. -/
def ord2ymd (n : Nat) : Nat × Nat × Nat :=
  let n400 := n / 146097
  let r400 := n % 146097
  let n100 := r400 / 36524
  let r100 := r400 % 36524
  let n4 := r100 / 1461
  let r4 := r100 % 1461
  let n1 := r4 / 365
  let r1 := r4 % 365
  let year := n400 * 400 + n100 * 100 + n4 * 4 + n1 + 1
  if n1 = 4 ∨ n100 = 4 then (year - 1, 12, 31)
  else (year, monthDay (decide (n1 = 3 ∧ (n4 ≠ 24 ∨ n100 = 3))) r1)

/-- The day number of a date: the inverse of `ord2ymd`. -/
def ymd2ord (d : Nat × Nat × Nat) : Nat :=
  daysBeforeYear d.1 + daysBefore d.2.1 (isLeap d.1) + d.2.2 - 1

theorem daysBefore_monthDay (leap : Bool) :
    ∀ n, n < 366 → daysBefore (monthDay leap n).1 leap + (monthDay leap n).2 = n + 1 := by
  cases leap <;> decide +kernel

theorem daysBeforeYear_cycles (a b c d : Nat) (hb : b ≤ 3) (hc : c ≤ 24) (hd : d ≤ 3) :
    daysBeforeYear (a * 400 + b * 100 + c * 4 + d + 1) =
      a * 146097 + b * 36524 + c * 1461 + d * 365 := by
  unfold daysBeforeYear
  have h4 : (a * 400 + b * 100 + c * 4 + d) / 4 = a * 100 + b * 25 + c := by omega
  have h100 : (a * 400 + b * 100 + c * 4 + d) / 100 = a * 4 + b := by omega
  have h400 : (a * 400 + b * 100 + c * 4 + d) / 400 = a := by omega
  simp only [Nat.add_sub_cancel, h4, h100, h400]
  omega

theorem isLeap_cycles (a b c d : Nat) (hb : b ≤ 3) (hc : c ≤ 24) (hd : d ≤ 3) :
    isLeap (a * 400 + b * 100 + c * 4 + d + 1) = decide (d = 3 ∧ (c ≠ 24 ∨ b = 3)) := by
  unfold isLeap
  rw [Bool.eq_iff_iff]
  simp only [Bool.and_eq_true, Bool.or_eq_true, beq_iff_eq, bne_iff_ne, decide_eq_true_eq]
  omega

theorem ymd2ord_ord2ymd (n : Nat) : ymd2ord (ord2ymd n) = n := by
  simp only [ord2ymd]
  generalize ha : n / 146097 = a
  generalize hr4 : n % 146097 = r400
  generalize hb : r400 / 36524 = b
  generalize hr1 : r400 % 36524 = r100
  generalize hc : r100 / 1461 = c
  generalize hr : r100 % 1461 = r4
  generalize hd : r4 / 365 = d
  generalize hs : r4 % 365 = s
  have hc24 : c ≤ 24 := by omega
  split_ifs with hend
  · -- the last day of a cycle: both remainders below it are zero
    have hsplit : (d = 4 ∧ b ≤ 3 ∧ s = 0 ∧ c ≤ 23) ∨ (b = 4 ∧ c = 0 ∧ d = 0 ∧ s = 0) := by omega
    rcases hsplit with ⟨rfl, hb3, rfl, hc23⟩ | ⟨rfl, rfl, rfl, rfl⟩
    · have hyear : a * 400 + b * 100 + c * 4 + 4 + 1 - 1 = a * 400 + b * 100 + c * 4 + 3 + 1 := by
        omega
      simp only [ymd2ord, hyear]
      rw [daysBeforeYear_cycles a b c 3 hb3 hc24 (by omega),
        isLeap_cycles a b c 3 hb3 hc24 (by omega)]
      have hleap : decide (3 = 3 ∧ (c ≠ 24 ∨ b = 3)) = true := by
        simp only [decide_eq_true_eq, true_and]
        omega
      rw [hleap, show daysBefore 12 true = 335 by decide]
      clear hyear hleap
      omega
    · have hyear : a * 400 + 4 * 100 + 0 * 4 + 0 + 1 - 1 = a * 400 + 3 * 100 + 24 * 4 + 3 + 1 := by
        omega
      simp only [ymd2ord, hyear]
      rw [daysBeforeYear_cycles a 3 24 3 (by omega) (by omega) (by omega),
        isLeap_cycles a 3 24 3 (by omega) (by omega) (by omega),
        show daysBefore 12 (decide (3 = 3 ∧ (24 ≠ 24 ∨ 3 = 3))) = 335 by decide]
      clear hyear
      omega
  · have hb3 : b ≤ 3 := by omega
    have hd3 : d ≤ 3 := by omega
    simp only [ymd2ord]
    rw [daysBeforeYear_cycles a b c d hb3 hc24 hd3, isLeap_cycles a b c d hb3 hc24 hd3]
    have hday := daysBefore_monthDay (decide (d = 3 ∧ (c ≠ 24 ∨ b = 3))) s (by omega)
    omega

/-! ## ISO 8601 text -/

/-- A number with at least `width` digits. -/
def padded (width n : Nat) : List Char :=
  List.replicate (width - (Nat.toDigits 10 n).length) '0' ++ Nat.toDigits 10 n

def dateText (n : Nat) : List Char :=
  let (y, m, d) := ord2ymd n
  padded 4 y ++ '-' :: (padded 2 m ++ '-' :: padded 2 d)

/-- The text of a time of day; a zero fraction is not printed. -/
def timeText (t : Nat) : List Char :=
  padded 2 (t / 3600000000) ++ ':' :: (padded 2 (t / 60000000 % 60) ++
    ':' :: (padded 2 (t / 1000000 % 60) ++
      if t % 1000000 = 0 then [] else '.' :: padded 6 (t % 1000000)))

/-- `d.isoformat()` of the naive date-time with the given wall-clock reading. -/
def isoformatNaive (micros : Nat) : String :=
  String.ofList (dateText (micros / microsPerDay) ++ 'T' :: timeText (micros % microsPerDay))

/-- The text of an offset from UTC; seconds are printed only when there are some. -/
def offsetText (o : Int) : List Char :=
  let t := o.natAbs
  (if o < 0 then '-' else '+') :: (padded 2 (t / 3600000000) ++
    ':' :: (padded 2 (t / 60000000 % 60) ++
      if t % 60000000 = 0 then [] else ':' :: (padded 2 (t / 1000000 % 60) ++
        if t % 1000000 = 0 then [] else '.' :: padded 6 (t % 1000000))))

def DateTime.isoformat (d : DateTime) : String :=
  match d.offset with
  | none => isoformatNaive d.wall
  | some o => isoformatNaive d.wall ++ String.ofList (offsetText o)

theorem DateTime.isoformat_ne_empty (d : DateTime) : d.isoformat ≠ "" := by
  have hnaive : 'T' ∈ (isoformatNaive d.wall).toList := by
    rw [isoformatNaive, String.toList_ofList]
    exact List.mem_append_right _ List.mem_cons_self
  have hmem : 'T' ∈ d.isoformat.toList := by
    unfold DateTime.isoformat
    split
    · exact hnaive
    · rw [String.toList_append]
      exact List.mem_append_left _ hnaive
  intro hempty
  rw [hempty] at hmem
  cases hmem

theorem padded_isDigit {width n : Nat} {c : Char} (h : c ∈ padded width n) :
    c.isDigit = true := by
  rcases List.mem_append.mp h with h | h
  · rw [(List.mem_replicate.mp h).2]
    decide
  · exact Nat.isDigit_of_mem_toDigits (by decide) (by decide) h

theorem ofDigitChars_padded (width n : Nat) : Nat.ofDigitChars 10 (padded width n) 0 = n := by
  have hzeros : ∀ k (cs : List Char),
      Nat.ofDigitChars 10 (List.replicate k '0' ++ cs) 0 = Nat.ofDigitChars 10 cs 0 := by
    intro k cs
    induction k with
    | zero => rfl
    | succ k ih => simpa [List.replicate_succ, Nat.ofDigitChars_cons] using ih
  rw [padded, hzeros, Nat.ofDigitChars_ten_toDigits]

theorem padded_injective {width m n : Nat} (h : padded width m = padded width n) : m = n := by
  rw [← ofDigitChars_padded width m, h, ofDigitChars_padded]

theorem padded_append_inj {width m n : Nat} {c : Char} {r r' : List Char}
    (hc : c.isDigit = false) (h : padded width m ++ c :: r = padded width n ++ c :: r') :
    m = n ∧ r = r' := by
  have hsplit : ∀ (w k : Nat) (s : List Char),
      (padded w k ++ c :: s).takeWhile Char.isDigit = padded w k := by
    intro w k s
    rw [List.takeWhile_append_of_pos (fun x hx => padded_isDigit hx)]
    simp [hc]
  have htake := congrArg (List.takeWhile Char.isDigit) h
  rw [hsplit, hsplit] at htake
  rw [htake] at h
  exact ⟨padded_injective htake, (List.cons.inj (List.append_cancel_left h)).2⟩

private theorem padded_ne_fraction (width m n : Nat) (r : List Char) :
    padded width m ++ [] ≠ padded width n ++ '.' :: r := by
  intro h
  have hdot : '.' ∈ padded width m := by
    rw [← List.append_nil (padded width m), h]
    exact List.mem_append_right _ List.mem_cons_self
  exact absurd (padded_isDigit hdot) (by decide)

theorem timeText_injective {s t : Nat} (h : timeText s = timeText t) : s = t := by
  unfold timeText at h
  obtain ⟨hhour, h⟩ := padded_append_inj (by decide) h
  obtain ⟨hminute, h⟩ := padded_append_inj (by decide) h
  have hsecond : s / 1000000 % 60 = t / 1000000 % 60 ∧ s % 1000000 = t % 1000000 := by
    split_ifs at h with hs ht ht
    · simp only [List.append_nil] at h
      exact ⟨padded_injective h, by omega⟩
    · exact absurd h (padded_ne_fraction _ _ _ _)
    · exact absurd h.symm (padded_ne_fraction _ _ _ _)
    · obtain ⟨hsec, hfrac⟩ := padded_append_inj (by decide) h
      exact ⟨hsec, padded_injective hfrac⟩
  omega

theorem isoformatNaive_injective {s t : Nat} (h : isoformatNaive s = isoformatNaive t) :
    s = t := by
  have htext := congrArg String.toList h
  simp only [isoformatNaive, String.toList_ofList, dateText, List.append_assoc,
    List.cons_append] at htext
  obtain ⟨hyear, htext⟩ := padded_append_inj (by decide) htext
  obtain ⟨hmonth, htext⟩ := padded_append_inj (by decide) htext
  obtain ⟨hday, htext⟩ := padded_append_inj (by decide) htext
  have hdate : s / microsPerDay = t / microsPerDay := by
    rw [← ymd2ord_ord2ymd (s / microsPerDay), ← ymd2ord_ord2ymd (t / microsPerDay)]
    exact congrArg ymd2ord (Prod.ext hyear (Prod.ext hmonth hday))
  have htime := timeText_injective htext
  rw [← Nat.div_add_mod s microsPerDay, hdate, htime, Nat.div_add_mod]

end Wcp.Base
