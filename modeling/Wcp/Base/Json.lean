import Mathlib.Algebra.Group.Int.Defs
import Mathlib.Data.List.Infix
import Mathlib.Data.List.Sort
import Mathlib.Data.String.Basic
/-!
# JSON values as a dynamically typed program sees them

A handler that receives parsed JSON may call `.get` on a list, test membership
in a string or convert a list to a number; nothing checks the shape beforehand.
This module gives JSON values the operations of the Python types they are parsed
into, each of which returns a value or raises the exception the interpreter
raises.

An object keeps its members in insertion order.  A float is identified by its
shortest decimal text, which determines it; its numeric value is that text
rounded to a double.
-/

namespace Wcp.Base

/-- The interpreter's own exceptions, and those (`raised`) a program defines. -/
inductive PyErr (ε : Type) where
  | attributeError
  | typeError
  | keyError
  | overflowError
  | valueError (message : String)
  | raised (e : ε)
deriving DecidableEq

/-! ## Floats -/

def floatChars : List Char := "+-.0123456789INaefinty".toList

/-- A text that the interpreter can print for a float: never that of an integer. -/
def isFloatText (cs : List Char) : Bool :=
  cs.all (fun c => floatChars.contains c) &&
    cs.any (fun c => !c.isDigit && c != '-') &&
    match cs with
    | c :: _ => c.isDigit || c == '-' || c == 'N' || c == 'I'
    | [] => false

/-- A float, given by the text the interpreter prints for it. -/
structure PyFloat where
  text : String
  isText : isFloatText text.toList = true
deriving DecidableEq

/-- The number a float stands for. -/
inductive FloatValue where
  | nan
  | inf (negative : Bool)
  | fin (q : Rat)
deriving DecidableEq

/-- `n / d` to the nearest natural number, ties to even. -/
def roundHalfEven (n d : Nat) : Nat :=
  let k := n / d
  let r := n % d
  if 2 * r < d then k
  else if d < 2 * r then k + 1
  else if k % 2 = 0 then k else k + 1

/-- The number `n * 2 ^ u`. -/
def scaleTwo (n : Int) (u : Int) : Rat :=
  if 0 ≤ u then mkRat (n * 2 ^ u.toNat) 1 else mkRat n (2 ^ (-u).toNat)

/-- Round to a double: 53 significant bits, ties to even, subnormals below `2 ^ -1022`. -/
def roundDouble (q : Rat) : Rat :=
  let n := q.num.natAbs
  let d := q.den
  let e : Int := (n.log2 : Int) - (d.log2 : Int)
  let below := if 0 ≤ e then n < d * 2 ^ e.toNat else n * 2 ^ (-e).toNat < d
  let u : Int := max ((if below then e - 1 else e) - 52) (-1074)
  let k := if 0 ≤ u then roundHalfEven n (d * 2 ^ u.toNat)
    else roundHalfEven (n * 2 ^ (-u).toNat) d
  scaleTwo (if q.num < 0 then -(k : Int) else k) u

/-- The value of a decimal text such as `-12.5e-07`. -/
def decimalValue (cs : List Char) : Rat :=
  let negative := cs.head? = some '-'
  let body := if negative then cs.tail else cs
  let mantissa := body.takeWhile (· ≠ 'e')
  let exponent := body.drop (mantissa.length + 1)
  let whole := mantissa.takeWhile (· ≠ '.')
  let fraction := mantissa.drop (whole.length + 1)
  let shift : Int :=
    (if exponent.head? = some '-' then -(Nat.ofDigitChars 10 exponent.tail 0 : Int)
      else (Nat.ofDigitChars 10 (exponent.dropWhile (· = '+')) 0 : Int)) - fraction.length
  let n : Int := Nat.ofDigitChars 10 (whole ++ fraction) 0
  let n := if negative then -n else n
  if 0 ≤ shift then mkRat (n * 10 ^ shift.toNat) 1 else mkRat n (10 ^ (-shift).toNat)

/-- The number a float stands for. -/
def PyFloat.value (f : PyFloat) : FloatValue :=
  if f.text = "NaN" then .nan
  else if f.text = "Infinity" then .inf false
  else if f.text = "-Infinity" then .inf true
  else .fin (roundDouble (decimalValue f.text.toList))

/-! ## Values -/

/-- A parsed JSON value. -/
inductive Json where
  | null
  | bool (b : Bool)
  | int (i : Int)
  | float (f : PyFloat)
  | str (s : String)
  | arr (xs : List Json)
  | obj (ms : List (String × Json))

namespace Json

instance : Inhabited Json := ⟨.null⟩

mutual

/-- Structural equality of values, members in order. -/
def beq : Json → Json → Bool
  | .null, .null => true
  | .bool a, .bool b => a == b
  | .int a, .int b => a == b
  | .float a, .float b => a == b
  | .str a, .str b => a == b
  | .arr xs, .arr ys => beqList xs ys
  | .obj ms, .obj ns => beqMembers ms ns
  | _, _ => false

/-- Structural equality of arrays. -/
def beqList : List Json → List Json → Bool
  | [], [] => true
  | x :: xs, y :: ys => x.beq y && beqList xs ys
  | _, _ => false

/-- Structural equality of member lists. -/
def beqMembers : List (String × Json) → List (String × Json) → Bool
  | [], [] => true
  | (k, x) :: ms, (l, y) :: ns => k == l && x.beq y && beqMembers ms ns
  | _, _ => false

end

mutual

theorem beq_iff : ∀ a b : Json, a.beq b = true ↔ a = b
  | .null, b => by cases b <;> simp [beq]
  | .bool _, b => by cases b <;> simp [beq]
  | .int _, b => by cases b <;> simp [beq]
  | .float _, b => by cases b <;> simp [beq]
  | .str _, b => by cases b <;> simp [beq]
  | .arr xs, b => by cases b <;> simp [beq, beqList_iff xs]
  | .obj ms, b => by cases b <;> simp [beq, beqMembers_iff ms]

theorem beqList_iff : ∀ xs ys : List Json, beqList xs ys = true ↔ xs = ys
  | [], ys => by cases ys <;> simp [beqList]
  | x :: xs, ys => by cases ys <;> simp [beqList, beq_iff x, beqList_iff xs]

theorem beqMembers_iff : ∀ ms ns : List (String × Json), beqMembers ms ns = true ↔ ms = ns
  | [], ns => by cases ns <;> simp [beqMembers]
  | (k, x) :: ms, ns => by
      rcases ns with _ | ⟨⟨l, y⟩, ns⟩ <;> simp [beqMembers, beq_iff x, beqMembers_iff ms]

end

instance : DecidableEq Json := fun a b => decidable_of_iff (a.beq b = true) (beq_iff a b)

/-- The numeric value of a number or a boolean. -/
def numeric : Json → Option FloatValue
  | .bool b => some (.fin (if b then 1 else 0))
  | .int i => some (.fin i)
  | .float f => some f.value
  | _ => none

/-- `bool(v)`. -/
def truthy : Json → Bool
  | .null => false
  | .bool b => b
  | .int i => i != 0
  | .float f => f.value != .fin 0
  | .str s => s != ""
  | .arr xs => !xs.isEmpty
  | .obj ms => !ms.isEmpty

/-- `v or d`. -/
def or (v d : Json) : Json := if v.truthy then v else d

theorem or_obj (ms : List (String × Json)) : (obj ms).or (.obj []) = .obj ms := by
  cases ms <;> rfl

/-- Whether `hash(v)` succeeds. -/
def hashable : Json → Bool
  | .arr _ => false
  | .obj _ => false
  | _ => true

/-- `isinstance(v, int)`, which booleans satisfy, with the integer. -/
def asInt : Json → Option Int
  | .bool b => some (if b then 1 else 0)
  | .int i => some i
  | _ => none

/-- `v == w` on numbers; a NaN equals nothing. -/
def numericEq (a b : FloatValue) : Bool := a == b && a != .nan

mutual

/-- `v == w`: numbers by value, objects up to the order of members. -/
def pyEq : Json → Json → Bool
  | .null, w => w == .null
  | .str s, w => w == .str s
  | .arr xs, .arr ys => pyEqList xs ys
  | .obj ms, .obj ns => ms.length == ns.length && pyEqMembers ms ns
  | .bool b, w =>
      match w.numeric with
      | some y => numericEq (.fin (if b then 1 else 0)) y
      | none => false
  | .int i, w =>
      match w.numeric with
      | some y => numericEq (.fin i) y
      | none => false
  | .float f, w =>
      match w.numeric with
      | some y => numericEq f.value y
      | none => false
  | _, _ => false

/-- `v == w` on lists. -/
def pyEqList : List Json → List Json → Bool
  | [], [] => true
  | x :: xs, y :: ys => x.pyEq y && pyEqList xs ys
  | _, _ => false

/-- Every member of the first object is a member of the second. -/
def pyEqMembers : List (String × Json) → List (String × Json) → Bool
  | [], _ => true
  | (k, x) :: ms, ns =>
      (match ns.lookup k with
        | some y => x.pyEq y
        | none => false) && pyEqMembers ms ns

end

variable {ε : Type}

/-- `v.get(key, d)`: only objects have the method. -/
def getD (v : Json) (key : String) (d : Json) : Except (PyErr ε) Json :=
  match v with
  | .obj ms => .ok ((ms.lookup key).getD d)
  | _ => .error .attributeError

/-- `v.get(key)`. -/
def get (v : Json) (key : String) : Except (PyErr ε) Json := v.getD key .null

/-- `v[key]`. -/
def item (v : Json) (key : String) : Except (PyErr ε) Json :=
  match v with
  | .obj ms =>
      match ms.lookup key with
      | some x => .ok x
      | none => .error .keyError
  | _ => .error .typeError

/-- `key in v`: a member, an element or a substring. -/
def contains (v : Json) (key : String) : Except (PyErr ε) Bool :=
  match v with
  | .obj ms => .ok (ms.lookup key).isSome
  | .arr xs => .ok (xs.contains (.str key))
  | .str s => .ok (decide (key.toList <:+: s.toList))
  | _ => .error .typeError

/-- The values that `for x in v` binds. -/
def iter (v : Json) : Except (PyErr ε) (List Json) :=
  match v with
  | .arr xs => .ok xs
  | .obj ms => .ok (ms.map fun m => .str m.1)
  | .str s => .ok (s.toList.map fun c => .str (String.singleton c))
  | _ => .error .typeError

/-- The receiver of a string method. -/
def asStr (v : Json) : Except (PyErr ε) String :=
  match v with
  | .str s => .ok s
  | _ => .error .attributeError

/-- `ms[key] = v`, in place when the key is there and at the end otherwise. -/
def setItem (ms : List (String × Json)) (key : String) (v : Json) : List (String × Json) :=
  if (ms.lookup key).isSome then ms.map fun m => if m.1 = key then (m.1, v) else m
  else ms ++ [(key, v)]

theorem lookup_map_value (ms : List (String × Json)) {key other : String} (v : Json)
    (h : other ≠ key) :
    (ms.map fun m => if m.1 = key then (m.1, v) else m).lookup other = ms.lookup other := by
  induction ms with
  | nil => rfl
  | cons m ms ih =>
      obtain ⟨k, x⟩ := m
      rw [List.map_cons]
      by_cases hk : k = key
      · have hne : (other == k) = false := by simpa [hk] using h
        rw [if_pos hk, List.lookup_cons, List.lookup_cons, hne, ih]
      · rw [if_neg hk, List.lookup_cons, List.lookup_cons, ih]

theorem lookup_setItem_ne (ms : List (String × Json)) {key other : String} (v : Json)
    (h : other ≠ key) : (setItem ms key v).lookup other = ms.lookup other := by
  unfold setItem
  split
  · exact lookup_map_value ms v h
  · have hne : (other == key) = false := by simpa using h
    rw [List.lookup_append, List.lookup_cons, hne, List.lookup_nil, Option.or_none]

/-- `set(v)` as a list without repetitions; elements must be hashable. -/
def toSet (v : Json) : Except (PyErr ε) (List Json) :=
  match (v.iter : Except (PyErr ε) (List Json)) with
  | .error e => .error e
  | .ok xs =>
      if xs.all hashable then
        .ok (xs.foldl (fun acc x => if acc.any (·.pyEq x) then acc else acc ++ [x]) [])
      else .error .typeError

/-- `xs.issubset(ys)` on sets. -/
def subset (xs ys : List Json) : Bool := xs.all fun x => ys.any (·.pyEq x)

/-- `xs - ys` on sets. -/
def difference (xs ys : List Json) : List Json := xs.filter fun x => !ys.any (·.pyEq x)

/-- `a <= b` on two strings or two numbers. -/
def leScalar : Json → Json → Bool
  | .str a, .str b => decide (a ≤ b)
  | a, b =>
      match a.numeric, b.numeric with
      | some (.fin p), some (.fin q) => decide (p ≤ q)
      | some (.inf true), some _ => true
      | some _, some (.inf false) => true
      | _, _ => false

/-- `sorted(xs)` on scalars: strings among themselves or numbers among themselves. -/
def sorted (xs : List Json) : Except (PyErr ε) (List Json) :=
  let strings := xs.all fun x => match x with | .str _ => true | _ => false
  let numbers := xs.all fun x => x.numeric.isSome
  if xs.length ≤ 1 ∨ strings ∨ numbers then
    .ok (xs.insertionSort fun a b => a.leScalar b = true)
  else .error .typeError

end Json

/-! ## Conversion to integers -/

/-- The two tables of the Unicode database that string conversions consult. -/
structure UnicodeTables where
  isSpace : Char → Bool
  decimal : Char → Option Nat

def UnicodeTables.strip (u : UnicodeTables) (cs : List Char) : List Char :=
  ((cs.dropWhile u.isSpace).reverse.dropWhile u.isSpace).reverse

/-- Decimal digits with single underscores between them; `afterDigit` says whether
an underscore or the end may come next. -/
def UnicodeTables.digits (u : UnicodeTables) : List Char → Nat → Bool → Option Nat
  | [], acc, afterDigit => if afterDigit then some acc else none
  | c :: cs, acc, afterDigit =>
      if c = '_' ∧ afterDigit = true then u.digits cs acc false
      else
        match u.decimal c with
        | some d => u.digits cs (10 * acc + d) true
        | none => none

/-- `int(s)` on a string. -/
def UnicodeTables.intOfText (u : UnicodeTables) (cs : List Char) : Option Int :=
  match u.strip cs with
  | '-' :: ds => (u.digits ds 0 false).map fun n => -(n : Int)
  | '+' :: ds => (u.digits ds 0 false).map fun n => (n : Int)
  | ds => (u.digits ds 0 false).map fun n => (n : Int)

/-- `int(v)`. -/
def Json.toInt {ε : Type} (u : UnicodeTables) (v : Json) : Except (PyErr ε) Int :=
  match v with
  | .bool b => .ok (if b then 1 else 0)
  | .int i => .ok i
  | .float f =>
      match f.value with
      | .fin q => .ok (q.num.tdiv q.den)
      | .inf _ => .error .overflowError
      | .nan => .error (.valueError "cannot convert float NaN to integer")
  | .str s =>
      match u.intOfText s.toList with
      | some i => .ok i
      | none => .error (.valueError "invalid literal for int() with base 10")
  | _ => .error .typeError

/-! ## Numbers the encoder refuses -/

mutual

/-- No NaN and no infinity anywhere: what a strict JSON encoder can write. -/
def Json.finite : Json → Bool
  | .float f =>
      match f.value with
      | .fin _ => true
      | _ => false
  | .arr xs => finiteList xs
  | .obj ms => finiteMembers ms
  | _ => true

/-- `finite` on every element. -/
def finiteList : List Json → Bool
  | [] => true
  | x :: xs => x.finite && finiteList xs

def finiteMembers : List (String × Json) → Bool
  | [] => true
  | (_, x) :: ms => x.finite && finiteMembers ms

end

/-! ## Values of a parser -/

mutual

/-- Every object names each of its members once, as parsed text does. -/
def Json.parsed : Json → Bool
  | .arr xs => parsedList xs
  | .obj ms => decide (ms.map (·.1)).Nodup && parsedMembers ms
  | _ => true

/-- `parsed` on every element. -/
def parsedList : List Json → Bool
  | [] => true
  | x :: xs => x.parsed && parsedList xs

def parsedMembers : List (String × Json) → Bool
  | [] => true
  | (_, x) :: ms => x.parsed && parsedMembers ms

end

theorem parsedList_append (xs ys : List Json) :
    parsedList (xs ++ ys) = (parsedList xs && parsedList ys) := by
  induction xs with
  | nil => rfl
  | cons x xs ih => rw [List.cons_append, parsedList, parsedList, ih, Bool.and_assoc]

theorem parsedMembers_append (ms ns : List (String × Json)) :
    parsedMembers (ms ++ ns) = (parsedMembers ms && parsedMembers ns) := by
  induction ms with
  | nil => rfl
  | cons m ms ih =>
      obtain ⟨k, x⟩ := m
      rw [List.cons_append, parsedMembers, parsedMembers, ih, Bool.and_assoc]

end Wcp.Base
