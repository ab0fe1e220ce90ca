import Wcp.Base.Exceptions
import Wcp.Base.Json
/-!
# Shapes of values

An operation on an unchecked value returns for certain shapes only.  Each of these
operations is given by the shape it needs and what it then finds.
-/

namespace Wcp.Base.Json

variable {ε : Type}

/-- `isinstance(v, dict)`. -/
def isObject : Json → Bool
  | .obj _ => true
  | _ => false

/-- A value that `in` searches: an object, an array or a text. -/
def searchable : Json → Bool
  | .obj _ | .arr _ | .str _ => true
  | _ => false

/-- Whether a search finds a key; a value that is not searched has none. -/
def has (v : Json) (key : String) : Bool :=
  match (v.contains key : Except (PyErr Unit) Bool) with
  | .ok found => found
  | .error _ => false

/-- The member of an object under a key, or null. -/
def member (v : Json) (key : String) : Json :=
  match v with
  | .obj ms => (ms.lookup key).getD .null
  | _ => .null

/-- The member of an object under a key, or another value. -/
def memberD (v : Json) (key : String) (d : Json) : Json :=
  match v with
  | .obj ms => (ms.lookup key).getD d
  | _ => d

/-- `isinstance(v, str)`. -/
def isText : Json → Bool
  | .str _ => true
  | _ => false

/-- The values that a loop over a searchable value binds. -/
def elements : Json → List Json
  | .arr xs => xs
  | .obj ms => ms.map fun m => .str m.1
  | .str s => s.toList.map fun c => .str (String.singleton c)
  | _ => []

/-- A value whose elements make a set. -/
def settable (v : Json) : Bool := v.searchable && v.elements.all hashable

/-- The elements of a value, without repetitions. -/
def asSet (v : Json) : List Json :=
  v.elements.foldl (fun acc x => if acc.any (·.pyEq x) then acc else acc ++ [x]) []

/-- Values that can be sorted: at most one, only texts or only numbers. -/
def sortable (xs : List Json) : Prop :=
  xs.length ≤ 1 ∨ (xs.all fun x => x.isText) = true ∨ (xs.all fun x => x.numeric.isSome) = true

/-- `int(v)` raises no exception, or that of a text or a NaN which is no number. -/
def convertible : Json → Bool
  | .float f => match f.value with
      | .inf _ => false
      | _ => true
  | .bool _ | .int _ | .str _ => true
  | _ => false

theorem isText_iff {v : Json} : v.isText = true ↔ ∃ text, v = .str text := by
  cases v <;> simp [isText]

theorem isObject_iff {v : Json} : v.isObject = true ↔ ∃ ms, v = .obj ms := by
  cases v <;> simp [isObject]

/-! ## An operation by its shape -/

theorem getD_eq (v : Json) (key : String) (d : Json) : (v.getD key d : Except (PyErr ε) Json) =
    if v.isObject = true then .ok (v.memberD key d) else .error .attributeError := by
  cases v <;> rfl

theorem get_eq (v : Json) (key : String) : (v.get key : Except (PyErr ε) Json) =
    if v.isObject = true then .ok (v.member key) else .error .attributeError := by
  cases v <;> rfl

theorem contains_eq (v : Json) (key : String) : (v.contains key : Except (PyErr ε) Bool) =
    if v.searchable = true then .ok (v.has key) else .error .typeError := by
  cases v <;> rfl

theorem iter_eq (v : Json) : (v.iter : Except (PyErr ε) (List Json)) =
    if v.searchable = true then .ok v.elements else .error .typeError := by
  cases v <;> rfl

theorem toSet_eq (v : Json) : (v.toSet : Except (PyErr ε) (List Json)) =
    if v.settable = true then .ok v.asSet else .error .typeError := by
  rw [toSet, iter_eq, settable]
  cases v.searchable with
  | true => rfl
  | false => rfl

instance (xs : List Json) : Decidable (sortable xs) := inferInstanceAs (Decidable (_ ∨ _))

theorem sorted_eq (xs : List Json) : (sorted xs : Except (PyErr ε) (List Json)) =
    if sortable xs then .ok (xs.insertionSort fun a b => a.leScalar b = true)
    else .error .typeError := by
  have htexts : (xs.all fun x => match x with | .str _ => true | _ => false) =
      xs.all fun x => x.isText := by
    refine congrArg _ (funext fun x => ?_)
    cases x <;> rfl
  have hsortable : (xs.length ≤ 1 ∨
      (xs.all fun x => match x with | .str _ => true | _ => false) = true ∨
      (xs.all fun x => x.numeric.isSome) = true) ↔ sortable xs := by
    rw [sortable, htexts]
  by_cases h : sortable xs
  · rw [if_pos h]
    exact if_pos (hsortable.2 h)
  · rw [if_neg h]
    exact if_neg fun h' => h (hsortable.1 h')

/-! ## What an operation found -/

theorem contains_eq_ok {v : Json} {key : String} {found : Bool} :
    v.contains key = (.ok found : Except (PyErr ε) Bool) ↔
      v.searchable = true ∧ v.has key = found := by
  cases v <;> simp [contains, searchable, has]

theorem get_eq_ok {v x : Json} {key : String} :
    v.get key = (.ok x : Except (PyErr ε) Json) ↔ v.isObject = true ∧ v.member key = x := by
  cases v <;> simp [get, getD, isObject, member]

theorem item_eq_ok {v x : Json} {key : String} :
    v.item key = (.ok x : Except (PyErr ε) Json) ↔
      v.isObject = true ∧ v.has key = true ∧ v.member key = x := by
  cases v with
  | obj ms => cases h : ms.lookup key <;> simp [item, isObject, has, contains, member, h]
  | _ => simp [item, isObject]

theorem asStr_eq_ok {v : Json} {s : String} :
    v.asStr = (.ok s : Except (PyErr ε) String) ↔ v = .str s := by
  cases v <;> simp [asStr]

/-! ## A body step by step -/

/-- A kind of exceptions that a value of the wrong shape does not raise. -/
structure Foreseen (E : PyErr ε → Prop) : Prop where
  attributeError : ¬ E .attributeError
  typeError : ¬ E .typeError

theorem foreseen_never : Foreseen fun _ : PyErr ε => False := ⟨not_false, not_false⟩

namespace Foreseen

variable {E : PyErr ε → Prop} {β : Type} {v d : Json} {key : String}

theorem getD_bind (hE : Foreseen E) {f : Json → Except (PyErr ε) β} :
    RaisesOnly E (v.getD key d >>= f) ↔
      v.isObject = true ∧ RaisesOnly E (f (v.memberD key d)) := by
  rw [getD_eq]
  exact raisesOnly_needs_bind hE.attributeError

theorem get_bind (hE : Foreseen E) {f : Json → Except (PyErr ε) β} :
    RaisesOnly E (v.get key >>= f) ↔ v.isObject = true ∧ RaisesOnly E (f (v.member key)) := by
  rw [get_eq]
  exact raisesOnly_needs_bind hE.attributeError

theorem contains_bind (hE : Foreseen E) {f : Bool → Except (PyErr ε) β} :
    RaisesOnly E (v.contains key >>= f) ↔
      v.searchable = true ∧ RaisesOnly E (f (v.has key)) := by
  rw [contains_eq]
  exact raisesOnly_needs_bind hE.typeError

theorem iter_bind (hE : Foreseen E) {f : List Json → Except (PyErr ε) β} :
    RaisesOnly E (v.iter >>= f) ↔ v.searchable = true ∧ RaisesOnly E (f v.elements) := by
  rw [iter_eq]
  exact raisesOnly_needs_bind hE.typeError

theorem toSet_bind (hE : Foreseen E) {f : List Json → Except (PyErr ε) β} :
    RaisesOnly E (v.toSet >>= f) ↔ v.settable = true ∧ RaisesOnly E (f v.asSet) := by
  rw [toSet_eq]
  exact raisesOnly_needs_bind hE.typeError

theorem sorted_bind (hE : Foreseen E) {xs : List Json} {f : List Json → Except (PyErr ε) β} :
    RaisesOnly E (sorted xs >>= f) ↔
      sortable xs ∧ RaisesOnly E (f (xs.insertionSort fun a b => a.leScalar b = true)) := by
  rw [sorted_eq]
  exact raisesOnly_needs_bind hE.typeError

end Foreseen

/-- A kind of exceptions that takes in whatever a value of the wrong shape raises. -/
structure Covers (E : PyErr ε → Prop) : Prop where
  attributeError : E .attributeError
  typeError : E .typeError
  keyError : E .keyError

namespace Covers

variable {E : PyErr ε → Prop}

theorem get (hE : Covers E) (v : Json) (key : String) : RaisesOnly E (v.get key) := by
  rw [get_eq]
  split
  · exact raisesOnly_ok _
  · exact raisesOnly_error.2 hE.attributeError

theorem contains (hE : Covers E) (v : Json) (key : String) : RaisesOnly E (v.contains key) := by
  rw [contains_eq]
  split
  · exact raisesOnly_ok _
  · exact raisesOnly_error.2 hE.typeError

theorem item (hE : Covers E) (v : Json) (key : String) : RaisesOnly E (v.item key) := by
  cases v with
  | obj ms =>
      rw [Json.item]
      split
      · exact raisesOnly_ok _
      · exact raisesOnly_error.2 hE.keyError
  | _ => exact raisesOnly_error.2 hE.typeError

end Covers

end Wcp.Base.Json
