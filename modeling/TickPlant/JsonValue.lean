/-
# JSON values

The values of the JSON library and its accessors, as far as they are used here.  An accessor
throws where the value has the wrong type; it is a function into `Option`, and `none` is the
exception.

The subscript of a constant object or array is different: it throws for a value that is neither,
but for a key or an index that is not there the behaviour is undefined.
-/
import TickPlant.Text
import TickPlant.Lib.Reading

namespace TickPlant

open Lib

/-- `nlohmann::json`. -/
inductive JsonValue
  | null
  | boolean (b : Bool)
  | unsigned (n : ℕ)
  | integer (i : ℤ)
  | float (q : ℚ)
  | string (s : Bytes)
  | array (items : List JsonValue)
  | object (members : List (Bytes × JsonValue))

namespace JsonValue

/-- The member of an object, if there is one. -/
def find? (key : Bytes) : JsonValue → Option JsonValue
  | object members => members.lookup key
  | _ => none

/-- `j.contains(key)`. -/
def contains (key : Bytes) (j : JsonValue) : Bool := (j.find? key).isSome

/-- `j[key]`, for an object: a missing member is created as `null`. -/
def member (key : Bytes) (j : JsonValue) : JsonValue := (j.find? key).getD null

/-- `j[0]`, for a value that is not empty. -/
def first : JsonValue → Option JsonValue
  | array (item :: _) => some item
  | _ => none

/-- `j.empty()`. -/
def isEmpty : JsonValue → Bool
  | null => true
  | array items => items.isEmpty
  | object members => members.isEmpty
  | _ => false

/-- The values that a range-based `for` visits. -/
def elements : JsonValue → List JsonValue
  | null => []
  | array items => items
  | object members => members.map Prod.snd
  | j => [j]

/-- `j.get<std::string>()`. -/
def getString : JsonValue → Option Bytes
  | string s => some s
  | _ => none

/-- The conversion of a number to `int64_t`; a float is truncated. -/
def getInt64 : JsonValue → Option ℤ
  | unsigned n => some ((n : ℤ).bmod (2 ^ 64))
  | integer i => some i
  | float q => some (Int.tdiv q.num q.den)
  | _ => none

/-- The conversion of a number to `uint64_t`. -/
def getUInt64 : JsonValue → Option ℕ
  | unsigned n => some n
  | integer i => some (i % 2 ^ 64).toNat
  | float q => some ((Int.tdiv q.num q.den) % 2 ^ 64).toNat
  | _ => none

/-- `j.get<double>()`. -/
def getDouble : JsonValue → Option ℚ
  | unsigned n => some n
  | integer i => some i
  | float q => some q
  | _ => none

/-- `j.value(key, default)`: it throws unless `j` is an object. -/
def value {α : Type} (key : Bytes) (get : JsonValue → Option α) (default : α) :
    JsonValue → Option α
  | object members =>
    match members.lookup key with
    | none => some default
    | some v => get v
  | _ => none

/-- `j == s`, for a string `s`. -/
def equals (s : Bytes) : JsonValue → Bool
  | string t => t = s
  | _ => false

lemma getString_eq_some {j : JsonValue} {s : Bytes} : j.getString = some s ↔ j = string s := by
  cases j <;> simp [getString]

/-! ## Constant objects and arrays -/

/-- `j[key]`, for a constant `j`. -/
def atKey (key : Bytes) (j : JsonValue) : Except Stop JsonValue :=
  match j with
  | object members =>
    match members.lookup key with
    | some v => .ok v
    | none => .error .undefined
  | _ => .error .exception

/-- `j[i]`, for a constant `j`. -/
def atIndex (i : ℕ) (j : JsonValue) : Except Stop JsonValue :=
  match j with
  | array items =>
    match items[i]? with
    | some v => .ok v
    | none => .error .undefined
  | _ => .error .exception

lemma atKey_eq_ok {key : Bytes} {j v : JsonValue} : j.atKey key = .ok v ↔ j.find? key = some v := by
  cases j with
  | object members =>
    rw [atKey, find?]
    cases members.lookup key <;> simp
  | _ => simp [atKey, find?]

lemma contains_of_atKey {key : Bytes} {j v : JsonValue} (h : j.atKey key = .ok v) :
    j.contains key := by
  rw [contains, atKey_eq_ok.mp h]
  rfl

/-- The value at a key can be read if the key is there. -/
lemma defined_atKey {key : Bytes} {j : JsonValue} (h : j.contains key) :
    Defined (j.atKey key) := by
  obtain ⟨v, hv⟩ := Option.isSome_iff_exists.mp h
  rw [atKey_eq_ok.mpr hv]
  exact defined_ok v

/-- What is no object throws. -/
lemma defined_atKey_of_object {key : Bytes} {j : JsonValue}
    (h : ∀ members, j = object members → j.contains key) : Defined (j.atKey key) := by
  cases j with
  | object members => exact defined_atKey (h members rfl)
  | _ => exact defined_exception

lemma defined_atIndex {i : ℕ} {j : JsonValue} (h : ∀ items, j = array items → i < items.length) :
    Defined (j.atIndex i) := by
  cases j with
  | array items =>
    rw [atIndex, List.getElem?_eq_getElem (h items rfl)]
    exact defined_ok _
  | _ => exact defined_exception

end JsonValue

end TickPlant
