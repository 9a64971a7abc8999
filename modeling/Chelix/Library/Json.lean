import Chelix.Library.KeyedSort
import Mathlib.Data.String.Basic

/-!
# JSON values

Parsed JSON.  An object is the list of its fields in the order in which they were read, as a
map that preserves insertion order keeps them; such maps compare without regard to that order,
so equality of values is equality of their normal forms.
-/

namespace Chelix.Library

/-- A JSON number.  A float is kept as its shortest decimal text. -/
inductive JsonNumber where
  | posInt (n : ℕ)
  | negInt (n : ℤ)
  | float (text : String)
  deriving DecidableEq

inductive Json where
  | null
  | bool (b : Bool)
  | num (n : JsonNumber)
  | str (s : String)
  | arr (elems : List Json)
  | obj (fields : List (String × Json))

namespace JsonNumber

protected def toString : JsonNumber → String
  | .posInt n => toString n
  | .negInt n => toString n
  | .float text => text

/-- Both float zeros are one number. -/
def normalize : JsonNumber → JsonNumber
  | .float text => .float (if text = "-0.0" then "0.0" else text)
  | n => n

end JsonNumber

namespace Json

/-! ## Decidable equality -/

mutual

def decEq : (a b : Json) → Decidable (a = b)
  | .null, .null => isTrue rfl
  | .bool a, .bool b => decidable_of_iff (a = b) (by simp)
  | .num a, .num b => decidable_of_iff (a = b) (by simp)
  | .str a, .str b => decidable_of_iff (a = b) (by simp)
  | .arr a, .arr b =>
    match decEqList a b with
    | isTrue h => isTrue (h ▸ rfl)
    | isFalse h => isFalse fun h' => h (Json.arr.inj h')
  | .obj a, .obj b =>
    match decEqFields a b with
    | isTrue h => isTrue (h ▸ rfl)
    | isFalse h => isFalse fun h' => h (Json.obj.inj h')
  | .null, .bool _ | .null, .num _ | .null, .str _ | .null, .arr _ | .null, .obj _
  | .bool _, .null | .bool _, .num _ | .bool _, .str _ | .bool _, .arr _ | .bool _, .obj _
  | .num _, .null | .num _, .bool _ | .num _, .str _ | .num _, .arr _ | .num _, .obj _
  | .str _, .null | .str _, .bool _ | .str _, .num _ | .str _, .arr _ | .str _, .obj _
  | .arr _, .null | .arr _, .bool _ | .arr _, .num _ | .arr _, .str _ | .arr _, .obj _
  | .obj _, .null | .obj _, .bool _ | .obj _, .num _ | .obj _, .str _ | .obj _, .arr _ =>
    isFalse (by simp)

def decEqList : (a b : List Json) → Decidable (a = b)
  | [], [] => isTrue rfl
  | [], _ :: _ | _ :: _, [] => isFalse (by simp)
  | a :: l, b :: l' =>
    match decEq a b, decEqList l l' with
    | isTrue h, isTrue h' => isTrue (h ▸ h' ▸ rfl)
    | isFalse h, _ => isFalse fun h' => h (List.cons.inj h').1
    | _, isFalse h => isFalse fun h' => h (List.cons.inj h').2

def decEqFields : (a b : List (String × Json)) → Decidable (a = b)
  | [], [] => isTrue rfl
  | [], _ :: _ | _ :: _, [] => isFalse (by simp)
  | (k, a) :: l, (k', b) :: l' =>
    if hk : k = k' then
      match decEq a b, decEqFields l l' with
      | isTrue h, isTrue h' => isTrue (hk ▸ h ▸ h' ▸ rfl)
      | isFalse h, _ => isFalse fun h' => h (Prod.ext_iff.mp (List.cons.inj h').1).2
      | _, isFalse h => isFalse fun h' => h (List.cons.inj h').2
    else isFalse fun h' => hk (Prod.ext_iff.mp (List.cons.inj h').1).1

end

instance : DecidableEq Json := decEq

/-! ## Equality of values -/

mutual

/-- The value with the fields of every object in the order of their names. -/
def normalize : Json → Json
  | .num n => .num n.normalize
  | .arr elems => .arr (normalizeList elems)
  | .obj fields => .obj (sortByKey Prod.fst (normalizeFields fields))
  | value => value

def normalizeList : List Json → List Json
  | [] => []
  | value :: rest => value.normalize :: normalizeList rest

def normalizeFields : List (String × Json) → List (String × Json)
  | [] => []
  | (name, value) :: rest => (name, value.normalize) :: normalizeFields rest

end

/-! ## Reading -/

def get : Json → String → Option Json
  | .obj fields, name => (fields.find? fun field => field.1 = name).map Prod.snd
  | _, _ => none

/-- The field of an object, or `null`: what indexing by a name reads. -/
def index (value : Json) (name : String) : Json := (value.get name).getD .null

def asStr : Json → Option String
  | .str s => some s
  | _ => none

def asArray : Json → Option (List Json)
  | .arr elems => some elems
  | _ => none

/-- The element of an array, or `null`: what indexing by a number reads. -/
def indexAt : Json → ℕ → Json
  | .arr elems, i => elems[i]?.getD .null
  | _, _ => .null

def isObject : Json → Bool
  | .obj _ => true
  | _ => false

def asBool : Json → Option Bool
  | .bool b => some b
  | _ => none

/-- An unsigned number.  Negative numbers and floats are not. -/
def asNat : Json → Option ℕ
  | .num (.posInt n) => some n
  | _ => none

/-! ## Text -/

/-- The lower-case hexadecimal digit of a number below sixteen. -/
def hexDigit (n : ℕ) : Char := Nat.digitChar n

/-- The escape of one character of a string. -/
def escapeChar (c : Char) : List Char :=
  if c = '"' then ['\\', '"']
  else if c = '\\' then ['\\', '\\']
  else if c.toNat = 8 then ['\\', 'b']
  else if c.toNat = 9 then ['\\', 't']
  else if c.toNat = 10 then ['\\', 'n']
  else if c.toNat = 12 then ['\\', 'f']
  else if c.toNat = 13 then ['\\', 'r']
  else if c.toNat < 32 then
    ['\\', 'u', '0', '0', hexDigit (c.toNat / 16), hexDigit (c.toNat % 16)]
  else [c]

def escape (s : String) : String :=
  "\"" ++ String.ofList (s.toList.flatMap escapeChar) ++ "\""

mutual

/-- The compact text of a value. -/
def toText : Json → String
  | .null => "null"
  | .bool b => toString b
  | .num n => n.toString
  | .str s => escape s
  | .arr elems => "[" ++ ",".intercalate (toTextList elems) ++ "]"
  | .obj fields => "\x7b" ++ ",".intercalate (toTextFields fields) ++ "\x7d"

def toTextList : List Json → List String
  | [] => []
  | value :: rest => value.toText :: toTextList rest

def toTextFields : List (String × Json) → List String
  | [] => []
  | (name, value) :: rest => (escape name ++ ":" ++ value.toText) :: toTextFields rest

end

end Json

end Chelix.Library
