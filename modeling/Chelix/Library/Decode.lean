import Chelix.Library.Json

/-!
# Decoding typed values

A decoder of a type reads a JSON value or refuses it.  A structure is read from an object by
the names of its fields, or from an array by their order; in both an optional field may be
missing.  An internally tagged variant has its tag among its fields, or first in the array.
-/

namespace Chelix.Library

/-- The failure to read a value as a type: the type's name and the value determine the
message. -/
structure DecodeError where
  target : String
  value : Json
  deriving DecidableEq

abbrev Decoder (α : Type) := Json → Option α

namespace Decoder

variable {α β : Type}

def string : Decoder String := Json.asStr

def nat : Decoder ℕ := Json.asNat

/-- An unsigned number of a given width. -/
def uint (bits : ℕ) : Decoder ℕ := fun value =>
  (Json.asNat value).filter fun n => n < 2 ^ bits

def bool : Decoder Bool := Json.asBool

def value : Decoder Json := some

def list (decoder : Decoder α) : Decoder (List α)
  | .arr elems => elems.mapM decoder
  | _ => none

/-- An optional value: `null` is none. -/
def option (decoder : Decoder α) : Decoder (Option α)
  | .null => some none
  | value => (decoder value).map some

/-- One of the names of an enumeration: the name, or an object whose only field it is. -/
def enum (names : List (String × α)) : Decoder α := fun value =>
  let named (name : String) := (names.find? fun entry => entry.1 = name).map Prod.snd
  match value with
  | .str name => named name
  | .obj [(name, .null)] => named name
  | _ => none

/-- The values of the named fields of a structure. -/
def fields (names : List String) : Decoder (List (Option Json))
  | .obj fields => some (names.map fun name => (Json.obj fields).get name)
  | .arr elems =>
    if elems.length ≤ names.length then
      some (elems.map some ++ List.replicate (names.length - elems.length) none)
    else none
  | _ => none

/-- A field that must be there. -/
def required (decoder : Decoder α) (field : Option Json) : Option α := field.bind decoder

/-- A field that may be missing. -/
def optional (decoder : Decoder α) : Option Json → Option (Option α)
  | none => some none
  | some value => option decoder value

/-- A field that has a default. -/
def defaulted (decoder : Decoder α) (default : α) : Option Json → Option α
  | none => some default
  | some value => decoder value

/-- The tag of an internally tagged value and what is left without it. -/
def tagged (tag : String) : Decoder (String × Json)
  | .obj fields =>
    ((Json.obj fields).get tag).bind Json.asStr |>.map fun name =>
      (name, .obj (fields.filter fun field => field.1 ≠ tag))
  | .arr (.str name :: rest) => some (name, .arr rest)
  | _ => none

/-- The tag of a value that is flattened into another: its name, or its number among the
names. -/
def flattenedTag (names : List String) : Decoder String
  | .str name => if name ∈ names then some name else none
  | .num (.posInt n) => names[n]?
  | _ => none

/-- Decodes and names the failure. -/
def run (target : String) (decoder : Decoder α) (value : Json) : Except DecodeError α :=
  match decoder value with
  | some a => .ok a
  | none => .error ⟨target, value⟩

end Decoder

end Chelix.Library
