import Chelix.Library.JsonSchema

/-!
# The schema of a structured tool result

The schema of a value is inferred from it.  The elements of an array, and the properties of one
name in objects that are merged, have one schema together.
-/

namespace Chelix.Sessions

open Chelix.Library Json List

/-! ## Parts of schemas -/

def typeSchema (name : String) : Json := .obj [("type", .str name)]

def arrayOf (items : Json) : Json := .obj [("type", .str "array"), ("items", items)]

def oneOf (schemas : List Json) : Json := .obj [("oneOf", .arr schemas)]

def finishObjectSchema (properties : List (String × Json)) (required : List String) : Json :=
  .obj ([("type", .str "object"), ("properties", .obj properties)] ++
    if required.isEmpty then [] else [("required", .arr (required.map .str))])

def schemaKey (schema : Json) : String :=
  match schema.get "type" with
  | some (.str name) => name
  | _ => schema.toText

/-- A schema is added unless there is one of its type. -/
def addUnique (schemas : List Json) (schema : Json) : List Json :=
  if (schemas.map schemaKey).contains (schemaKey schema) then schemas else schemas ++ [schema]

def isF64 : JsonNumber → Bool
  | .float _ => true
  | _ => false

/-! ## Groups of values -/

abbrev Fields := List (String × Json)

def asObject : Json → Option Fields
  | .obj fields => some fields
  | _ => none

/-- The objects among some values. -/
def objectsOf (values : List Json) : List Fields := values.filterMap asObject

/-- The values that are no objects. -/
def othersOf (values : List Json) : List Json := values.filter fun value => !value.isObject

/-- The names of the fields of some objects, in the order in which they come. -/
def keysOf (objects : List Fields) : List String :=
  (objects.flatMap fun fields => fields.map Prod.fst).foldl
    (fun keys key => if keys.contains key then keys else keys ++ [key]) []

/-- The values of the fields of one name. -/
def valuesOf (key : String) (objects : List Fields) : List Json :=
  objects.flatMap fun fields => (fields.filter fun field => field.1 = key).map Prod.snd

def weightObjects (objects : List Fields) : ℕ := weightList (objects.map .obj)

theorem weightObjects_le (values : List Json) :
    weightObjects (objectsOf values) ≤ weightList values := by
  unfold weightObjects objectsOf
  induction values with
  | nil => exact le_rfl
  | cons value values ih =>
    cases value with
    | obj fields => exact Nat.add_le_add_left ih _
    | null | bool b | num n | str s | arr elems => exact ih.trans (Nat.le_add_left _ _)

theorem weightList_valuesOf_le (key : String) (objects : List Fields) :
    weightList (valuesOf key objects) + objects.length ≤ weightObjects objects := by
  have hfields : ∀ fields : Fields,
      weightList ((fields.filter fun field => field.1 = key).map Prod.snd) ≤
        weightFields fields := by
    intro fields
    induction fields with
    | nil => exact le_rfl
    | cons field fields ih =>
      obtain ⟨name, value⟩ := field
      rw [filter_cons, weightFields]
      split
      · exact Nat.add_le_add_left ih _
      · exact ih.trans (Nat.le_add_left _ _)
  unfold valuesOf weightObjects
  induction objects with
  | nil => exact le_rfl
  | cons fields objects ih =>
    have hfirst := hfields fields
    rw [flatMap_cons, weightList_append, map_cons, weightList, weight,
      length_cons]
    omega

theorem ne_nil_of_mem_keysOf {key : String} {objects : List Fields} (h : key ∈ keysOf objects) :
    objects ≠ [] := by
  rintro rfl
  cases h

theorem weightList_valuesOf_lt {key : String} {objects : List Fields} (h : key ∈ keysOf objects) :
    weightList (valuesOf key objects) < weightObjects objects := by
  have hle := weightList_valuesOf_le key objects
  have hpos := length_pos_iff.mpr (ne_nil_of_mem_keysOf h)
  omega

variable {values : List Json}

theorem weight_le_of_mem_othersOf {value : Json} (h : value ∈ othersOf values) :
    value.weight ≤ weightList values :=
  weight_le_of_mem (mem_filter.mp h).1

/-! ## Schemas -/

mutual

def toJsonSchema (value : Json) : Json :=
  match value with
  | .null => typeSchema "null"
  | .bool _ => typeSchema "boolean"
  | .num n => typeSchema (if isF64 n then "number" else "integer")
  | .str _ => typeSchema "string"
  | .arr elems => arraySchema elems
  | .obj fields => objectSchema fields
termination_by (value.weight, 0)
decreasing_by
  · exact Prod.Lex.left _ _ (by rw [weight]; omega)
  · exact Prod.Lex.left _ _ (by rw [weight]; omega)

def arraySchema (elems : List Json) : Json :=
  if elems.isEmpty then typeSchema "array"
  else if elems.all isObject then arrayOf (mergeObjectSchemas (objectsOf elems))
  else match uniqueSchemas elems with
    | [schema] => arrayOf schema
    | schemas => arrayOf (oneOf schemas)
termination_by (weightList elems, 3)
decreasing_by
  · exact Prod.lex_def.mpr ((weightObjects_le elems).lt_or_eq.imp id fun h => ⟨h, by omega⟩)
  · exact Prod.Lex.right _ (by omega)

/-- The schemas of several values, one for each type, and one for all objects. -/
def uniqueSchemas (values : List Json) : List Json :=
  ((othersOf values).attach.map fun value => toJsonSchema value.1).foldl addUnique [] ++
    if objectsOf values = [] then [] else [mergeObjectSchemas (objectsOf values)]
termination_by (weightList values, 2)
decreasing_by
  · exact Prod.lex_def.mpr
      ((weight_le_of_mem_othersOf value.2).lt_or_eq.imp id fun h => ⟨h, by omega⟩)
  · exact Prod.lex_def.mpr ((weightObjects_le values).lt_or_eq.imp id fun h => ⟨h, by omega⟩)

/-- One schema for several objects. -/
def mergeObjectSchemas (objects : List Fields) : Json :=
  finishObjectSchema
    ((keysOf objects).attach.map fun key => (key.1, mergeValues (valuesOf key.1 objects)))
    ((keysOf objects).filter fun key => (valuesOf key objects).length = objects.length)
termination_by (weightObjects objects, 1)
decreasing_by
  exact Prod.Lex.left _ _ (weightList_valuesOf_lt key.2)

/-- One schema for several values. -/
def mergeValues (values : List Json) : Json :=
  if values.all isObject then mergeObjectSchemas (objectsOf values)
  else match uniqueSchemas values with
    | [schema] => schema
    | schemas => oneOf schemas
termination_by (weightList values, 3)
decreasing_by
  · exact Prod.lex_def.mpr ((weightObjects_le values).lt_or_eq.imp id fun h => ⟨h, by omega⟩)
  · exact Prod.Lex.right _ (by omega)

def objectSchema (fields : Fields) : Json :=
  finishObjectSchema (fields.attach.map fun field => (field.1.1, toJsonSchema field.1.2))
    (fields.map Prod.fst)
termination_by (weightFields fields, 3)
decreasing_by
  exact Prod.lex_def.mpr
    ((weight_le_of_mem_fields field.2).lt_or_eq.imp id fun h => ⟨h, by omega⟩)

end

/-! ## Without the marks of termination -/

theorem uniqueSchemas_eq (values : List Json) :
    uniqueSchemas values = ((othersOf values).map toJsonSchema).foldl addUnique [] ++
      if objectsOf values = [] then [] else [mergeObjectSchemas (objectsOf values)] := by
  rw [uniqueSchemas, attach_map_val (f := toJsonSchema)]

theorem mergeObjectSchemas_eq (objects : List Fields) :
    mergeObjectSchemas objects = finishObjectSchema
      ((keysOf objects).map fun key => (key, mergeValues (valuesOf key objects)))
      ((keysOf objects).filter fun key => (valuesOf key objects).length = objects.length) := by
  rw [mergeObjectSchemas,
    attach_map_val (f := fun key => (key, mergeValues (valuesOf key objects)))]

theorem objectSchema_eq (fields : Fields) :
    objectSchema fields = finishObjectSchema
      (fields.map fun field => (field.1, toJsonSchema field.2)) (fields.map Prod.fst) := by
  rw [objectSchema,
    attach_map_val (f := fun field : String × Json => (field.1, toJsonSchema field.2))]

theorem objectsOf_ne_nil (hne : values ≠ []) (hall : values.all isObject = true) :
    objectsOf values ≠ [] := by
  obtain ⟨value, rest, rfl⟩ := exists_cons_of_ne_nil hne
  rw [all_cons, Bool.and_eq_true] at hall
  cases value with
  | obj fields => exact cons_ne_nil _ _
  | _ => cases hall.1

theorem othersOf_eq_nil (hall : values.all isObject = true) : othersOf values = [] := by
  refine filter_eq_nil_iff.mpr fun value hmem => ?_
  rw [all_eq_true.mp hall value hmem]
  exact Bool.false_ne_true

theorem uniqueSchemas_of_all (hne : values ≠ []) (hall : values.all isObject = true) :
    uniqueSchemas values = [mergeObjectSchemas (objectsOf values)] := by
  rw [uniqueSchemas_eq, othersOf_eq_nil hall, if_neg (objectsOf_ne_nil hne hall)]
  rfl

/-- The schema of several values is the only one of their schemas, or one of all. -/
theorem mergeValues_eq (hne : values ≠ []) :
    mergeValues values = match uniqueSchemas values with
      | [schema] => schema
      | schemas => oneOf schemas := by
  rw [mergeValues]
  split
  · next hall => rw [uniqueSchemas_of_all hne hall]
  · rfl

theorem arraySchema_eq {elems : List Json} (hne : elems ≠ []) :
    arraySchema elems = arrayOf (mergeValues elems) := by
  rw [arraySchema, mergeValues, if_neg (by simpa using hne)]
  split
  · rfl
  · split
    · rfl
    · rfl

end Chelix.Sessions
