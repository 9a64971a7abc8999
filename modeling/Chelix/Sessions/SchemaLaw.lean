import Chelix.Library.Lists
import Chelix.Sessions.ResultSchema

/-!
# Inferred schemas and the values they describe

* **`toJsonSchema_accepts_iff`**: the schema of a value accepts it if the value fits itself.
-/

namespace Chelix.Sessions

open Chelix.Library Json List Schema Json

/-! ## The keyword `type` -/

section Accepts

variable (integral : String → Bool)

/-- Whether a number is an integer; of a float that is decided by `integral`. -/
def isInteger : JsonNumber → Bool
  | .float text => integral text
  | _ => true

def hasType (value : Json) (name : String) : Bool :=
  match value with
  | .null => name = "null"
  | .bool _ => name = "boolean"
  | .num n => name = "number" || (name = "integer" && isInteger integral n)
  | .str _ => name = "string"
  | .arr _ => name = "array"
  | .obj _ => name = "object"

def typeAccepts (fields : Fields) (value : Json) : Bool :=
  match (Json.obj fields).get "type" with
  | some (.str name) => hasType integral value name
  | _ => true

/-- Whether a value is valid against a schema with `type` among its keywords. -/
def accepts : Json → Json → Bool := Schema.accepts (.strict (typeAccepts integral))

theorem accepts_typeSchema (name : String) (value : Json) :
    accepts integral (typeSchema name) value = hasType integral value name := by
  unfold accepts typeSchema
  rw [Schema.accepts_obj, Schema.properties_eq, Schema.items_eq, Schema.anyOf_eq, Schema.allOf_eq,
    Schema.oneOf_eq, Schema.negated_eq, Schema.conditional_eq]
  cases value <;> simp [Schema.otherFields, Schema.knownKeywords, typeAccepts, Json.get,
    Schema.required, Schema.requiredNames, Schema.propertiesOf, Schema.listed, Schema.only]

theorem accepts_arrayOf (items : Fields) (value : Json) :
    accepts integral (arrayOf (.obj items)) value =
      match value with
      | .arr elems => elems.all (accepts integral (.obj items))
      | _ => false := by
  unfold accepts arrayOf
  rw [Schema.accepts_obj, Schema.properties_eq, Schema.items_eq, Schema.anyOf_eq, Schema.allOf_eq,
    Schema.oneOf_eq, Schema.negated_eq, Schema.conditional_eq]
  cases value <;> simp [Schema.otherFields, Schema.knownKeywords, typeAccepts, hasType, Json.get,
    Schema.required, Schema.requiredNames, Schema.propertiesOf, Schema.listed,
    Schema.only, Schema.isSchema, Json.asArray]

theorem accepts_oneOf (schemas : List Json) (value : Json) :
    accepts integral (oneOf schemas) value =
      decide (schemas.countP (fun schema => accepts integral schema value) = 1) := by
  unfold accepts oneOf
  rw [Schema.accepts_obj, Schema.properties_eq, Schema.items_eq, Schema.anyOf_eq, Schema.allOf_eq,
    Schema.oneOf_eq, Schema.negated_eq, Schema.conditional_eq]
  cases value <;> simp [Schema.otherFields, Schema.knownKeywords, typeAccepts, Json.get,
    Schema.required, Schema.requiredNames, Schema.propertiesOf, Schema.listed,
    Schema.only, Json.asArray]

theorem accepts_finishObjectSchema (properties : Fields) (required : List String) (value : Json) :
    accepts integral (finishObjectSchema properties required) value =
      (value.isObject &&
        properties.all (fun field => (value.get field.1).all (accepts integral field.2)) &&
        required.all fun key => (value.get key).isSome) := by
  unfold accepts finishObjectSchema
  rw [Schema.accepts_obj, Schema.properties_eq, Schema.items_eq, Schema.anyOf_eq, Schema.allOf_eq,
    Schema.oneOf_eq, Schema.negated_eq, Schema.conditional_eq]
  cases required with
  | nil =>
    cases value <;> simp [Schema.otherFields, Schema.knownKeywords, typeAccepts, hasType, Json.get,
      Schema.required, Schema.requiredNames, Schema.propertiesOf, Schema.listed,
      Schema.only, Json.isObject]
  | cons key keys =>
    cases value <;> simp [Schema.otherFields, Schema.knownKeywords, typeAccepts, hasType, Json.get,
      Schema.required, Schema.requiredNames, Schema.propertiesOf, Schema.listed,
      Schema.only, Json.isObject, Json.asStr, Function.comp_def]

end Accepts

/-! ## What a group asks of a value -/

/-- The type that the schema of a value names. -/
def typeName : Json → String
  | .null => "null"
  | .bool _ => "boolean"
  | .num n => if isF64 n then "number" else "integer"
  | .str _ => "string"
  | .arr _ => "array"
  | .obj _ => "object"

/-- Whether a group has a value of a type. -/
def hasKind (group : List Json) (name : String) : Bool :=
  group.any fun value => typeName value = name

def hasKey (key : String) (fields : Fields) : Bool := (fields.map Prod.fst).contains key

/-- The names that all objects of a group have. -/
def commonKeys (objects : List Fields) : List String :=
  (keysOf objects).filter fun key => objects.all (hasKey key)

section Fits

variable (integral : String → Bool)

mutual

/-- **Whether a value fits a group of values.**  There is a value of its type in the group; a number
is not of two types of the group; the elements of an array fit those of the first array of the
group, unless that is empty; and an object has the fields that all objects of the group have, while
the value of each of its fields fits the values of this field in the group. -/
def fits (group : List Json) : Json → Bool
  | .null => hasKind group "null"
  | .bool _ => hasKind group "boolean"
  | .num n => (isInteger integral n && hasKind group "integer") != hasKind group "number"
  | .str _ => hasKind group "string"
  | .arr elems =>
    match group.find? fun value => typeName value = "array" with
    | some (.arr first) => first.isEmpty || fitsAll first elems
    | _ => false
  | .obj fields =>
    !(objectsOf group).isEmpty && fitsFields (objectsOf group) fields &&
      (commonKeys (objectsOf group)).all fun key => hasKey key fields

def fitsAll (group : List Json) : List Json → Bool
  | [] => true
  | value :: rest => fits group value && fitsAll group rest

def fitsFields (objects : List Fields) : Fields → Bool
  | [] => true
  | (key, value) :: rest =>
    (!(keysOf objects).contains key || fits (valuesOf key objects) value) &&
      fitsFields objects rest

end

mutual

/-- **Whether a value fits what is inferred from it.**  Each element of an array fits all elements
of the array. -/
def fitsItself : Json → Bool
  | .arr elems => fitsAll integral elems elems
  | .obj fields => fieldsFitThemselves fields
  | _ => true

def fieldsFitThemselves : Fields → Bool
  | [] => true
  | (_, value) :: rest => fitsItself value && fieldsFitThemselves rest

end

theorem fitsAll_eq (group elems : List Json) :
    fitsAll integral group elems = elems.all (fits integral group) := by
  induction elems with
  | nil => rfl
  | cons value elems ih => rw [fitsAll, ih, all_cons]

theorem fitsFields_eq (objects : List Fields) (fields : Fields) :
    fitsFields integral objects fields = fields.all fun field =>
      !(keysOf objects).contains field.1 || fits integral (valuesOf field.1 objects) field.2 := by
  induction fields with
  | nil => rfl
  | cons field fields ih => rw [fitsFields, ih, all_cons]

theorem fieldsFitThemselves_eq (fields : Fields) :
    fieldsFitThemselves integral fields = fields.all fun field => fitsItself integral field.2 := by
  induction fields with
  | nil => rfl
  | cons field fields ih => rw [fieldsFitThemselves, ih, all_cons]

end Fits

/-! ## The schemas of a group -/

variable {key : String} {objects : List Fields}

theorem mem_keysOf : key ∈ keysOf objects ↔ ∃ fields ∈ objects, hasKey key fields = true := by
  have hfold : ∀ (keys acc : List String),
      key ∈ keys.foldl (fun keys key => if keys.contains key then keys else keys ++ [key]) acc ↔
        key ∈ acc ∨ key ∈ keys := by
    intro keys
    induction keys with
    | nil => simp
    | cons first keys ih =>
      intro acc
      rw [foldl_cons, ih, mem_cons]
      by_cases hmem : first ∈ acc
      · rw [if_pos (contains_iff_mem.mpr hmem)]
        constructor
        · rintro (h | h)
          · exact .inl h
          · exact .inr (.inr h)
        · rintro (h | rfl | h)
          · exact .inl h
          · exact .inl hmem
          · exact .inr h
      · rw [if_neg (mt contains_iff_mem.mp hmem), mem_append, mem_singleton,
          or_assoc]
  unfold keysOf hasKey
  rw [hfold, mem_flatMap]
  simp

variable {value : Json}

theorem mem_valuesOf :
    value ∈ valuesOf key objects ↔ ∃ fields ∈ objects, (key, value) ∈ fields := by
  unfold valuesOf
  rw [mem_flatMap]
  refine exists_congr fun fields => and_congr_right fun _ => ?_
  simp

theorem schemaKey_toJsonSchema (value : Json) :
    schemaKey (toJsonSchema value) = typeName value := by
  cases value with
  | null | bool b | num n | str s => rw [toJsonSchema]; rfl
  | arr elems =>
    rw [toJsonSchema]
    by_cases hnil : elems = []
    · subst hnil
      rw [arraySchema]
      rfl
    · rw [arraySchema_eq hnil]
      rfl
  | obj fields =>
    rw [toJsonSchema, objectSchema_eq]
    rfl

theorem foldl_addUnique (schemas acc : List Json) (hacc : (acc.map schemaKey).Nodup) :
    ((schemas.foldl addUnique acc).map schemaKey).Nodup ∧
      ∀ name, (schemas.foldl addUnique acc).find? (fun schema => schemaKey schema = name) =
        (acc.find? fun schema => schemaKey schema = name).or
          (schemas.find? fun schema => schemaKey schema = name) := by
  induction schemas generalizing acc with
  | nil => exact ⟨hacc, fun name => (Option.or_none).symm⟩
  | cons schema schemas ih =>
    rw [foldl_cons]
    unfold addUnique
    by_cases hmem : schemaKey schema ∈ acc.map schemaKey
    · rw [if_pos (contains_iff_mem.mpr hmem)]
      obtain ⟨hnodup, hfind⟩ := ih acc hacc
      refine ⟨hnodup, fun name => (hfind name).trans ?_⟩
      by_cases hname : schemaKey schema = name
      · obtain ⟨found, hfound⟩ : ∃ found, acc.find? (fun schema => schemaKey schema = name) =
            some found := by
          refine Option.ne_none_iff_exists'.mp fun hnone => ?_
          exact find?_key_eq_none_iff.mp hnone (hname ▸ hmem)
        rw [hfound, Option.some_or, Option.some_or]
      · rw [List.find?_cons_of_neg (by simpa using hname)]
    · rw [if_neg (mt contains_iff_mem.mp hmem)]
      have hnext : ((acc ++ [schema]).map schemaKey).Nodup := by
        rw [map_append, map_singleton]
        exact nodup_append_comm.mp (nodup_cons.mpr ⟨hmem, hacc⟩)
      obtain ⟨hnodup, hfind⟩ := ih _ hnext
      refine ⟨hnodup, fun name => (hfind name).trans ?_⟩
      rw [List.find?_append, Option.or_assoc]
      congr 1
      by_cases hname : schemaKey schema = name
      · have hfirst : ∀ rest, (schema :: rest).find? (fun schema => schemaKey schema = name) =
            some schema := fun rest => List.find?_cons_of_pos (decide_eq_true hname)
        rw [hfirst, hfirst, Option.some_or]
      · rw [List.find?_cons_of_neg (by simpa using hname),
          List.find?_cons_of_neg (by simpa using hname)]
        rfl

variable {values : List Json}

section Counting

variable (integral : String → Bool)

theorem accepts_mergeValues_eq (hne : values ≠ []) (value : Json) :
    accepts integral (mergeValues values) value =
      decide ((uniqueSchemas values).countP (fun schema => accepts integral schema value) = 1) := by
  rw [mergeValues_eq hne]
  split
  · next schema heq =>
    rw [heq]
    cases h : accepts integral schema value with
    | true | false => simp [h]
  · rw [accepts_oneOf]

/-- The values of a group that are no objects, each type once. -/
def scalarSchemas (values : List Json) : List Json :=
  ((othersOf values).map toJsonSchema).foldl addUnique []

theorem nodup_scalarSchemas (values : List Json) :
    ((scalarSchemas values).map schemaKey).Nodup :=
  (foldl_addUnique _ [] nodup_nil).1

variable {name : String}

theorem find?_scalarSchemas (hname : name ≠ "object") (values : List Json) :
    (scalarSchemas values).find? (fun schema => schemaKey schema = name) =
      (values.find? fun value => typeName value = name).map toJsonSchema := by
  have hkey : ((fun schema => decide (schemaKey schema = name)) ∘ toJsonSchema) =
      fun value => decide (typeName value = name) := by
    funext value
    rw [Function.comp_apply, schemaKey_toJsonSchema]
  unfold scalarSchemas othersOf
  rw [(foldl_addUnique _ [] nodup_nil).2, List.find?_nil, Option.none_or, List.find?_map, hkey,
    List.find?_filter]
  congr 2
  funext value
  rw [decide_eq_decide, decide_eq_true_eq]
  refine and_iff_right_of_imp fun htype => ?_
  cases value with
  | obj fields => exact absurd htype.symm hname
  | _ => rfl

theorem mem_scalarSchemas {schema : Json} (h : schema ∈ scalarSchemas values) :
    ∃ value, value.isObject = false ∧ schema = toJsonSchema value := by
  have hfold : ∀ (schemas acc : List Json), schema ∈ schemas.foldl addUnique acc →
      schema ∈ acc ∨ schema ∈ schemas := by
    intro schemas
    induction schemas with
    | nil => exact fun acc hmem => .inl hmem
    | cons first schemas ih =>
      intro acc hmem
      rcases ih _ hmem with hacc | hrest
      · unfold addUnique at hacc
        split at hacc
        · exact .inl hacc
        · rcases mem_append.mp hacc with hacc | hfirst
          · exact .inl hacc
          · exact .inr (mem_cons.mpr (.inl (mem_singleton.mp hfirst)))
      · exact .inr (mem_cons_of_mem _ hrest)
  rcases hfold _ _ h with hnil | hmem
  · cases hnil
  · obtain ⟨value, hvalue, rfl⟩ := mem_map.mp hmem
    exact ⟨value, by simpa using (mem_filter.mp hvalue).2, rfl⟩

theorem isObject_toJsonSchema (value : Json) : (toJsonSchema value).isObject = true := by
  cases value with
  | arr elems =>
    rw [toJsonSchema]
    by_cases hnil : elems = []
    · subst hnil
      rw [arraySchema]
      rfl
    · rw [arraySchema_eq hnil]
      rfl
  | obj fields =>
    rw [toJsonSchema, objectSchema_eq]
    rfl
  | _ =>
    rw [toJsonSchema]
    rfl

theorem uniqueSchemas_split (values : List Json) :
    uniqueSchemas values = scalarSchemas values ++
      if objectsOf values = [] then [] else [mergeObjectSchemas (objectsOf values)] :=
  uniqueSchemas_eq values

theorem isObject_mergeValues (hne : values ≠ []) : (mergeValues values).isObject = true := by
  rw [mergeValues_eq hne]
  split
  · next schema heq =>
    have hmem : schema ∈ uniqueSchemas values := heq ▸ mem_singleton_self schema
    rw [uniqueSchemas_split, mem_append] at hmem
    rcases hmem with hscalar | hobject
    · obtain ⟨value, -, rfl⟩ := mem_scalarSchemas hscalar
      exact isObject_toJsonSchema value
    · split at hobject
      · cases hobject
      · rw [mem_singleton.mp hobject, mergeObjectSchemas_eq]
        rfl
  · rfl

theorem accepts_arraySchema (elems : List Json) (value : Json) :
    accepts integral (arraySchema elems) value =
      match value with
      | .arr others => elems.isEmpty || others.all (accepts integral (mergeValues elems))
      | _ => false := by
  by_cases hnil : elems = []
  · subst hnil
    have hschema : arraySchema [] = typeSchema "array" := by
      rw [arraySchema]
      rfl
    rw [hschema, accepts_typeSchema]
    cases value <;> rfl
  · obtain ⟨fields, hfields⟩ : ∃ fields, mergeValues elems = .obj fields := by
      have hobject := isObject_mergeValues hnil
      cases hschema : mergeValues elems with
      | obj fields => exact ⟨fields, rfl⟩
      | _ =>
        rw [hschema] at hobject
        cases hobject
    rw [arraySchema_eq hnil, hfields, accepts_arrayOf]
    have hempty : elems.isEmpty = false := by simpa using hnil
    cases value with
    | arr others => simp only [hempty, Bool.false_or]
    | _ => rfl

theorem hasType_of_accepts {first : Json} (hfirst : first.isObject = false)
    (h : accepts integral (toJsonSchema first) value = true) :
    hasType integral value (typeName first) = true := by
  cases first with
  | null | bool b | num n | str s => rwa [toJsonSchema, accepts_typeSchema] at h
  | obj fields => cases hfirst
  | arr elems =>
    rw [toJsonSchema, accepts_arraySchema] at h
    cases value with
    | arr others => rfl
    | _ => cases h

/-- The schemas of scalars and arrays that accept a value of one type only. -/
theorem countP_scalarSchemas (hname : name ≠ "object")
    (hvalue : ∀ other, hasType integral value other = true → other = name) (values : List Json) :
    (scalarSchemas values).countP (fun schema => accepts integral schema value) =
      if (values.find? fun first => typeName first = name).any
        (fun first => accepts integral (toJsonSchema first) value) then 1 else 0 := by
  rw [countP_of_key (nodup_scalarSchemas values) (k := name), find?_scalarSchemas hname,
    Option.any_map]
  intro schema hmem haccepts
  obtain ⟨first, hfirst, rfl⟩ := mem_scalarSchemas hmem
  rw [schemaKey_toJsonSchema]
  exact hvalue _ (hasType_of_accepts integral hfirst haccepts)

theorem accepts_mergeObjectSchemas (objects : List Fields) (value : Json) :
    accepts integral (mergeObjectSchemas objects) value =
      (value.isObject &&
        (keysOf objects).all (fun key =>
          (value.get key).all (accepts integral (mergeValues (valuesOf key objects)))) &&
        ((keysOf objects).filter fun key =>
          (valuesOf key objects).length = objects.length).all fun key =>
            (value.get key).isSome) := by
  rw [mergeObjectSchemas_eq, accepts_finishObjectSchema, all_map]
  rfl

theorem countP_uniqueSchemas (hvalue : value.isObject = false) (values : List Json) :
    (uniqueSchemas values).countP (fun schema => accepts integral schema value) =
      (scalarSchemas values).countP fun schema => accepts integral schema value := by
  rw [uniqueSchemas_split, countP_append]
  split
  · rfl
  · have hobject : accepts integral (mergeObjectSchemas (objectsOf values)) value = false := by
      rw [accepts_mergeObjectSchemas, hvalue, Bool.false_and, Bool.false_and]
    rw [countP_cons_of_neg (by rw [hobject]; exact Bool.false_ne_true)]
    rfl

theorem toJsonSchema_of_typeName {first : Json} (harray : typeName first ≠ "array")
    (hobject : typeName first ≠ "object") : toJsonSchema first = typeSchema (typeName first) := by
  cases first with
  | arr elems => exact absurd rfl harray
  | obj fields => exact absurd rfl hobject
  | _ =>
    rw [toJsonSchema]
    rfl

theorem any_find?_scalar (harray : name ≠ "array") (hobject : name ≠ "object") (values : List Json)
    (value : Json) :
    ((values.find? fun first => typeName first = name).any fun first =>
      accepts integral (toJsonSchema first) value) =
      (hasKind values name && hasType integral value name) := by
  unfold hasKind
  cases hfind : values.find? fun first => typeName first = name with
  | none =>
    have hnone : values.any (fun first => typeName first = name) = false :=
      any_eq_false.mpr (List.find?_eq_none.mp hfind)
    rw [hnone]
    rfl
  | some first =>
    obtain rfl : typeName first = name := by simpa using List.find?_some hfind
    have hany : values.any (fun other => typeName other = typeName first) = true :=
      any_eq_true.mpr ⟨first, mem_of_find?_eq_some hfind, decide_eq_true rfl⟩
    rw [Option.any_some, toJsonSchema_of_typeName harray hobject, accepts_typeSchema, hany,
      Bool.true_and]

theorem countP_num (n : JsonNumber) (values : List Json) :
    (uniqueSchemas values).countP (fun schema => accepts integral schema (.num n)) =
      (if hasKind values "integer" && isInteger integral n then 1 else 0) +
        if hasKind values "number" then 1 else 0 := by
  have hnodup := nodup_scalarSchemas values
  have hkeys : ∀ schema ∈ scalarSchemas values, accepts integral schema (.num n) = true →
      schemaKey schema = "integer" ∨ schemaKey schema = "number" := by
    intro schema hmem haccepts
    obtain ⟨first, hfirst, rfl⟩ := mem_scalarSchemas hmem
    have htype := hasType_of_accepts integral hfirst haccepts
    rw [schemaKey_toJsonSchema]
    unfold hasType at htype
    simp only [Bool.or_eq_true, Bool.and_eq_true, decide_eq_true_eq] at htype
    exact htype.symm.imp_left And.left
  have hone : ∀ name : String, (name = "integer" ∨ name = "number") →
      (scalarSchemas values).countP (fun schema => decide (schemaKey schema = name) &&
        accepts integral schema (.num n)) =
        if hasKind values name && hasType integral (.num n) name then 1 else 0 := by
    intro name hname
    have harray : name ≠ "array" := by rcases hname with rfl | rfl <;> decide
    have hobject : name ≠ "object" := by rcases hname with rfl | rfl <;> decide
    rw [countP_of_key hnodup (k := name), ← any_find?_scalar integral harray hobject,
      find?_scalarSchemas hobject, Option.any_map]
    · cases hfind : values.find? fun first => typeName first = name with
      | none => rfl
      | some first =>
        have htype : typeName first = name := by simpa using List.find?_some hfind
        simp only [Option.any_some, schemaKey_toJsonSchema, htype, decide_true, Bool.true_and]
    · intro schema _ h
      exact of_decide_eq_true (Bool.and_eq_true _ _ ▸ h).1
  rw [countP_uniqueSchemas integral rfl, countP_of_two_keys (by decide) hkeys,
    hone "integer" (.inl rfl), hone "number" (.inr rfl)]
  simp [hasType]

theorem accepts_scalar (harray : name ≠ "array") (hobject : name ≠ "object")
    (hvalue : value.isObject = false)
    (htype : ∀ other, hasType integral value other = true ↔ other = name) (hne : values ≠ []) :
    accepts integral (mergeValues values) value = hasKind values name := by
  rw [accepts_mergeValues_eq integral hne, countP_uniqueSchemas integral hvalue,
    countP_scalarSchemas integral hobject fun other => (htype other).mp,
    any_find?_scalar integral harray hobject, (htype name).mpr rfl, Bool.and_true]
  cases hasKind values name <;> rfl

end Counting

/-! ## Fitting -/

section Fitting

variable (integral : String → Bool)

variable {fields : Fields}

theorem get_eq_some_iff (h : (fields.map Prod.fst).Nodup) :
    (obj fields).get key = some value ↔ (key, value) ∈ fields := by
  change (fields.find? fun field => field.1 = key).map Prod.snd = some value ↔ _
  rw [Option.map_eq_some_iff]
  constructor
  · rintro ⟨⟨name, found⟩, hfind, rfl⟩
    obtain ⟨hmem, rfl⟩ := (find?_key_eq_some_iff h).mp hfind
    exact hmem
  · exact fun hmem => ⟨(key, value), (find?_key_eq_some_iff h).mpr ⟨hmem, rfl⟩, rfl⟩

theorem isSome_get_iff : ((obj fields).get key).isSome = hasKey key fields := by
  have hget : (obj fields).get key =
      (fields.find? fun field => field.1 = key).map Prod.snd := rfl
  rw [hget, Option.isSome_map]
  cases hfind : fields.find? fun field => field.1 = key with
  | none =>
    have hnone := find?_key_eq_none_iff.mp hfind
    unfold hasKey
    rw [contains_eq_mem, decide_eq_false hnone]
    rfl
  | some field =>
    have hkey : field.1 = key := by simpa using List.find?_some hfind
    have hmem : key ∈ fields.map Prod.fst :=
      hkey ▸ mem_map_of_mem (mem_of_find?_eq_some hfind)
    unfold hasKey
    rw [contains_eq_mem, decide_eq_true hmem]
    rfl

theorem length_valuesOf_eq_iff {objects : List Fields}
    (h : ∀ fields ∈ objects, (fields.map Prod.fst).Nodup) (key : String) :
    (valuesOf key objects).length = objects.length ↔ objects.all (hasKey key) = true := by
  have hone : ∀ fields ∈ objects,
      ((fields.filter fun field => field.1 = key).map Prod.snd).length =
        if hasKey key fields then 1 else 0 := by
    intro fields hmem
    have hcount := countP_of_key (h fields hmem) (k := key) (p := fun field => field.1 = key)
      fun field _ hkey => of_decide_eq_true hkey
    rw [length_map, ← countP_eq_length_filter, hcount, ← isSome_get_iff]
    change _ = if ((fields.find? fun field => field.1 = key).map Prod.snd).isSome then 1 else 0
    rw [Option.isSome_map]
    cases hfind : fields.find? fun field => field.1 = key with
    | none => rfl
    | some field =>
      have hkey : field.1 = key := by simpa using List.find?_some hfind
      rw [Option.any_some, decide_eq_true hkey]
      rfl
  have hle : ∀ objects : List Fields, (∀ fields ∈ objects,
      ((fields.filter fun field => field.1 = key).map Prod.snd).length =
        if hasKey key fields then 1 else 0) →
      (valuesOf key objects).length ≤ objects.length ∧
        ((valuesOf key objects).length = objects.length ↔ objects.all (hasKey key) = true) := by
    intro objects
    induction objects with
    | nil => exact fun _ => ⟨le_rfl, iff_of_true rfl rfl⟩
    | cons fields objects ih =>
      intro hcount
      obtain ⟨hle, hiff⟩ := ih fun other hmem => hcount other (mem_cons_of_mem _ hmem)
      have hfirst := hcount fields mem_cons_self
      have hsplit : (valuesOf key (fields :: objects)).length =
          ((fields.filter fun field => field.1 = key).map Prod.snd).length +
            (valuesOf key objects).length := by
        unfold valuesOf
        rw [flatMap_cons, length_append]
      rw [hsplit, hfirst, length_cons, all_cons, Bool.and_eq_true, ← hiff]
      cases hasKey key fields with
      | true =>
        rw [if_pos rfl]
        exact ⟨by omega, fun h => ⟨rfl, by omega⟩, fun h => by have hlength := h.2; omega⟩
      | false =>
        rw [if_neg Bool.false_ne_true]
        exact ⟨by omega, ⟨fun h => by omega, fun h => by cases h.1⟩⟩
  exact (hle objects hone).2

theorem mem_objectsOf : fields ∈ objectsOf values ↔ obj fields ∈ values := by
  unfold objectsOf
  rw [mem_filterMap]
  constructor
  · rintro ⟨value, hmem, hobject⟩
    cases value with
    | obj found =>
      obtain rfl := Option.some.inj hobject
      exact hmem
    | _ => cases hobject
  · exact fun hmem => ⟨_, hmem, rfl⟩

theorem exists_arr_of_typeName (h : typeName value = "array") : ∃ elems, value = .arr elems := by
  cases value with
  | arr elems => exact ⟨elems, rfl⟩
  | num n => cases n <;> simp [typeName, isF64] at h
  | _ => simp [typeName] at h

theorem countP_scalarSchemas_obj (fields : Fields) (values : List Json) :
    (scalarSchemas values).countP (fun schema => accepts integral schema (.obj fields)) = 0 := by
  refine countP_eq_zero.mpr fun schema hmem haccepts => ?_
  obtain ⟨first, hfirst, rfl⟩ := mem_scalarSchemas hmem
  have htype : typeName first = "object" :=
    of_decide_eq_true (hasType_of_accepts integral hfirst haccepts)
  cases first with
  | obj fields => cases hfirst
  | num n => cases n <;> simp [typeName, isF64] at htype
  | _ => simp [typeName] at htype

theorem all_keys_eq (h : (fields.map Prod.fst).Nodup) (keys : List String)
    (p : String → Json → Bool) :
    (keys.all fun key => ((obj fields).get key).all (p key)) =
      fields.all fun field => !keys.contains field.1 || p field.1 field.2 := by
  rw [Bool.eq_iff_iff, all_eq_true, all_eq_true]
  constructor
  · rintro hkeys ⟨key, value⟩ hmem
    by_cases hkey : key ∈ keys
    · have hvalue := hkeys key hkey
      rw [(get_eq_some_iff h).mpr hmem, Option.all_some] at hvalue
      rw [hvalue, Bool.or_true]
    · rw [contains_eq_mem, decide_eq_false hkey]
      rfl
  · intro hfields key hkey
    cases hget : (obj fields).get key with
    | none => rfl
    | some value =>
      have hvalue := hfields _ ((get_eq_some_iff h).mp hget)
      rwa [contains_eq_mem, decide_eq_true hkey, Bool.not_true, Bool.false_or] at hvalue

/-- **The schema of a group accepts what fits the group.** -/
theorem accepts_mergeValues (value : Json) (hvalue : value.distinct = true) {group : List Json}
    (hne : group ≠ []) (hgroup : ∀ first ∈ group, first.distinct = true) :
    accepts integral (mergeValues group) value = fits integral group value := by
  induction value using Json.induct generalizing group with
  | hnull | hbool b | hstr s =>
    rw [fits]
    refine accepts_scalar integral (by decide) (by decide) rfl (fun other => ?_) hne
    exact decide_eq_true_iff
  | hnum n =>
    rw [accepts_mergeValues_eq integral hne, countP_num, fits, Bool.and_comm]
    cases isInteger integral n && hasKind group "integer" with
    | true | false => cases hasKind group "number" <;> rfl
  | harr elems ih =>
    rw [accepts_mergeValues_eq integral hne, countP_uniqueSchemas integral rfl,
      countP_scalarSchemas integral (by decide) fun other => of_decide_eq_true, fits]
    cases hfind : group.find? fun first => typeName first = "array" with
    | none => rfl
    | some first =>
      have hname : typeName first = "array" := by simpa using List.find?_some hfind
      have hdistinct := hgroup first (mem_of_find?_eq_some hfind)
      obtain ⟨first, rfl⟩ := exists_arr_of_typeName hname
      have haccepts : accepts integral (toJsonSchema (.arr first)) (.arr elems) =
          (first.isEmpty || fitsAll integral first elems) := by
        rw [toJsonSchema, accepts_arraySchema, fitsAll_eq]
        by_cases hnil : first = []
        · subst hnil
          rfl
        · exact congrArg (first.isEmpty || ·) (all_congr_of_mem fun value hmem => ih value hmem
            (Json.distinct_arr.mp hvalue value hmem) hnil (Json.distinct_arr.mp hdistinct))
      simp only [Option.any_some, haccepts]
      cases first.isEmpty || fitsAll integral first elems <;> rfl
  | hobj fields ih =>
    obtain ⟨hnodup, hfields⟩ := Json.distinct_obj.mp hvalue
    rw [accepts_mergeValues_eq integral hne, uniqueSchemas_split, countP_append,
      countP_scalarSchemas_obj, Nat.zero_add, fits]
    by_cases hnil : objectsOf group = []
    · rw [hnil]
      rfl
    · have hobjects : ∀ first ∈ objectsOf group, (first.map Prod.fst).Nodup := fun first hmem =>
        (Json.distinct_obj.mp (hgroup _ (mem_objectsOf.mp hmem))).1
      -- the values of a field in the group are values of the group's objects
      have hvalues : ∀ key, ∀ first ∈ valuesOf key (objectsOf group), first.distinct = true := by
        intro key first hmem
        obtain ⟨other, hother, hfield⟩ := mem_valuesOf.mp hmem
        exact (Json.distinct_obj.mp (hgroup _ (mem_objectsOf.mp hother))).2 _ hfield
      have hmerge : accepts integral (mergeObjectSchemas (objectsOf group)) (.obj fields) =
          (fitsFields integral (objectsOf group) fields &&
            (commonKeys (objectsOf group)).all fun key => hasKey key fields) := by
        rw [accepts_mergeObjectSchemas, all_keys_eq hnodup, fitsFields_eq]
        refine congrArg₂ (· && ·) (all_congr_of_mem fun field hmem => ?_) ?_
        · by_cases hkey : field.1 ∈ keysOf (objectsOf group)
          · obtain ⟨other, hother, hhas⟩ := mem_keysOf.mp hkey
            have hsome : valuesOf field.1 (objectsOf group) ≠ [] := by
              obtain ⟨⟨name, entry⟩, hentry, hname⟩ :=
                mem_map.mp (contains_iff_mem.mp hhas)
              rw [← show name = field.1 from hname]
              exact ne_nil_of_mem (mem_valuesOf.mpr ⟨other, hother, hentry⟩)
            rw [ih field hmem (hfields field hmem) hsome (hvalues field.1)]
          · rw [contains_eq_mem, decide_eq_false hkey]
            rfl
        · have hcommon : (keysOf (objectsOf group)).filter (fun key =>
              (valuesOf key (objectsOf group)).length = (objectsOf group).length) =
                commonKeys (objectsOf group) := by
            refine filter_congr fun key _ => ?_
            rw [Bool.eq_iff_iff, decide_eq_true_iff]
            exact length_valuesOf_eq_iff hobjects key
          rw [hcommon]
          simp only [isSome_get_iff]
      have hempty : (objectsOf group).isEmpty = false := by simpa using hnil
      rw [if_neg hnil, hempty, Bool.not_false, Bool.true_and, ← hmerge]
      cases haccepts : accepts integral (mergeObjectSchemas (objectsOf group)) (.obj fields) with
      | true => rw [countP_singleton, if_pos haccepts]; rfl
      | false => rw [countP_singleton, haccepts, if_neg Bool.false_ne_true]; rfl

/-! ## The schema of one value -/

theorem keysOf_singleton (h : (fields.map Prod.fst).Nodup) :
    keysOf [fields] = fields.map Prod.fst := by
  have hfold : ∀ keys acc : List String, (acc ++ keys).Nodup →
      keys.foldl (fun keys key => if keys.contains key then keys else keys ++ [key]) acc =
        acc ++ keys := by
    intro keys
    induction keys with
    | nil => exact fun acc _ => (append_nil acc).symm
    | cons key keys ih =>
      intro acc hnodup
      have hnew : key ∉ acc := fun hmem =>
        (nodup_append.mp hnodup).2.2 key hmem key mem_cons_self rfl
      rw [foldl_cons, if_neg (mt contains_iff_mem.mp hnew), ih _ (by simpa using hnodup),
        append_assoc, singleton_append]
  unfold keysOf
  rw [flatMap_singleton, hfold _ [] h, nil_append]

theorem valuesOf_singleton (h : (fields.map Prod.fst).Nodup) (hmem : (key, value) ∈ fields) :
    valuesOf key [fields] = [value] := by
  unfold valuesOf
  rw [flatMap_singleton]
  induction fields with
  | nil => cases hmem
  | cons field fields ih =>
    obtain ⟨hfirst, hrest⟩ := nodup_cons.mp h
    rcases mem_cons.mp hmem with rfl | hmem
    · have hnone : fields.filter (fun field => field.1 = key) = [] := by
        refine filter_eq_nil_iff.mpr fun field hfield hname => hfirst ?_
        exact mem_map.mpr ⟨field, hfield, of_decide_eq_true hname⟩
      have hfilter : ((key, value) :: fields).filter (fun field => field.1 = key) =
          (key, value) :: fields.filter (fun field => field.1 = key) :=
        filter_cons_of_pos (decide_eq_true rfl)
      rw [hfilter, hnone]
      rfl
    · have hne : field.1 ≠ key := fun hname =>
        hfirst (mem_map.mpr ⟨(key, value), hmem, hname.symm⟩)
      rw [filter_cons_of_neg (by simpa using hne)]
      exact ih hrest hmem

theorem toJsonSchema_eq_mergeValues (hvalue : value.distinct = true) :
    toJsonSchema value = mergeValues [value] := by
  have hscalar : ∀ other : Json, other.isObject = false →
      toJsonSchema other = mergeValues [other] := by
    intro other hother
    have hunique : uniqueSchemas [other] = [toJsonSchema other] := by
      rw [uniqueSchemas_eq]
      cases other with
      | obj fields => cases hother
      | _ => rfl
    rw [mergeValues_eq (cons_ne_nil _ _), hunique]
  induction value using Json.induct with
  | hobj fields ih =>
    obtain ⟨hnodup, hfields⟩ := Json.distinct_obj.mp hvalue
    have hall : [Json.obj fields].all isObject = true := rfl
    have hobjects : objectsOf [.obj fields] = [fields] := rfl
    rw [toJsonSchema, objectSchema_eq, mergeValues, if_pos hall, hobjects, mergeObjectSchemas_eq,
      keysOf_singleton hnodup, map_map]
    congr 1
    · refine map_congr_left fun field hmem => ?_
      rw [Function.comp_apply, valuesOf_singleton hnodup hmem, ih field hmem (hfields field hmem)]
    · refine (filter_eq_self.mpr fun key hkey => ?_).symm
      obtain ⟨field, hmem, rfl⟩ := mem_map.mp hkey
      rw [valuesOf_singleton hnodup hmem]
      rfl
  | hnull | hbool b | hstr s | hnum n | harr elems ih => exact hscalar _ rfl

theorem fits_singleton (hvalue : value.distinct = true) :
    fits integral [value] value = fitsItself integral value := by
  induction value using Json.induct with
  | hnull | hbool b | hstr s => rfl
  | hnum n =>
    have hself : fitsItself integral (.num n) = true := rfl
    rw [fits, hself]
    cases n <;> simp [hasKind, typeName, isF64, isInteger]
  | harr elems ih =>
    have hfind : [Json.arr elems].find? (fun first => typeName first = "array") =
        some (.arr elems) := rfl
    rw [fits, hfind, fitsItself]
    cases elems with
    | nil | cons first elems => rfl
  | hobj fields ih =>
    obtain ⟨hnodup, hfields⟩ := Json.distinct_obj.mp hvalue
    have hobjects : objectsOf [.obj fields] = [fields] := rfl
    have hcommon : ((commonKeys [fields]).all fun key => hasKey key fields) = true := by
      refine all_eq_true.mpr fun key hkey => ?_
      exact all_eq_true.mp (mem_filter.mp hkey).2 fields mem_cons_self
    rw [fits, hobjects, hcommon, Bool.and_true, fitsItself, fieldsFitThemselves_eq, fitsFields_eq]
    refine (Bool.true_and _).trans (all_congr_of_mem fun field hmem => ?_)
    have hkey : field.1 ∈ keysOf [fields] := by
      rw [keysOf_singleton hnodup]
      exact mem_map_of_mem hmem
    rw [contains_iff_mem.mpr hkey, Bool.not_true, Bool.false_or,
      valuesOf_singleton hnodup hmem, ih field hmem (hfields field hmem)]

theorem accepts_toJsonSchema (hvalue : value.distinct = true) :
    accepts integral (toJsonSchema value) value = fitsItself integral value := by
  have hgroup : ∀ first ∈ [value], first.distinct = true := by
    intro first hmem
    rw [mem_singleton.mp hmem]
    exact hvalue
  rw [toJsonSchema_eq_mergeValues hvalue,
    accepts_mergeValues integral value hvalue (cons_ne_nil _ _) hgroup,
    fits_singleton integral hvalue]

/-- The values of which a schema is inferred: the fields of an object have different names. -/
abbrev ResultValue := {value : Json // value.distinct = true}

/-- **An inferred schema accepts its value exactly if the value fits itself**: each element of an
array fits the elements of the array. -/
theorem toJsonSchema_accepts_iff (value : ResultValue) :
    accepts integral (toJsonSchema value.1) value.1 = true ↔
      fitsItself integral value.1 = true := by
  rw [accepts_toJsonSchema integral value.2]

end Fitting

/-- Of two arrays in an array only the first has a schema, which the other need not have. -/
theorem second_array_rejected : ¬ ∀ value : ResultValue, ∀ integral : String → Bool,
    accepts integral (toJsonSchema value.1) value.1 = true := by
  intro h
  have haccepts := h ⟨.arr [.arr [.num (.posInt 1)], .arr [.str "a"]], by decide⟩ fun _ => false
  rw [accepts_toJsonSchema _ (by decide)] at haccepts
  revert haccepts
  decide

end Chelix.Sessions
