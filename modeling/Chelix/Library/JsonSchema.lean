import Chelix.Library.JsonParts

/-!
# JSON Schema

The meaning of the keywords of a schema that carry other schemas, and of `required`.  How the
names that a schema requires and a list of schemas for the elements of an array are read, and what
the other keywords ask of a value, is a parameter.
-/

namespace Chelix.Library

open Option

namespace Schema

abbrev Fields := List (String × Json)

/-- What a field of a schema carries, each schema as what is read from it. -/
inductive Meaning (α : Type) where
  | plain
  | schema (a : α)
  | schemas (as : List α)
  | named (as : List (String × α))

/-- The keywords of one schema. -/
def singleKeywords : List String := ["not", "if", "then", "else", "items"]

/-- The keywords of a list of schemas. -/
def arrayKeywords : List String := ["anyOf", "oneOf", "allOf", "items"]

/-- The keywords whose meaning is given here. -/
def knownKeywords : List String :=
  ["properties", "required", "items", "anyOf", "oneOf", "allOf", "not", "if", "then", "else"]

/-- The fields whose meaning is not given here. -/
def otherFields (fields : Fields) : Fields := fields.filter fun field => field.1 ∉ knownKeywords

def isSchema : Json → Bool
  | .bool _ => true
  | .obj _ => true
  | _ => false

/-- The schemas of a keyword of a list of schemas. -/
def listed (fields : Fields) (keyword : String) : Option (List Json) :=
  ((Json.obj fields).get keyword).bind Json.asArray

/-- The schema of a keyword of one schema. -/
def only (fields : Fields) (keyword : String) : Option Json :=
  ((Json.obj fields).get keyword).filter isSchema

/-- The schemas of the properties. -/
def propertiesOf (fields : Fields) : Fields :=
  match (Json.obj fields).get "properties" with
  | some (.obj named) => named
  | _ => []

/-- The names that a schema requires. -/
def requiredNames (fields : Fields) : List String :=
  match (Json.obj fields).get "required" with
  | some (.arr names) => names.filterMap Json.asStr
  | _ => []

/-! ## What is read from a schema -/

section Fold

variable {α : Type} (leaf : Bool → α) (node : Fields → List (String × Meaning α) → α)

mutual

/-- What is read from a schema, given what is read from the schemas that it carries. -/
def fold : Json → α
  | .bool b => leaf b
  | .obj fields => node fields (meanings fields)
  | _ => leaf true

def meanings : Fields → List (String × Meaning α)
  | [] => []
  | (keyword, schema) :: fields => (keyword, meaning keyword schema) :: meanings fields

/-- The meaning of the value of a keyword. -/
def meaning (keyword : String) : Json → Meaning α
  | .bool b => if keyword ∈ singleKeywords then .schema (leaf b) else .plain
  | .arr schemas => if keyword ∈ arrayKeywords then .schemas (foldAll schemas) else .plain
  | .obj fields =>
    if keyword = "properties" then .named (foldNamed fields)
    else if keyword ∈ singleKeywords then .schema (node fields (meanings fields))
    else .plain
  | _ => .plain

def foldAll : List Json → List α
  | [] => []
  | schema :: schemas => fold schema :: foldAll schemas

def foldNamed : Fields → List (String × α)
  | [] => []
  | (name, schema) :: fields => (name, fold schema) :: foldNamed fields

end

def single? (meanings : List (String × Meaning α)) (keyword : String) : Option α :=
  match meanings.lookup keyword with
  | some (.schema a) => some a
  | _ => none

def many? (meanings : List (String × Meaning α)) (keyword : String) : Option (List α) :=
  match meanings.lookup keyword with
  | some (.schemas as) => some as
  | _ => none

def named? (meanings : List (String × Meaning α)) : List (String × α) :=
  match meanings.lookup "properties" with
  | some (.named as) => as
  | _ => []

theorem foldAll_eq (schemas : List Json) :
    foldAll leaf node schemas = schemas.map (fold leaf node) := by
  induction schemas with
  | nil => rfl
  | cons schema schemas ih => rw [foldAll, ih, List.map_cons]

theorem foldNamed_eq (fields : Fields) :
    foldNamed leaf node fields = fields.map fun field => (field.1, fold leaf node field.2) := by
  induction fields with
  | nil => rfl
  | cons field fields ih => rw [foldNamed, ih, List.map_cons]

theorem lookup_meanings (fields : Fields) (keyword : String) :
    (meanings leaf node fields).lookup keyword =
      ((Json.obj fields).get keyword).map (meaning leaf node keyword) := by
  induction fields with
  | nil => rfl
  | cons field fields ih =>
    obtain ⟨name, schema⟩ := field
    have hget : ∀ fields, (Json.obj fields).get keyword =
        (fields.find? fun field => field.1 = keyword).map Prod.snd := fun _ => rfl
    rw [meanings, List.lookup_cons, hget, List.find?_cons]
    rw [hget] at ih
    by_cases h : name = keyword
    · subst h
      simp
    · have hne : (keyword == name) = false := beq_false_of_ne (Ne.symm h)
      simp only [hne, h, decide_false]
      exact ih

theorem single?_eq {keyword : String} (hkeyword : keyword ∈ singleKeywords) (fields : Fields) :
    single? (meanings leaf node fields) keyword = (only fields keyword).map (fold leaf node) := by
  have hproperties : keyword ≠ "properties" := by
    rintro rfl
    exact absurd hkeyword (by decide)
  unfold single? only
  rw [lookup_meanings]
  cases (Json.obj fields).get keyword with
  | none => rfl
  | some schema =>
    cases schema with
    | bool b => simp [meaning, hkeyword, isSchema, fold]
    | obj fields => simp [meaning, hkeyword, hproperties, isSchema, fold]
    | arr schemas =>
      by_cases harray : keyword ∈ arrayKeywords <;> simp [meaning, harray, isSchema]
    | null | num n | str s => rfl

theorem many?_eq {keyword : String} (hkeyword : keyword ∈ arrayKeywords) (fields : Fields) :
    many? (meanings leaf node fields) keyword =
      (listed fields keyword).map fun schemas => schemas.map (fold leaf node) := by
  unfold many? listed
  rw [lookup_meanings]
  cases (Json.obj fields).get keyword with
  | none => rfl
  | some schema =>
    cases schema with
    | arr schemas => simp [meaning, hkeyword, foldAll_eq, Json.asArray]
    | bool b =>
      by_cases hsingle : keyword ∈ singleKeywords <;> simp [meaning, hsingle, Json.asArray]
    | obj fields =>
      have hproperties : keyword ≠ "properties" := by
        rintro rfl
        exact absurd hkeyword (by decide)
      by_cases hsingle : keyword ∈ singleKeywords <;>
        simp [meaning, hsingle, hproperties, Json.asArray]
    | null | num n | str s => rfl

theorem named?_eq (fields : Fields) :
    named? (meanings leaf node fields) =
      (propertiesOf fields).map fun field => (field.1, fold leaf node field.2) := by
  unfold named? propertiesOf
  rw [lookup_meanings]
  cases (Json.obj fields).get "properties" with
  | none => rfl
  | some schema =>
    cases schema with
    | obj fields => simp [meaning, foldNamed_eq]
    | arr schemas | bool b | null | num n | str s => rfl

end Fold

/-! ## Valid values -/

/-- How the parts of a schema are read whose meaning is not given here. -/
structure Reading where
  other : Fields → Json → Bool
  /-- The names that an object has to have. -/
  names : Fields → List String
  /-- A list of schemas for the elements of an array. -/
  tuple : List (Json → Bool) → List Json → Bool

/-- All names that are required, and a schema for each of the first elements. -/
def Reading.strict (other : Fields → Json → Bool) : Reading where
  other := other
  names := requiredNames
  tuple accepts elems := (elems.zip accepts).all fun entry => entry.2 entry.1

section Strict

variable (plain : Fields → Json → Bool)

@[simp] theorem strict_other : (Reading.strict plain).other = plain := rfl

@[simp] theorem strict_names : (Reading.strict plain).names = requiredNames := rfl

@[simp] theorem strict_tuple (accepts : List (Json → Bool)) (elems : List Json) :
    (Reading.strict plain).tuple accepts elems =
      (elems.zip accepts).all fun entry => entry.2 entry.1 := rfl

end Strict

section Keywords

variable (reading : Reading) (fields : Fields) (meanings : List (String × Meaning (Json → Bool)))
  (value : Json)

def properties : Bool :=
  (named? meanings).all fun entry => (value.get entry.1).all entry.2

/-- An object has the names that are required. -/
def required : Bool :=
  match value with
  | .obj _ => (reading.names fields).all fun name => (value.get name).isSome
  | _ => true

/-- One schema for every element, or a list of schemas. -/
def items : Bool :=
  match value with
  | .arr elems =>
    (single? meanings "items").all (fun accepts => elems.all accepts) &&
      (many? meanings "items").all fun accepts => reading.tuple accepts elems
  | _ => true

def anyOf : Bool := (many? meanings "anyOf").all fun accepts => accepts.any fun p => p value

def allOf : Bool := (many? meanings "allOf").all fun accepts => accepts.all fun p => p value

def oneOf : Bool :=
  (many? meanings "oneOf").all fun accepts => (accepts.countP fun p => p value) = 1

def negated : Bool := (single? meanings "not").all fun accepts => !accepts value

def conditional : Bool :=
  (single? meanings "if").all fun condition =>
    if condition value then (single? meanings "then").all fun accepts => accepts value
    else (single? meanings "else").all fun accepts => accepts value

def node : Bool :=
  reading.other (otherFields fields) value && properties meanings value &&
    required reading fields value && items reading meanings value && anyOf meanings value &&
    allOf meanings value && oneOf meanings value && negated meanings value &&
    conditional meanings value

end Keywords

/-- Whether a value is valid against a schema. -/
def accepts (reading : Reading) : Json → Json → Bool := fold (fun b _ => b) (node reading)

def acceptances (reading : Reading) : Fields → List (String × Meaning (Json → Bool)) :=
  meanings (fun b _ => b) (node reading)

/-! ## Keyword by keyword -/

section Accepts

variable (reading : Reading) (fields : Fields) (value : Json)

theorem properties_eq : properties (acceptances reading fields) value =
    (propertiesOf fields).all fun field => (value.get field.1).all (accepts reading field.2) := by
  unfold properties acceptances
  rw [named?_eq, List.all_map]
  rfl

theorem items_eq : items reading (acceptances reading fields) value =
    match value with
    | .arr elems =>
      (only fields "items").all (fun schema => elems.all (accepts reading schema)) &&
        (listed fields "items").all fun schemas =>
          reading.tuple (schemas.map (accepts reading)) elems
    | _ => true := by
  unfold items acceptances
  rw [single?_eq _ _ (by decide), many?_eq _ _ (by decide)]
  cases value with
  | arr elems =>
    simp only [all_map]
    rfl
  | _ => rfl

theorem anyOf_eq : anyOf (acceptances reading fields) value =
    (listed fields "anyOf").all fun schemas =>
      schemas.any fun schema => accepts reading schema value := by
  unfold anyOf acceptances
  rw [many?_eq _ _ (by decide), all_map]
  simp only [Function.comp_def, List.any_map]
  rfl

theorem allOf_eq : allOf (acceptances reading fields) value =
    (listed fields "allOf").all fun schemas =>
      schemas.all fun schema => accepts reading schema value := by
  unfold allOf acceptances
  rw [many?_eq _ _ (by decide), all_map]
  simp only [Function.comp_def, List.all_map]
  rfl

theorem oneOf_eq : oneOf (acceptances reading fields) value =
    (listed fields "oneOf").all fun schemas =>
      (schemas.countP fun schema => accepts reading schema value) = 1 := by
  unfold oneOf acceptances
  rw [many?_eq _ _ (by decide), all_map]
  simp only [Function.comp_def, List.countP_map]
  rfl

theorem negated_eq : negated (acceptances reading fields) value =
    (only fields "not").all fun schema => !accepts reading schema value := by
  unfold negated acceptances
  rw [single?_eq _ _ (by decide), all_map]
  rfl

theorem conditional_eq : conditional (acceptances reading fields) value =
    (only fields "if").all fun condition =>
      if accepts reading condition value then
        (only fields "then").all fun schema => accepts reading schema value
      else (only fields "else").all fun schema => accepts reading schema value := by
  unfold conditional acceptances
  rw [single?_eq _ _ (by decide), single?_eq _ _ (by decide), single?_eq _ _ (by decide)]
  simp only [all_map]
  rfl

/-- **A value is valid against a schema** if every keyword allows it. -/
theorem accepts_obj : accepts reading (.obj fields) value =
    (reading.other (otherFields fields) value && properties (acceptances reading fields) value &&
      required reading fields value && items reading (acceptances reading fields) value &&
      anyOf (acceptances reading fields) value && allOf (acceptances reading fields) value &&
      oneOf (acceptances reading fields) value && negated (acceptances reading fields) value &&
      conditional (acceptances reading fields) value) := by
  unfold accepts acceptances
  rw [fold]
  rfl

theorem accepts_leaf {schema : Json} (h : schema.isObject = false) :
    accepts reading schema value = (schema.asBool.getD true) := by
  cases schema with
  | obj fields => cases h
  | _ => rfl

end Accepts

/-! ## Induction -/

theorem induct {P : Json → Prop} (hleaf : ∀ schema, schema.isObject = false → P schema)
    (hnode : ∀ fields, (∀ keyword, ∀ schema ∈ only fields keyword, P schema) →
      (∀ keyword, ∀ schemas ∈ listed fields keyword, ∀ schema ∈ schemas, P schema) →
      (∀ field ∈ propertiesOf fields, P field.2) → P (.obj fields)) (schema : Json) :
    P schema := by
  -- a value that is no schema carries the schemas of its keyword
  have hdeep : ∀ value : Json, P value ∧ (∀ elems, value = .arr elems → ∀ elem ∈ elems, P elem) ∧
      ∀ fields, value = .obj fields → ∀ field ∈ fields, P field.2 := by
    intro value
    induction value using Json.induct with
    | hobj fields ih =>
      have hget : ∀ keyword child, (Json.obj fields).get keyword = some child →
          ∃ field ∈ fields, field.2 = child := by
        intro keyword child h
        obtain ⟨field, hfind, rfl⟩ := map_eq_some_iff.mp h
        exact ⟨field, List.mem_of_find?_eq_some hfind, rfl⟩
      refine ⟨hnode fields ?_ ?_ ?_, fun elems h => (by cases h), ?_⟩
      · intro keyword child hchild
        obtain ⟨field, hfield, rfl⟩ := hget keyword child (filter_eq_some_iff.mp hchild).1
        exact (ih field hfield).1
      · intro keyword children hchildren child hchild
        obtain ⟨value, hvalue, harr⟩ := bind_eq_some_iff.mp hchildren
        obtain ⟨field, hfield, rfl⟩ := hget keyword value hvalue
        refine (ih field hfield).2.1 children ?_ child hchild
        cases hfield : field.2 with
        | arr elems =>
          rw [hfield] at harr
          rw [Option.some.inj harr]
        | _ => rw [hfield] at harr; cases harr
      · intro child hchild
        unfold propertiesOf at hchild
        split at hchild
        · next named hnamed =>
          obtain ⟨field, hfield, heq⟩ := hget "properties" _ hnamed
          exact (ih field hfield).2.2 named heq child hchild
        · cases hchild
      · intro named heq child hchild
        cases heq
        exact (ih child hchild).1
    | harr elems ih =>
      refine ⟨hleaf _ rfl, ?_, fun fields h => by cases h⟩
      intro found heq child hchild
      cases heq
      exact (ih child hchild).1
    | hnull | hbool b | hstr s | hnum n =>
      exact ⟨hleaf _ rfl, fun _ h => (by cases h), fun _ h => (by cases h)⟩
  exact (hdeep schema).1

end Schema

end Chelix.Library
