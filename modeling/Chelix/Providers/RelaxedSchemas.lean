import Chelix.Library.Lists
import Chelix.Providers.SchemaNormalization

/-!
# What normalized schemas accept

* **`normalized_accepts_iff`**: which arguments stay valid.
-/

namespace Chelix.Providers

open Chelix.Library Json Schema List Json

/-! ## Two readings -/

/-- Keywords that carry schemas and whose meaning is not given. -/
def carrierKeywords : List String :=
  ["patternProperties", "dependencies", "definitions", "$defs", "contains", "propertyNames",
    "prefixItems", "additionalProperties"]

section Readings

variable (allows : String → Json → Json → Bool)

/-- What the keywords that carry no schemas ask of a value. -/
def plainFields (node : SchemaNode) (value : Json) : Bool :=
  (node.filter fun field => field.1 ∉ carrierKeywords).all fun field =>
    allows field.1 field.2 value

def strictReading : Reading := .strict (plainFields allows)

/-- Only declared properties are required. -/
def declaredReading : Reading where
  other := plainFields allows
  names node := (requiredNames node).filter fun name => name ∈ declaredNames node
  tuple accepts elems := (elems.zip accepts).all fun entry => entry.2 entry.1

/-- Only declared properties are required, and each element of an array has one of a list of
schemas. -/
def looseReading : Reading where
  other := plainFields allows
  names node := (requiredNames node).filter fun name => name ∈ declaredNames node
  tuple accepts elems := elems.all fun elem => accepts.any fun p => p elem

end Readings

/-! ## Rewritten schemas -/

theorem get_obj (node : SchemaNode) (keyword : String) :
    (obj node).get keyword =
      (node.find? fun field => field.1 = keyword).map Prod.snd := rfl

theorem get_updateField_self (node : SchemaNode) (keyword : String) (f : Json → Json) :
    (obj (updateField node keyword f)).get keyword =
      ((obj node).get keyword).map f := by
  unfold updateField
  simp only [get_obj]
  induction node with
  | nil => rfl
  | cons field node ih =>
    rw [map_cons, List.find?_cons, List.find?_cons]
    by_cases h : field.1 = keyword
    · simp [h]
    · simp only [h, if_false, decide_false]
      exact ih

variable {keyword : String}

theorem get_updateField_ne (node : SchemaNode) {other : String} (f : Json → Json)
    (hne : other ≠ keyword) :
    (obj (updateField node keyword f)).get other = (obj node).get other := by
  unfold updateField
  simp only [get_obj]
  induction node with
  | nil => rfl
  | cons field node ih =>
    rw [map_cons, List.find?_cons, List.find?_cons]
    by_cases h : field.1 = keyword
    · have hother : keyword ≠ other := hne.symm
      simp only [h, if_true, hother, decide_false]
      exact ih
    · simp only [h, if_false]
      cases decide (field.1 = other) with
      | true => rfl
      | false => exact ih

theorem filter_updateField (node : SchemaNode) (f : Json → Json) {p : String → Bool}
    (hp : p keyword = false) :
    (updateField node keyword f).filter (fun field => p field.1) =
      node.filter fun field => p field.1 := by
  unfold updateField
  induction node with
  | nil => rfl
  | cons field node ih =>
    rw [map_cons, filter_cons, filter_cons, ih]
    by_cases h : field.1 = keyword
    · rw [if_pos h, h, hp]
      rfl
    · rw [if_neg h]

section Rewrite

variable (rewrite : SchemaNode → SchemaNode)

theorem rewriteList_eq (schemas : List Json) :
    rewriteList rewrite schemas = schemas.map (visitSchemaNodesMut rewrite) := by
  induction schemas with
  | nil => rfl
  | cons schema schemas ih => rw [rewriteList, ih, map_cons]

variable (node : SchemaNode)

theorem rewriteEntries_eq :
    rewriteEntries rewrite node =
      node.map fun field => (field.1, visitSchemaNodesMut rewrite field.2) := by
  induction node with
  | nil => rfl
  | cons field node ih => rw [rewriteEntries, ih, map_cons]

theorem rewriteFields_eq :
    rewriteFields rewrite node =
      node.map fun field => (field.1, rewriteKeyword rewrite field.1 field.2) := by
  induction node with
  | nil => rfl
  | cons field node ih => rw [rewriteFields, ih, map_cons]

theorem get_rewriteFields (keyword : String) :
    (obj (rewriteFields rewrite node)).get keyword =
      ((obj node).get keyword).map (rewriteKeyword rewrite keyword) := by
  rw [rewriteFields_eq, get_obj, get_obj]
  induction node with
  | nil => rfl
  | cons field node ih =>
    rw [map_cons, List.find?_cons, List.find?_cons]
    by_cases h : field.1 = keyword
    · simp [h]
    · simp only [h, decide_false]
      exact ih

theorem rewriteKeyword_plain (hmap : holdsSchemaMap keyword = false)
    (harray : holdsSchemaArray keyword = false) (hsingle : holdsSchema keyword = false)
    (value : Json) : rewriteKeyword rewrite keyword value = value := by
  cases value with
  | obj entries => rw [rewriteKeyword, hmap, hsingle]; rfl
  | arr schemas => rw [rewriteKeyword, harray]; rfl
  | _ => rfl

theorem filter_rewriteKeyword (hmap : holdsSchemaMap keyword = false)
    (hsingle : holdsSchema keyword = true) (value : Option Json) :
    (value.map (rewriteKeyword rewrite keyword)).filter isSchema =
      (value.filter isSchema).map (visitSchemaNodesMut rewrite) := by
  cases value with
  | none => rfl
  | some value =>
    cases value with
    | obj entries =>
      rw [Option.map_some, rewriteKeyword, hmap, hsingle]
      rfl
    | _ => rfl

theorem bind_rewriteKeyword (harray : holdsSchemaArray keyword = true) (value : Option Json) :
    (value.map (rewriteKeyword rewrite keyword)).bind asArray =
      (value.bind asArray).map fun schemas => schemas.map (visitSchemaNodesMut rewrite) := by
  cases value with
  | none => rfl
  | some value =>
    cases value with
    | arr schemas =>
      rw [Option.map_some, rewriteKeyword, harray, if_pos rfl, rewriteList_eq]
      rfl
    | obj entries =>
      rw [Option.map_some, rewriteKeyword]
      split
      · rfl
      · split <;> rfl
    | _ => rfl

/-- A keyword that the readings leave to the other keywords. -/
def isPlain (keyword : String) : Bool := keyword ∉ knownKeywords && keyword ∉ carrierKeywords

theorem not_holds_of_isPlain (h : isPlain keyword = true) :
    holdsSchemaMap keyword = false ∧ holdsSchemaArray keyword = false ∧
      holdsSchema keyword = false := by
  have hmem : ∀ known : String, isPlain known = false → keyword ≠ known := by
    rintro known hknown rfl
    rw [hknown] at h
    cases h
  have hlist : ∀ keywords : List String, (keywords.all fun known => !isPlain known) = true →
      keyword ∉ keywords := fun keywords hall hin =>
    hmem keyword (by simpa using all_eq_true.mp hall keyword hin) rfl
  refine ⟨decide_eq_false (hlist _ (by decide)), ?_, ?_⟩
  · simp only [holdsSchemaArray, hlist schemaArrayKeywords (by decide), hmem "items" (by decide),
      hmem "prefixItems" (by decide), decide_false, Bool.or_false]
  · simp only [holdsSchema, hlist nestedSchemaKeywords (by decide), hmem "items" (by decide),
      hmem "additionalProperties" (by decide), decide_false, Bool.or_false]

theorem filter_rewriteFields :
    (rewriteFields rewrite node).filter (fun field => isPlain field.1) =
      node.filter fun field => isPlain field.1 := by
  rw [rewriteFields_eq]
  induction node with
  | nil => rfl
  | cons field node ih =>
    rw [map_cons, filter_cons, filter_cons, ih]
    cases h : isPlain field.1 with
    | true =>
      obtain ⟨hmap, harray, hsingle⟩ := not_holds_of_isPlain h
      rw [rewriteKeyword_plain rewrite hmap harray hsingle]
    | false => rfl

end Rewrite

theorem plainFields_otherFields (allows : String → Json → Json → Bool) (node : SchemaNode) :
    plainFields allows (otherFields node) = fun value =>
      (node.filter fun field => isPlain field.1).all fun field => allows field.1 field.2 value := by
  unfold plainFields otherFields isPlain
  simp only [filter_filter, Bool.and_comm]

/-! ## A rewrite as a reading -/

section Visited

variable (keyword : String) (f : SchemaNode → Json → Json)

/-- A rewrite of the value of one keyword. -/
def rewriteValue (node : SchemaNode) : SchemaNode := updateField node keyword (f node)

def visited : Json → Json := visitSchemaNodesMut (rewriteValue keyword f)

def visitedNode (node : SchemaNode) : SchemaNode :=
  rewriteValue keyword f (rewriteFields (rewriteValue keyword f) node)

variable {keyword f}

theorem only_visitedNode {name : String} (hmap : holdsSchemaMap name = false)
    (hholds : holdsSchema name = true) (hne : name ≠ keyword) (node : SchemaNode) :
    only (visitedNode keyword f node) name = (only node name).map (visited keyword f) := by
  unfold only visitedNode visited
  rw [rewriteValue, get_updateField_ne _ _ hne, get_rewriteFields,
    filter_rewriteKeyword _ hmap hholds]

theorem listed_visitedNode {name : String} (hname : holdsSchemaArray name = true)
    (hne : name ≠ keyword) (node : SchemaNode) :
    listed (visitedNode keyword f node) name =
      (listed node name).map fun schemas => schemas.map (visited keyword f) := by
  unfold listed visitedNode visited
  rw [rewriteValue, get_updateField_ne _ _ hne, get_rewriteFields, bind_rewriteKeyword _ hname]

theorem propertiesOf_visitedNode (hne : "properties" ≠ keyword) (node : SchemaNode) :
    propertiesOf (visitedNode keyword f node) =
      (propertiesOf node).map fun field => (field.1, visited keyword f field.2) := by
  unfold propertiesOf visitedNode visited
  rw [rewriteValue, get_updateField_ne _ _ hne, get_rewriteFields]
  cases (obj node).get "properties" with
  | none => rfl
  | some value =>
    cases value with
    | obj named =>
      have hholds : holdsSchemaMap "properties" = true := by decide
      rw [Option.map_some, rewriteKeyword, hholds, if_pos rfl, rewriteEntries_eq]
    | _ => rfl

theorem plainFields_visitedNode (hkeyword : isPlain keyword = false)
    (allows : String → Json → Json → Bool) (node : SchemaNode) :
    plainFields allows (otherFields (visitedNode keyword f node)) =
      plainFields allows (otherFields node) := by
  rw [plainFields_otherFields, plainFields_otherFields, visitedNode, rewriteValue,
    filter_updateField _ _ hkeyword, filter_rewriteFields]

/-- **A rewrite of every schema is another reading of the schema**, if it is one of the names that
are required or of the schemas of elements. -/
theorem accepts_visited {source target : Reading} {allows : String → Json → Json → Bool}
    (hkeyword : keyword ∈ ["items", "required"]) (hsource : source.other = plainFields allows)
    (htarget : target.other = plainFields allows)
    (hrequired : ∀ node value, required target (visitedNode keyword f node) value =
      required source node value)
    (hitems : ∀ node value,
      (∀ schema ∈ only node "items", ∀ elem,
        accepts target (visited keyword f schema) elem = accepts source schema elem) →
      (∀ schemas ∈ listed node "items", ∀ schema ∈ schemas, ∀ elem,
        accepts target (visited keyword f schema) elem = accepts source schema elem) →
      items target (acceptances target (visitedNode keyword f node)) value =
        items source (acceptances source node) value)
    (schema value : Json) :
    accepts target (visited keyword f schema) value = accepts source schema value := by
  induction schema using Schema.induct generalizing value with
  | hleaf schema hschema =>
    cases schema with
    | obj node => cases hschema
    | _ => rfl
  | hnode node honly hlisted hproperties =>
    have hne : ∀ name, name ∉ ["items", "required"] → name ≠ keyword := by
      rintro name hname rfl
      exact hname hkeyword
    have hplain : isPlain keyword = false :=
      (by decide : ∀ name ∈ ["items", "required"], isPlain name = false) keyword hkeyword
    have hvisited : visited keyword f (.obj node) = .obj (visitedNode keyword f node) := rfl
    -- one schema, or a list of schemas, of a keyword
    have hsingle : ∀ name ∈ ["not", "if", "then", "else"],
        ∀ p : (Json → Json → Bool) → Json → Bool,
        (∀ schema ∈ only node name, p (accepts target) (visited keyword f schema) =
          p (accepts source) schema) →
        (only (visitedNode keyword f node) name).all (p (accepts target)) =
          (only node name).all (p (accepts source)) := by
      intro name hname p hp
      obtain ⟨hmap, hholds, hname'⟩ := (by decide : ∀ name ∈ ["not", "if", "then", "else"],
        holdsSchemaMap name = false ∧ holdsSchema name = true ∧ name ∉ ["items", "required"])
        name hname
      rw [only_visitedNode hmap hholds (hne name hname'), Option.all_map]
      cases h : only node name with
      | none => rfl
      | some schema => exact hp schema h
    have hmany : ∀ name ∈ ["anyOf", "allOf", "oneOf"],
        ∀ p : (Json → Json → Bool) → List Json → Bool,
        (∀ schemas ∈ listed node name, p (accepts target) (schemas.map (visited keyword f)) =
          p (accepts source) schemas) →
        (listed (visitedNode keyword f node) name).all (p (accepts target)) =
          (listed node name).all (p (accepts source)) := by
      intro name hname p hp
      obtain ⟨harray, hname'⟩ := (by decide : ∀ name ∈ ["anyOf", "allOf", "oneOf"],
        holdsSchemaArray name = true ∧ name ∉ ["items", "required"]) name hname
      rw [listed_visitedNode harray (hne name hname'), Option.all_map]
      cases h : listed node name with
      | none => rfl
      | some schemas => exact hp schemas h
    have hone : ∀ name ∈ ["not", "if", "then", "else"],
        (only (visitedNode keyword f node) name).all (fun schema => accepts target schema value) =
          (only node name).all fun schema => accepts source schema value := fun name hname =>
      hsingle name hname (fun accepts schema => accepts schema value) fun schema hschema =>
        honly name schema hschema value
    have hproperty : properties (acceptances target (visitedNode keyword f node)) value =
        properties (acceptances source node) value := by
      rw [properties_eq, properties_eq, propertiesOf_visitedNode (hne _ (by decide)), all_map]
      refine all_congr_of_mem fun field hfield => ?_
      rw [Function.comp_apply, funext (hproperties field hfield)]
    have hany : anyOf (acceptances target (visitedNode keyword f node)) value =
        anyOf (acceptances source node) value := by
      rw [anyOf_eq, anyOf_eq]
      refine hmany "anyOf" (by decide) (fun accepts schemas =>
        schemas.any fun schema => accepts schema value) fun schemas hschemas => ?_
      rw [any_map]
      exact any_congr_of_mem fun schema hschema =>
        hlisted "anyOf" schemas hschemas schema hschema value
    have hall : allOf (acceptances target (visitedNode keyword f node)) value =
        allOf (acceptances source node) value := by
      rw [allOf_eq, allOf_eq]
      refine hmany "allOf" (by decide) (fun accepts schemas =>
        schemas.all fun schema => accepts schema value) fun schemas hschemas => ?_
      rw [all_map]
      exact all_congr_of_mem fun schema hschema =>
        hlisted "allOf" schemas hschemas schema hschema value
    have honeOf : oneOf (acceptances target (visitedNode keyword f node)) value =
        oneOf (acceptances source node) value := by
      rw [oneOf_eq, oneOf_eq]
      refine hmany "oneOf" (by decide) (fun accepts schemas =>
        decide ((schemas.countP fun schema => accepts schema value) = 1)) fun schemas hschemas => ?_
      rw [countP_map]
      congr 2
      refine countP_congr fun schema hschema => ?_
      rw [Function.comp_apply, hlisted "oneOf" schemas hschemas schema hschema value]
    have hnot : negated (acceptances target (visitedNode keyword f node)) value =
        negated (acceptances source node) value := by
      rw [negated_eq, negated_eq]
      refine hsingle "not" (by decide) (fun accepts schema => !accepts schema value)
        fun schema hschema => ?_
      exact congrArg (! ·) (honly "not" schema hschema value)
    have hif : conditional (acceptances target (visitedNode keyword f node)) value =
        conditional (acceptances source node) value := by
      rw [conditional_eq, conditional_eq, hone "then" (by decide), hone "else" (by decide)]
      refine hsingle "if" (by decide) (fun accepts condition =>
        if accepts condition value then
          (only node "then").all fun schema => Schema.accepts source schema value
        else (only node "else").all fun schema => Schema.accepts source schema value)
        fun schema hschema => ?_
      rw [honly "if" schema hschema value]
    rw [hvisited, accepts_obj, accepts_obj, hsource, htarget, plainFields_visitedNode hplain,
      hproperty, hrequired, hitems node value (honly "items") (hlisted "items"), hany, hall, honeOf,
      hnot, hif]

end Visited

/-! ## The two rewrites -/

theorem declaredNames_eq (node : SchemaNode) :
    declaredNames node = (propertiesOf node).map Prod.fst := by
  unfold declaredNames propertiesOf
  rcases (obj node).get "properties" with _ | value
  · rfl
  · cases value <;> rfl

section Passes

variable (allows : String → Json → Json → Bool)

theorem requiredNames_visitedNode (hne : "required" ≠ keyword) (f : SchemaNode → Json → Json)
    (node : SchemaNode) : requiredNames (visitedNode keyword f node) = requiredNames node := by
  unfold requiredNames visitedNode
  rw [rewriteValue, get_updateField_ne _ _ hne, get_rewriteFields]
  cases (obj node).get "required" with
  | none => rfl
  | some value =>
    rw [Option.map_some, rewriteKeyword_plain _ (by decide) (by decide) (by decide)]

theorem declaredNames_visitedNode (hne : "properties" ≠ keyword) (f : SchemaNode → Json → Json)
    (node : SchemaNode) : declaredNames (visitedNode keyword f node) = declaredNames node := by
  rw [declaredNames_eq, declaredNames_eq, propertiesOf_visitedNode hne, map_map]
  rfl

theorem accepts_anyOf (schemas : List Json) (value : Json) :
    accepts (declaredReading allows) (tupleToUnion (.arr schemas)) value =
      schemas.any fun schema => accepts (declaredReading allows) schema value := by
  have hnames : (declaredReading allows).names [("anyOf", .arr schemas)] = [] := rfl
  have hrequired : required (declaredReading allows) [("anyOf", .arr schemas)] value = true := by
    unfold required
    rw [hnames]
    cases value <;> rfl
  rw [tupleToUnion, accepts_obj, hrequired, properties_eq, items_eq, anyOf_eq, allOf_eq, oneOf_eq,
    negated_eq, conditional_eq]
  cases value <;> simp [listed, only, propertiesOf, Json.get, Json.asArray, declaredReading,
    plainFields, otherFields, knownKeywords]

variable (schema value : Json)

theorem accepts_replaceTupleItems :
    accepts (declaredReading allows) (replaceTupleItems schema) value =
      accepts (looseReading allows) schema value := by
  refine accepts_visited (f := fun _ => tupleToUnion) (by decide) rfl rfl (fun node value => ?_)
    (fun node value honly hlisted => ?_) schema value
  · have hnames : (declaredReading allows).names
        (visitedNode "items" (fun _ => tupleToUnion) node) = (looseReading allows).names node := by
      show (requiredNames _).filter _ = (requiredNames _).filter _
      rw [requiredNames_visitedNode (by decide), declaredNames_visitedNode (by decide)]
    unfold required
    rw [hnames]
  · have hget : (obj (visitedNode "items" (fun _ => tupleToUnion) node)).get "items" =
        (((obj node).get "items").map
          (rewriteKeyword (rewriteValue "items" fun _ => tupleToUnion) "items")).map
            tupleToUnion := by
      rw [visitedNode, rewriteValue, get_updateField_self, get_rewriteFields]
    have honlyEq : only (visitedNode "items" (fun _ => tupleToUnion) node) "items" =
        ((((obj node).get "items").map (rewriteKeyword
          (rewriteValue "items" fun _ => tupleToUnion) "items")).map tupleToUnion).filter
            isSchema := congrArg (Option.filter isSchema) hget
    have hlistedEq : listed (visitedNode "items" (fun _ => tupleToUnion) node) "items" =
        ((((obj node).get "items").map (rewriteKeyword
          (rewriteValue "items" fun _ => tupleToUnion) "items")).map tupleToUnion).bind
            asArray := congrArg (Option.bind · asArray) hget
    rw [items_eq, items_eq, honlyEq, hlistedEq]
    cases value with
    | arr elems =>
      cases hitems : (obj node).get "items" with
      | none =>
        have hnone : only node "items" = none := congrArg (Option.filter isSchema) hitems
        have hnoList : listed node "items" = none := congrArg (Option.bind · asArray) hitems
        rw [hnone, hnoList]
        rfl
      | some items =>
        have honlyNode : only node "items" = (some items).filter isSchema :=
          congrArg (Option.filter isSchema) hitems
        have hlistedNode : listed node "items" = items.asArray :=
          congrArg (Option.bind · asArray) hitems
        rw [honlyNode, hlistedNode, Option.map_some, Option.map_some]
        rw [honlyNode] at honly
        rw [hlistedNode] at hlisted
        cases items with
        | arr schemas =>
          have hwritten : rewriteKeyword (rewriteValue "items" fun _ => tupleToUnion) "items"
              (.arr schemas) = .arr (schemas.map (visited "items" fun _ => tupleToUnion)) := by
            rw [rewriteKeyword, if_pos (by decide), rewriteList_eq]
            rfl
          have hunion : ∀ elem, accepts (declaredReading allows)
              (tupleToUnion (.arr (schemas.map (visited "items" fun _ => tupleToUnion)))) elem =
                schemas.any fun schema => accepts (looseReading allows) schema elem := by
            intro elem
            rw [accepts_anyOf, any_map]
            exact any_congr_of_mem fun schema hschema => hlisted schemas rfl schema hschema elem
          have hall : (elems.all fun elem => accepts (declaredReading allows)
              (tupleToUnion (.arr (schemas.map (visited "items" fun _ => tupleToUnion)))) elem) =
                (looseReading allows).tuple (schemas.map (accepts (looseReading allows)))
                  elems := by
            refine all_congr_of_mem fun elem _ => ?_
            rw [hunion, any_map]
            rfl
          rw [hwritten]
          exact (Bool.and_true _).trans hall
        | obj entries =>
          have hwritten : tupleToUnion (rewriteKeyword (rewriteValue "items" fun _ => tupleToUnion)
              "items" (.obj entries)) = visited "items" (fun _ => tupleToUnion) (.obj entries) := by
            rw [rewriteKeyword, if_neg (by decide), if_pos (by decide)]
            rfl
          have hall : (elems.all (accepts (declaredReading allows)
              (visited "items" (fun _ => tupleToUnion) (.obj entries)))) =
                elems.all (accepts (looseReading allows) (.obj entries)) :=
            all_congr_of_mem fun elem _ => honly _ rfl elem
          rw [hwritten]
          exact congrArg (· && true) hall
        | bool b | null | num n | str text => rfl
    | _ => rfl

theorem requiredNames_pruned (node : SchemaNode) :
    requiredNames (visitedNode "required" (fun node => retainDeclared (declaredNames node)) node) =
      (requiredNames node).filter fun name => name ∈ declaredNames node := by
  have hdeclared : declaredNames (rewriteFields (rewriteValue "required" fun node =>
      retainDeclared (declaredNames node)) node) = declaredNames node := by
    unfold declaredNames
    rw [get_rewriteFields]
    cases (obj node).get "properties" with
    | none => rfl
    | some value =>
      cases value with
      | obj named =>
        rw [Option.map_some, rewriteKeyword, if_pos (by decide), rewriteEntries_eq]
        exact map_map
      | _ => rfl
  have hentries : ∀ entries : List Json,
      (entries.filter fun entry => entry.asStr.any fun name => name ∈ declaredNames node).filterMap
        asStr = (entries.filterMap asStr).filter fun name => name ∈ declaredNames node := by
    intro entries
    rw [filterMap_filter, filter_filterMap]
    refine filterMap_congr fun entry _ => ?_
    cases entry with
    | str name =>
      by_cases h : name ∈ declaredNames node <;> simp [asStr, Option.filter_some, h]
    | _ => rfl
  unfold requiredNames
  rw [visitedNode, rewriteValue, get_updateField_self, get_rewriteFields, hdeclared]
  cases (obj node).get "required" with
  | none => rfl
  | some value =>
    rw [Option.map_some, Option.map_some,
      rewriteKeyword_plain _ (by decide) (by decide) (by decide)]
    cases value with
    | arr entries => exact hentries entries
    | _ => rfl

theorem accepts_pruneOrphanedRequired :
    accepts (strictReading allows) (pruneOrphanedRequired schema) value =
      accepts (declaredReading allows) schema value := by
  refine accepts_visited (f := fun node => retainDeclared (declaredNames node)) (by decide) rfl rfl
    (fun node value => ?_) (fun node value honly hlisted => ?_) schema value
  · have hnames : (strictReading allows).names (visitedNode "required"
        (fun node => retainDeclared (declaredNames node)) node) =
          (declaredReading allows).names node := requiredNames_pruned node
    unfold required
    rw [hnames]
  · rw [items_eq, items_eq, only_visitedNode (by decide) (by decide) (by decide),
      listed_visitedNode (by decide) (by decide)]
    cases value with
    | arr elems =>
      refine congrArg₂ (· && ·) ?_ ?_
      · rw [Option.all_map]
        cases h : only node "items" with
        | none => rfl
        | some items => exact all_congr_of_mem fun elem _ => honly items h elem
      · rw [Option.all_map]
        cases h : listed node "items" with
        | none => rfl
        | some schemas =>
          have hmap : (schemas.map (visited "required" fun node =>
              retainDeclared (declaredNames node))).map (accepts (strictReading allows)) =
                schemas.map (accepts (declaredReading allows)) := by
            rw [map_map]
            exact map_congr_left fun schema hschema =>
              funext (hlisted schemas h schema hschema)
          rw [Option.all_some, hmap]
          rfl
    | _ => rfl

theorem accepts_of_same {node node' : SchemaNode} (hget : ∀ keyword, keyword ≠ "properties" →
      (obj node').get keyword = (obj node).get keyword)
    (hproperties : propertiesOf node' = propertiesOf node)
    (hplain : node'.filter (fun field => isPlain field.1) =
      node.filter fun field => isPlain field.1) (value : Json) :
    accepts (looseReading allows) (.obj node') value =
      accepts (looseReading allows) (.obj node) value := by
  have honly : ∀ keyword, keyword ≠ "properties" → only node' keyword = only node keyword :=
    fun keyword hne => congrArg (Option.filter isSchema) (hget keyword hne)
  have hlisted : ∀ keyword, keyword ≠ "properties" → listed node' keyword = listed node keyword :=
    fun keyword hne => congrArg (Option.bind · asArray) (hget keyword hne)
  have hother : (looseReading allows).other (otherFields node') =
      (looseReading allows).other (otherFields node) := by
    show plainFields allows _ = plainFields allows _
    rw [plainFields_otherFields, plainFields_otherFields, hplain]
  have hrequired : required (looseReading allows) node' value =
      required (looseReading allows) node value := by
    have hnames : (looseReading allows).names node' = (looseReading allows).names node := by
      show (requiredNames _).filter _ = (requiredNames _).filter _
      rw [declaredNames_eq, declaredNames_eq, hproperties, requiredNames, requiredNames,
        hget "required" (by decide)]
    unfold required
    rw [hnames]
  rw [accepts_obj, accepts_obj, hother, hrequired]
  simp only [properties_eq, items_eq, anyOf_eq, allOf_eq, oneOf_eq, negated_eq, conditional_eq]
  rw [hproperties, honly "items" (by decide), honly "not" (by decide), honly "if" (by decide),
    honly "then" (by decide), honly "else" (by decide), hlisted "items" (by decide),
    hlisted "anyOf" (by decide), hlisted "allOf" (by decide), hlisted "oneOf" (by decide)]

theorem accepts_ensurePropertyMap :
    accepts (looseReading allows) (ensurePropertyMap schema) value =
      accepts (looseReading allows) schema value := by
  cases schema with
  | obj node =>
    rw [ensurePropertyMap]
    split
    · rfl
    · next hobject =>
      have hnone : propertiesOf node = [] := by
        unfold propertiesOf
        split
        · next named h => exact absurd (by rw [h]; rfl) hobject
        · rfl
      split
      · refine accepts_of_same allows (fun keyword hne => get_updateField_ne _ _ hne) ?_
          (filter_updateField _ _ (by decide)) value
        rw [hnone, propertiesOf, get_updateField_self]
        cases (obj node).get "properties" with
        | none | some properties => rfl
      · next hmissing =>
        have hget : ∀ keyword, (obj (node ++ [("properties", .obj [])])).get keyword =
            ((obj node).get keyword).or
              (if "properties" = keyword then some (.obj []) else none) := by
          intro keyword
          rw [get_obj, get_obj, List.find?_append, List.find?_singleton]
          cases node.find? fun field => field.1 = keyword with
          | none => by_cases h : "properties" = keyword <;> simp [h]
          | some field => rfl
        refine accepts_of_same allows (fun keyword hne => ?_) ?_ ?_ value
        · rw [hget, if_neg hne.symm, Option.or_none]
        · have habsent : (obj node).get "properties" = none := by simpa using hmissing
          rw [hnone, propertiesOf, hget, habsent, if_pos rfl]
          rfl
        · have hlast :
              [("properties", obj [])].filter (fun field => isPlain field.1) = [] := by
            rw [filter_cons_of_neg (by decide)]
            rfl
          rw [filter_append, hlast, append_nil]
  | _ => rfl

/-- **A normalized schema is the schema in the loose reading.** -/
theorem accepts_normalized :
    accepts (strictReading allows)
        (pruneOrphanedRequired (replaceTupleItems (ensurePropertyMap schema))) value =
      accepts (looseReading allows) schema value := by
  rw [accepts_pruneOrphanedRequired, accepts_replaceTupleItems, accepts_ensurePropertyMap]

end Passes

/-! ## Where both readings agree -/

/-- The names that are required and not declared. -/
def orphanedNames (node : SchemaNode) : List String :=
  (requiredNames node).filter fun name => name ∉ declaredNames node

/-- Two checks of a schema and a value: what the schema accepts stays accepted, and the verdict
stays the same. -/
abbrev Checks := Json → Bool × Bool

section Spared

variable (meanings : List (String × Meaning Checks)) (side : Bool × Bool → Bool) (value : Json)

def checkProperties : Bool :=
  (named? meanings).all fun entry => (value.get entry.1).all fun part => side (entry.2 part)

def checkItems : Bool :=
  match value with
  | .arr elems =>
    (single? meanings "items").all fun check => elems.all fun elem => side (check elem)
  | _ => true

def checkSingle (keyword : String) : Bool :=
  (single? meanings keyword).all fun check => side (check value)

def checkMany (keyword : String) : Bool :=
  (many? meanings keyword).all fun checks => checks.all fun check => side (check value)

/-- An array that is read as a tuple is no longer than the tuple, and its elements are kept. -/
def checkTuple : Bool :=
  match value with
  | .arr elems => (many? meanings "items").all fun checks =>
    decide (elems.length ≤ checks.length) &&
      (elems.zip checks).all fun entry => (entry.2 entry.1).1
  | _ => true

/-- An array that is read as a tuple is empty. -/
def checkNoTuple : Bool :=
  match value with
  | .arr elems => (many? meanings "items").all fun _ => elems.isEmpty
  | _ => true

/-- An object has the names that are required and not declared. -/
def checkOrphans (node : SchemaNode) : Bool :=
  match value with
  | .obj _ => (orphanedNames node).all fun name => (value.get name).isSome
  | _ => true

/-- The verdict stays the same. -/
def steadyNode (node : SchemaNode) : Bool :=
  checkOrphans value node && checkNoTuple meanings value &&
    checkProperties meanings Prod.snd value && checkItems meanings Prod.snd value &&
    ["anyOf", "allOf", "oneOf"].all (checkMany meanings Prod.snd value) &&
    ["not", "if", "then", "else"].all (checkSingle meanings Prod.snd value)

/-- What is accepted stays accepted: under `not`, `if` and `oneOf` the verdict has to stay the
same. -/
def keptNode : Bool :=
  checkTuple meanings value && checkProperties meanings Prod.fst value &&
    checkItems meanings Prod.fst value &&
    ["anyOf", "allOf"].all (checkMany meanings Prod.fst value) &&
    ["oneOf"].all (checkMany meanings Prod.snd value) &&
    ["then", "else"].all (checkSingle meanings Prod.fst value) &&
    ["not", "if"].all (checkSingle meanings Prod.snd value)

end Spared

/-- **Whether a value is spared what normalization changes in a schema.** -/
def spared : Json → Checks :=
  fold (fun _ _ => (true, true)) fun node meanings value =>
    (keptNode meanings value, steadyNode meanings value node)

def sparedMeanings : SchemaNode → List (String × Meaning Checks) :=
  meanings (fun _ _ => (true, true)) fun node meanings value =>
    (keptNode meanings value, steadyNode meanings value node)

variable {elems : List Json}

section SparedLaw

variable (node : SchemaNode) (value : Json)

theorem spared_obj : spared (.obj node) value =
    (keptNode (sparedMeanings node) value, steadyNode (sparedMeanings node) value node) := by
  unfold spared sparedMeanings
  rw [fold]

variable {node value} {side : Bool × Bool → Bool}

theorem checkProperties_iff : checkProperties (sparedMeanings node) side value = true ↔
    ∀ field ∈ propertiesOf node, ∀ part ∈ value.get field.1,
      side (spared field.2 part) = true := by
  unfold checkProperties sparedMeanings
  rw [named?_eq, all_map, all_eq_true]
  refine forall₂_congr fun field _ => ?_
  rw [Function.comp_apply, Option.all_eq_true]
  rfl

theorem checkItems_iff :
    checkItems (sparedMeanings node) side (.arr elems) = true ↔
      ∀ schema ∈ only node "items", ∀ elem ∈ elems, side (spared schema elem) = true := by
  unfold checkItems sparedMeanings
  rw [single?_eq _ _ (by decide)]
  simp only [Option.all_map, Option.all_eq_true]
  refine forall₂_congr fun schema _ => ?_
  rw [all_eq_true]
  rfl

theorem checkSingle_iff (hkeyword : keyword ∈ singleKeywords) :
    checkSingle (sparedMeanings node) side value keyword = true ↔
      ∀ schema ∈ only node keyword, side (spared schema value) = true := by
  unfold checkSingle sparedMeanings
  rw [single?_eq _ _ hkeyword, Option.all_map, Option.all_eq_true]
  rfl

theorem checkMany_iff (hkeyword : keyword ∈ arrayKeywords) :
    checkMany (sparedMeanings node) side value keyword = true ↔
      ∀ schemas ∈ listed node keyword, ∀ schema ∈ schemas, side (spared schema value) = true := by
  unfold checkMany sparedMeanings
  rw [many?_eq _ _ hkeyword, Option.all_map, Option.all_eq_true]
  refine forall₂_congr fun schemas _ => ?_
  rw [all_map, all_eq_true]
  rfl

theorem checkTuple_iff :
    checkTuple (sparedMeanings node) (.arr elems) = true ↔
      ∀ schemas ∈ listed node "items", elems.length ≤ schemas.length ∧
        ∀ entry ∈ elems.zip schemas, (spared entry.2 entry.1).1 = true := by
  unfold checkTuple sparedMeanings
  rw [many?_eq _ _ (by decide)]
  simp only [Option.all_map, Option.all_eq_true]
  refine forall₂_congr fun schemas _ => ?_
  rw [Bool.and_eq_true, decide_eq_true_iff, length_map,
    zip_map_right, all_map, all_eq_true]
  rfl

theorem checkNoTuple_iff :
    checkNoTuple (sparedMeanings node) (.arr elems) = true ↔
      ∀ schemas ∈ listed node "items", elems = [] := by
  unfold checkNoTuple sparedMeanings
  rw [many?_eq _ _ (by decide)]
  simp only [Option.all_map, Option.all_eq_true]
  exact forall₂_congr fun schemas _ => isEmpty_iff

theorem steadyNode_iff : steadyNode (sparedMeanings node) value node = true ↔
    checkOrphans value node = true ∧ checkNoTuple (sparedMeanings node) value = true ∧
      checkProperties (sparedMeanings node) Prod.snd value = true ∧
      checkItems (sparedMeanings node) Prod.snd value = true ∧
      (∀ keyword ∈ ["anyOf", "allOf", "oneOf"], ∀ schemas ∈ listed node keyword,
        ∀ schema ∈ schemas, (spared schema value).2 = true) ∧
      ∀ keyword ∈ ["not", "if", "then", "else"], ∀ schema ∈ only node keyword,
        (spared schema value).2 = true := by
  have hmany : (["anyOf", "allOf", "oneOf"].all
      (checkMany (sparedMeanings node) Prod.snd value)) = true ↔
        ∀ keyword ∈ ["anyOf", "allOf", "oneOf"], ∀ schemas ∈ listed node keyword,
          ∀ schema ∈ schemas, (spared schema value).2 = true := by
    rw [all_eq_true]
    exact forall₂_congr fun keyword hkeyword => checkMany_iff
      ((by decide : ∀ keyword ∈ ["anyOf", "allOf", "oneOf"], keyword ∈ arrayKeywords) _ hkeyword)
  have hsingle : (["not", "if", "then", "else"].all
      (checkSingle (sparedMeanings node) Prod.snd value)) = true ↔
        ∀ keyword ∈ ["not", "if", "then", "else"], ∀ schema ∈ only node keyword,
          (spared schema value).2 = true := by
    rw [all_eq_true]
    exact forall₂_congr fun keyword hkeyword => checkSingle_iff
      ((by decide : ∀ keyword ∈ ["not", "if", "then", "else"], keyword ∈ singleKeywords) _ hkeyword)
  unfold steadyNode
  simp only [Bool.and_eq_true, hmany, hsingle, and_assoc]

theorem keptNode_iff : keptNode (sparedMeanings node) value = true ↔
    checkTuple (sparedMeanings node) value = true ∧
      checkProperties (sparedMeanings node) Prod.fst value = true ∧
      checkItems (sparedMeanings node) Prod.fst value = true ∧
      (∀ keyword ∈ ["anyOf", "allOf"], ∀ schemas ∈ listed node keyword,
        ∀ schema ∈ schemas, (spared schema value).1 = true) ∧
      (∀ schemas ∈ listed node "oneOf", ∀ schema ∈ schemas, (spared schema value).2 = true) ∧
      (∀ keyword ∈ ["then", "else"], ∀ schema ∈ only node keyword,
        (spared schema value).1 = true) ∧
      ∀ keyword ∈ ["not", "if"], ∀ schema ∈ only node keyword,
        (spared schema value).2 = true := by
  have hmany : (["anyOf", "allOf"].all (checkMany (sparedMeanings node) Prod.fst value)) = true ↔
      ∀ keyword ∈ ["anyOf", "allOf"], ∀ schemas ∈ listed node keyword,
        ∀ schema ∈ schemas, (spared schema value).1 = true := by
    rw [all_eq_true]
    exact forall₂_congr fun keyword hkeyword => checkMany_iff
      ((by decide : ∀ keyword ∈ ["anyOf", "allOf"], keyword ∈ arrayKeywords) _ hkeyword)
  have honeOf : (["oneOf"].all (checkMany (sparedMeanings node) Prod.snd value)) = true ↔
      ∀ schemas ∈ listed node "oneOf", ∀ schema ∈ schemas, (spared schema value).2 = true := by
    rw [all_cons, all_nil, Bool.and_true]
    exact checkMany_iff (by decide)
  have hsingle : ∀ (side : Bool × Bool → Bool) (keywords : List String),
      (∀ keyword ∈ keywords, keyword ∈ singleKeywords) →
        ((keywords.all (checkSingle (sparedMeanings node) side value)) = true ↔
          ∀ keyword ∈ keywords, ∀ schema ∈ only node keyword,
            side (spared schema value) = true) := by
    intro side keywords hkeywords
    rw [all_eq_true]
    exact forall₂_congr fun keyword hkeyword => checkSingle_iff (hkeywords keyword hkeyword)
  unfold keptNode
  simp only [Bool.and_eq_true, hmany, honeOf, hsingle Prod.fst ["then", "else"] (by decide),
    hsingle Prod.snd ["not", "if"] (by decide), and_assoc]

end SparedLaw

section Law

variable (allows : String → Json → Json → Bool)

theorem required_of_strict (node : SchemaNode) (value : Json)
    (h : required (strictReading allows) node value = true) :
    required (looseReading allows) node value = true := by
  cases value with
  | obj fields =>
    refine all_eq_true.mpr fun name hname => ?_
    exact all_eq_true.mp h name (mem_filter.mp hname).1
  | _ => rfl

variable {value : Json}

theorem required_eq_of_orphans {node : SchemaNode} (horphans : checkOrphans value node = true) :
    required (strictReading allows) node value = required (looseReading allows) node value := by
  refine Bool.eq_iff_iff.mpr ⟨required_of_strict allows node value, fun hloose => ?_⟩
  cases value with
  | obj fields =>
    refine all_eq_true.mpr fun name hname => ?_
    by_cases hdeclared : name ∈ declaredNames node
    · refine all_eq_true.mp hloose name ?_
      exact mem_filter.mpr ⟨hname, decide_eq_true hdeclared⟩
    · refine all_eq_true.mp horphans name ?_
      exact mem_filter.mpr ⟨hname, decide_eq_true hdeclared⟩
  | _ => rfl

theorem tuple_of_strict {schemas : List Json} (hlength : elems.length ≤ schemas.length)
    (hkept : ∀ entry ∈ elems.zip schemas,
      accepts (strictReading allows) entry.2 entry.1 = true →
        accepts (looseReading allows) entry.2 entry.1 = true)
    (h : (strictReading allows).tuple (schemas.map (accepts (strictReading allows))) elems = true) :
    (looseReading allows).tuple (schemas.map (accepts (looseReading allows))) elems = true := by
  have hzip : ((elems.zip (schemas.map (accepts (strictReading allows)))).all
      fun entry => entry.2 entry.1) = true := h
  rw [zip_map_right, all_map, all_eq_true] at hzip
  refine all_eq_true.mpr fun elem helem => ?_
  obtain ⟨i, hi, rfl⟩ := mem_iff_getElem.mp helem
  have hentry : (elems[i], schemas[i]) ∈ elems.zip schemas := by
    refine mem_iff_getElem.mpr ⟨i, ?_, getElem_zip⟩
    rw [length_zip]
    omega
  rw [any_map, any_eq_true]
  exact ⟨schemas[i], getElem_mem _, hkept _ hentry (hzip _ hentry)⟩

/-- What the two checks promise. -/
structure Spared (schema value : Json) : Prop where
  steady : (spared schema value).2 = true →
    accepts (strictReading allows) schema value = accepts (looseReading allows) schema value
  kept : (spared schema value).1 = true → accepts (strictReading allows) schema value = true →
    accepts (looseReading allows) schema value = true

section Node

variable {allows} {node : SchemaNode}
  (honly : ∀ keyword, ∀ schema ∈ only node keyword, ∀ value, Spared allows schema value)
  (hlisted : ∀ keyword, ∀ schemas ∈ listed node keyword, ∀ schema ∈ schemas, ∀ value,
    Spared allows schema value)
  (hproperties : ∀ field ∈ propertiesOf node, ∀ value, Spared allows field.2 value)
include honly hlisted hproperties

theorem steady_obj (h : (spared (.obj node) value).2 = true) :
    accepts (strictReading allows) (.obj node) value =
      accepts (looseReading allows) (.obj node) value := by
  rw [spared_obj] at h
  obtain ⟨horphans, hnoTuple, hparts, hitems, hmany, hsingle⟩ := steadyNode_iff.mp h
  have hone : ∀ keyword ∈ ["not", "if", "then", "else"], ∀ schema ∈ only node keyword,
      accepts (strictReading allows) schema value = accepts (looseReading allows) schema value :=
    fun keyword hkeyword schema hschema =>
      (honly keyword schema hschema value).steady (hsingle keyword hkeyword schema hschema)
  have hlist : ∀ keyword ∈ ["anyOf", "allOf", "oneOf"], ∀ schemas ∈ listed node keyword,
      ∀ schema ∈ schemas, accepts (strictReading allows) schema value =
        accepts (looseReading allows) schema value :=
    fun keyword hkeyword schemas hschemas schema hschema =>
      (hlisted keyword schemas hschemas schema hschema value).steady
        (hmany keyword hkeyword schemas hschemas schema hschema)
  have hproperty : properties (acceptances (strictReading allows) node) value =
      properties (acceptances (looseReading allows) node) value := by
    rw [properties_eq, properties_eq]
    refine all_congr_of_mem fun field hfield => ?_
    cases hget : value.get field.1 with
    | none => rfl
    | some part =>
      exact (hproperties field hfield part).steady
        (checkProperties_iff.mp hparts field hfield part hget)
  have helems : items (strictReading allows) (acceptances (strictReading allows) node) value =
      items (looseReading allows) (acceptances (looseReading allows) node) value := by
    rw [items_eq, items_eq]
    cases value with
    | arr elems =>
      refine congrArg₂ (· && ·) ?_ ?_
      · cases hitem : only node "items" with
        | none => rfl
        | some schema =>
          exact all_congr_of_mem fun elem helem => (honly "items" schema hitem elem).steady
              (checkItems_iff.mp hitems schema hitem elem helem)
      · cases hlist : listed node "items" with
        | none => rfl
        | some schemas =>
          rw [checkNoTuple_iff.mp hnoTuple schemas hlist]
          rfl
    | _ => rfl
  have hany : anyOf (acceptances (strictReading allows) node) value =
      anyOf (acceptances (looseReading allows) node) value := by
    rw [anyOf_eq, anyOf_eq]
    cases h : listed node "anyOf" with
    | none => rfl
    | some schemas => exact any_congr_of_mem (hlist "anyOf" (by decide) schemas h)
  have hall : allOf (acceptances (strictReading allows) node) value =
      allOf (acceptances (looseReading allows) node) value := by
    rw [allOf_eq, allOf_eq]
    cases h : listed node "allOf" with
    | none => rfl
    | some schemas => exact all_congr_of_mem (hlist "allOf" (by decide) schemas h)
  have honeOf : oneOf (acceptances (strictReading allows) node) value =
      oneOf (acceptances (looseReading allows) node) value := by
    rw [oneOf_eq, oneOf_eq]
    cases h : listed node "oneOf" with
    | none => rfl
    | some schemas =>
      have hcount : (schemas.countP fun schema => accepts (strictReading allows) schema value) =
          schemas.countP fun schema => accepts (looseReading allows) schema value :=
        countP_congr fun schema hschema => by
          rw [hlist "oneOf" (by decide) schemas h schema hschema]
      exact congrArg (fun n => decide (n = 1)) hcount
  have hnot : negated (acceptances (strictReading allows) node) value =
      negated (acceptances (looseReading allows) node) value := by
    rw [negated_eq, negated_eq]
    cases h : only node "not" with
    | none => rfl
    | some schema => exact congrArg (! ·) (hone "not" (by decide) schema h)
  have hbranch : ∀ keyword ∈ ["then", "else"],
      ((only node keyword).all fun schema => accepts (strictReading allows) schema value) =
        (only node keyword).all fun schema => accepts (looseReading allows) schema value := by
    intro keyword hkeyword
    cases h : only node keyword with
    | none => rfl
    | some schema =>
      exact hone keyword ((by decide : ∀ keyword ∈ ["then", "else"],
        keyword ∈ ["not", "if", "then", "else"]) keyword hkeyword) schema h
  have hif : conditional (acceptances (strictReading allows) node) value =
      conditional (acceptances (looseReading allows) node) value := by
    rw [conditional_eq, conditional_eq, hbranch "then" (by decide), hbranch "else" (by decide)]
    cases h : only node "if" with
    | none => rfl
    | some condition =>
      rw [Option.all_some, Option.all_some, hone "if" (by decide) condition h]
  rw [accepts_obj, accepts_obj, hproperty, helems, hany, hall, honeOf, hnot, hif,
    required_eq_of_orphans allows horphans]
  rfl

theorem kept_obj (h : (spared (.obj node) value).1 = true)
    (haccepts : accepts (strictReading allows) (.obj node) value = true) :
    accepts (looseReading allows) (.obj node) value = true := by
  rw [spared_obj] at h
  obtain ⟨htuple, hparts, hitems, hmany, honeOf, hbranch, hsingle⟩ := keptNode_iff.mp h
  rw [accepts_obj] at haccepts
  simp only [Bool.and_eq_true] at haccepts
  obtain ⟨⟨⟨⟨⟨⟨⟨⟨hother, hproperty⟩, hrequired⟩, helems⟩, hany⟩, hall⟩, hone⟩, hnot⟩, hif⟩ :=
    haccepts
  have hsame : ∀ keyword ∈ ["not", "if"], ∀ schema ∈ only node keyword,
      accepts (strictReading allows) schema value = accepts (looseReading allows) schema value :=
    fun keyword hkeyword schema hschema =>
      (honly keyword schema hschema value).steady (hsingle keyword hkeyword schema hschema)
  have hthen : ∀ keyword ∈ ["then", "else"],
      ((only node keyword).all fun schema => accepts (strictReading allows) schema value) = true →
        ((only node keyword).all fun schema => accepts (looseReading allows) schema value) =
          true := by
    intro keyword hkeyword hall
    refine (Option.all_eq_true _ _).mpr fun schema hschema => ?_
    exact (honly keyword schema hschema value).kept (hbranch keyword hkeyword schema hschema)
      ((Option.all_eq_true _ _).mp hall schema hschema)
  rw [accepts_obj]
  simp only [Bool.and_eq_true]
  refine ⟨⟨⟨⟨⟨⟨⟨⟨hother, ?_⟩, required_of_strict allows node value hrequired⟩, ?_⟩, ?_⟩, ?_⟩, ?_⟩,
    ?_⟩, ?_⟩
  · rw [properties_eq, all_eq_true] at hproperty ⊢
    intro field hfield
    refine (Option.all_eq_true _ _).mpr fun part hpart => ?_
    exact (hproperties field hfield part).kept
      (checkProperties_iff.mp hparts field hfield part hpart)
      ((Option.all_eq_true _ _).mp (hproperty field hfield) part hpart)
  · rw [items_eq] at helems ⊢
    cases value with
    | arr elems =>
      obtain ⟨hsingle, htuples⟩ := Bool.and_eq_true_iff.mp helems
      refine Bool.and_eq_true_iff.mpr ⟨?_, ?_⟩
      · refine (Option.all_eq_true _ _).mpr fun schema hschema => ?_
        refine all_eq_true.mpr fun elem helem => ?_
        exact (honly "items" schema hschema elem).kept
          (checkItems_iff.mp hitems schema hschema elem helem)
          (all_eq_true.mp ((Option.all_eq_true _ _).mp hsingle schema hschema) elem helem)
      · refine (Option.all_eq_true _ _).mpr fun schemas hschemas => ?_
        obtain ⟨hlength, hchecks⟩ := checkTuple_iff.mp htuple schemas hschemas
        refine tuple_of_strict allows hlength (fun entry hentry => ?_)
          ((Option.all_eq_true _ _).mp htuples schemas hschemas)
        exact (hlisted "items" schemas hschemas entry.2 (of_mem_zip hentry).2 entry.1).kept
          (hchecks entry hentry)
    | _ => rfl
  · rw [anyOf_eq, Option.all_eq_true] at hany ⊢
    intro schemas hschemas
    obtain ⟨schema, hschema, haccepts⟩ := any_eq_true.mp (hany schemas hschemas)
    exact any_eq_true.mpr ⟨schema, hschema, (hlisted "anyOf" schemas hschemas schema hschema
      value).kept (hmany "anyOf" (by decide) schemas hschemas schema hschema) haccepts⟩
  · rw [allOf_eq, Option.all_eq_true] at hall ⊢
    intro schemas hschemas
    refine all_eq_true.mpr fun schema hschema => ?_
    exact (hlisted "allOf" schemas hschemas schema hschema value).kept
      (hmany "allOf" (by decide) schemas hschemas schema hschema)
      (all_eq_true.mp (hall schemas hschemas) schema hschema)
  · rw [oneOf_eq, Option.all_eq_true] at hone ⊢
    intro schemas hschemas
    have hcount : (schemas.countP fun schema => accepts (strictReading allows) schema value) =
        schemas.countP fun schema => accepts (looseReading allows) schema value :=
      countP_congr fun schema hschema => by
        rw [(hlisted "oneOf" schemas hschemas schema hschema value).steady
          (honeOf schemas hschemas schema hschema)]
    rw [← hcount]
    exact hone schemas hschemas
  · rw [negated_eq, Option.all_eq_true] at hnot ⊢
    intro schema hschema
    rw [← hsame "not" (by decide) schema hschema]
    exact hnot schema hschema
  · rw [conditional_eq, Option.all_eq_true] at hif ⊢
    intro condition hcondition
    have hverdict := hif condition hcondition
    rw [hsame "if" (by decide) condition hcondition] at hverdict
    split
    · next htrue =>
      rw [if_pos htrue] at hverdict
      exact hthen "then" (by decide) hverdict
    · next hfalse =>
      rw [if_neg hfalse] at hverdict
      exact hthen "else" (by decide) hverdict

end Node

/-- **Both readings agree where the checks say so.** -/
theorem spared_law (schema value : Json) : Spared allows schema value := by
  induction schema using Schema.induct generalizing value with
  | hleaf schema hschema =>
    rw [← Bool.not_eq_true] at hschema
    have hsame : ∀ reading, accepts reading schema value = schema.asBool.getD true := fun reading =>
      accepts_leaf reading value (by simpa using hschema)
    exact ⟨fun _ => (hsame _).trans (hsame _).symm, fun _ haccepts =>
      (hsame _).trans ((hsame _).symm.trans haccepts)⟩
  | hnode node honly hlisted hproperties =>
    exact ⟨steady_obj honly hlisted hproperties, kept_obj honly hlisted hproperties⟩

end Law

variable {metaErrors : Json → Option (String × String)}

theorem normalizeToolParameters_eq
    {schema normalized : Json} (h : normalizeToolParameters metaErrors schema = .ok normalized) :
    normalized = pruneOrphanedRequired (replaceTupleItems (ensurePropertyMap schema)) := by
  have hbind : ∀ (check : Except String Unit) (next : Except String Json),
      (check >>= fun _ => next) = .ok normalized → next = .ok normalized := by
    intro check next hnext
    cases check with
    | error e => cases hnext
    | ok u => exact hnext
  have hlast := hbind _ _ (hbind _ _ (hbind _ _ (hbind _ _ h)))
  exact (Except.ok.inj hlast).symm

/-! ## Arguments of normalized schemas -/

/-- **Arguments stay valid exactly if they are valid in the loose reading of the schema as well**,
and they do where the checks say that the readings agree. -/
theorem normalized_accepts_iff (allows : String → Json → Json → Bool)
    {metaErrors : Json → Option (String × String)} {schema normalized : Json}
    (h : normalizeToolParameters metaErrors schema = .ok normalized) (arguments : Json) :
    ((accepts (strictReading allows) schema arguments = true →
        accepts (strictReading allows) normalized arguments = true) ↔
      (accepts (strictReading allows) schema arguments = true →
        accepts (looseReading allows) schema arguments = true)) ∧
    ((spared schema arguments).1 = true → accepts (strictReading allows) schema arguments = true →
      accepts (strictReading allows) normalized arguments = true) := by
  rw [normalizeToolParameters_eq h, accepts_normalized]
  exact ⟨Iff.rfl, (spared_law allows schema arguments).kept⟩

/-- The keyword `type`, for objects. -/
def objectType (keyword : String) (expected value : Json) : Bool :=
  keyword ≠ "type" || expected ≠ .str "object" || value.isObject

def oneProperty (property : Json) : Json :=
  .obj [("type", .str "object"), ("properties", .obj [("p", property)])]

theorem normalized_accepts_iff_tuple :
    accepts (strictReading objectType) (oneProperty (.obj [("items", .obj [("anyOf",
      .arr [.obj [("type", .str "object")]])])])) (.obj [("p", .arr [.obj []])]) = true :=
  (@normalized_accepts_iff objectType (fun _ => none)
    (oneProperty (.obj [("items", .arr [.obj [("type", .str "object")]])])) _
    rfl (.obj [("p", .arr [.obj []])])).2 (by decide) (by decide)

theorem forbidden_name_rejects : ¬ ∀ schema normalized arguments : Json,
    normalizeToolParameters (fun _ => none) schema = .ok normalized → arguments.isObject = true →
      accepts (strictReading objectType) schema arguments = true →
        accepts (strictReading objectType) normalized arguments = true := by
  intro h
  have haccepts := h (oneProperty (.obj [("not", .obj [("required", .arr [.str "a"])])]))
    (oneProperty (.obj [("not", .obj [("required", .arr [])])])) (.obj [("p", .obj [])]) rfl rfl
    (by decide)
  revert haccepts
  decide

end Chelix.Providers
