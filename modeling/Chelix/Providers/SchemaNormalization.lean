import Chelix.Library.JsonSchema

/-!
# Parameter schemas of tools

A tool's parameter schema is checked and rewritten for a provider that takes fewer schemas than
JSON Schema has.
-/

namespace Chelix.Providers

open Chelix.Library Json

abbrev SchemaNode := List (String × Json)

/-- The keywords of one schema. -/
def nestedSchemaKeywords : List String :=
  ["not", "if", "then", "else", "contains", "propertyNames"]

/-- The keywords of a list of schemas. -/
def schemaArrayKeywords : List String := ["anyOf", "oneOf", "allOf"]

/-- The keywords of schemas with names. -/
def schemaMapKeywords : List String :=
  ["properties", "patternProperties", "dependencies", "definitions", "$defs"]

def holdsSchemaMap (keyword : String) : Bool := keyword ∈ schemaMapKeywords

def holdsSchemaArray (keyword : String) : Bool :=
  keyword ∈ schemaArrayKeywords || keyword = "items" || keyword = "prefixItems"

def holdsSchema (keyword : String) : Bool :=
  keyword ∈ nestedSchemaKeywords || keyword = "items" || keyword = "additionalProperties"

/-! ## All schemas of a schema -/

section Visit

variable (check : SchemaNode → Except String Unit)

mutual

/-- Every schema is checked until one fails.  The source goes through the fields of a schema in the
order of its keyword tables; which schema fails first does not show. -/
def visitSchemaNodes : Json → Except String Unit
  | .obj node => do check node; visitSchemaFields node
  | _ => .ok ()

def visitSchemaFields : SchemaNode → Except String Unit
  | [] => .ok ()
  | (keyword, value) :: rest => do visitKeyword keyword value; visitSchemaFields rest

def visitKeyword (keyword : String) : Json → Except String Unit
  | .obj entries =>
    if holdsSchemaMap keyword then visitEntries entries
    else if holdsSchema keyword then do check entries; visitSchemaFields entries
    else .ok ()
  | .arr schemas => if holdsSchemaArray keyword then visitList schemas else .ok ()
  | _ => .ok ()

def visitEntries : SchemaNode → Except String Unit
  | [] => .ok ()
  | (_, schema) :: rest => do visitSchemaNodes schema; visitEntries rest

def visitList : List Json → Except String Unit
  | [] => .ok ()
  | schema :: rest => do visitSchemaNodes schema; visitList rest

end

variable (rewrite : SchemaNode → SchemaNode)

mutual

/-- Every schema is rewritten.  The source rewrites a schema before those that it carries; the
rewrites here do not read these, and what they put around them has nothing to rewrite. -/
def visitSchemaNodesMut : Json → Json
  | .obj node => .obj (rewrite (rewriteFields node))
  | value => value

def rewriteFields : SchemaNode → SchemaNode
  | [] => []
  | (keyword, value) :: rest => (keyword, rewriteKeyword keyword value) :: rewriteFields rest

def rewriteKeyword (keyword : String) : Json → Json
  | .obj entries =>
    if holdsSchemaMap keyword then .obj (rewriteEntries entries)
    else if holdsSchema keyword then .obj (rewrite (rewriteFields entries))
    else .obj entries
  | .arr schemas => .arr (if holdsSchemaArray keyword then rewriteList schemas else schemas)
  | value => value

def rewriteEntries : SchemaNode → SchemaNode
  | [] => []
  | (name, schema) :: rest => (name, visitSchemaNodesMut schema) :: rewriteEntries rest

def rewriteList : List Json → List Json
  | [] => []
  | schema :: rest => visitSchemaNodesMut schema :: rewriteList rest

end

end Visit

/-! ## Checks -/

/-- A schema is valid against the schema of schemas; of the first error there are the place and the
text. -/
def validateAgainstMetaSchema (metaErrors : Json → Option (String × String)) (schema : Json) :
    Except String Unit :=
  match metaErrors schema with
  | none => .ok ()
  | some (path, error) =>
    let location := if path = "" then "the schema root" else "\x60" ++ path ++ "\x60"
    .error ("tool parameters do not match JSON Schema at " ++ location ++ ": " ++ error)

def ensureObjectRoot : Json → Except String Unit
  | .obj node =>
    match ((Json.obj node).get "type").bind asStr with
    | some other =>
      if other = "object" then .ok ()
      else .error ("tool parameters must have \x60\"type\": \"object\"\x60, found \x60" ++
        other ++ "\x60")
    | none => .error "tool parameters must declare \x60\"type\": \"object\"\x60"
  | _ => .error "tool parameters must be a JSON object schema"

/-- Replaces the value of a field. -/
def updateField (node : SchemaNode) (keyword : String) (f : Json → Json) : SchemaNode :=
  node.map fun field => if field.1 = keyword then (field.1, f field.2) else field

def ensurePropertyMap : Json → Json
  | .obj node =>
    if ((Json.obj node).get "properties").any isObject then .obj node
    else if ((Json.obj node).get "properties").isSome then
      .obj (updateField node "properties" fun _ => .obj [])
    else .obj (node ++ [("properties", .obj [])])
  | value => value

def rejectTopLevelComposites : Json → Except String Unit
  | .obj node =>
    match (schemaArrayKeywords ++ nestedSchemaKeywords).find? fun keyword =>
        ((Json.obj node).get keyword).isSome with
    | some keyword => .error ("tool parameters must not use \x60" ++ keyword ++
        "\x60 at the root; move it under a property")
    | none => .ok ()
  | _ => .ok ()

def rejectArraysWithoutItems (schema : Json) : Except String Unit :=
  visitSchemaNodes (fun node =>
    if ((Json.obj node).get "type").bind asStr = some "array" ∧
        ((Json.obj node).get "items").isNone then
      .error "tool parameters array type must have items"
    else .ok ()) schema

/-! ## Rewrites -/

def tupleToUnion : Json → Json
  | .arr variants => .obj [("anyOf", .arr variants)]
  | items => items

/-- A list of schemas for the elements of an array becomes a schema of their alternatives. -/
def replaceTupleItems (schema : Json) : Json :=
  visitSchemaNodesMut (fun node => updateField node "items" tupleToUnion) schema

/-- The names of the properties that a schema declares. -/
def declaredNames (node : SchemaNode) : List String :=
  match (Json.obj node).get "properties" with
  | some (.obj properties) => properties.map Prod.fst
  | _ => []

def retainDeclared (declared : List String) : Json → Json
  | .arr required => .arr (required.filter fun entry => entry.asStr.any fun name => name ∈ declared)
  | value => value

/-- No name is required that is not declared. -/
def pruneOrphanedRequired (schema : Json) : Json :=
  visitSchemaNodesMut (fun node =>
    updateField node "required" (retainDeclared (declaredNames node))) schema

def normalizeToolParameters (metaErrors : Json → Option (String × String)) (schema : Json) :
    Except String Json := do
  validateAgainstMetaSchema metaErrors schema
  ensureObjectRoot schema
  let schema := ensurePropertyMap schema
  rejectTopLevelComposites schema
  rejectArraysWithoutItems schema
  return pruneOrphanedRequired (replaceTupleItems schema)

end Chelix.Providers
