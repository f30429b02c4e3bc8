import TraversalPlanner.Error
import TraversalPlanner.Json.Reader

/-! Graph schemas: the labels of vertices and edges, and the properties of each. -/

namespace TraversalPlanner

structure SchemaProperty where
  id : Int32
  name : String

structure SchemaLabel where
  id : Int32
  name : String
  properties : List SchemaProperty

structure Schema where
  vertexLabels : List SchemaLabel
  edgeLabels : List SchemaLabel

namespace SchemaLabel

def isNamed (definition : SchemaLabel) : Identifier → Bool
  | .name name => definition.name = name
  | .id id => definition.id = id

end SchemaLabel

namespace Schema

def knowsVertexLabel (schema : Schema) (label : Identifier) : Bool := schema.vertexLabels.any (·.isNamed label)

def knowsEdgeLabel (schema : Schema) (label : Identifier) : Bool := schema.edgeLabels.any (·.isNamed label)

/-- A property is known if any label has it. -/
def knowsProperty (schema : Schema) (name : String) : Bool :=
  (schema.vertexLabels ++ schema.edgeLabels).any fun definition => definition.properties.any (·.name = name)

def propertyToJson (definition : SchemaProperty) : Json :=
  .object [("id", .whole definition.id.toInt), ("name", .text definition.name)]

def labelToJson (definition : SchemaLabel) : Json :=
  .object [("id", .whole definition.id.toInt), ("name", .text definition.name),
    ("properties", .ofList propertyToJson definition.properties)]

def toJson (schema : Schema) : Json :=
  .object [("vertex_labels", .ofList labelToJson schema.vertexLabels),
    ("edge_labels", .ofList labelToJson schema.edgeLabels)]

def propertyOfJson? (json : Json) : Option SchemaProperty := do
  let fields ← json.fields? ["id", "name"]
  return { id := ← fields.required? "id" Json.int32?, name := ← fields.required? "name" Json.text? }

def labelOfJson? (json : Json) : Option SchemaLabel := do
  let fields ← json.fields? ["id", "name", "properties"]
  return {
    id := ← fields.required? "id" Json.int32?
    name := ← fields.required? "name" Json.text?
    properties := ← fields.orElse? "properties" [] (Json.listOf? propertyOfJson?) }

def ofJson? (json : Json) : Option Schema := do
  let fields ← json.fields? ["vertex_labels", "edge_labels"]
  return {
    vertexLabels := ← fields.orElse? "vertex_labels" [] (Json.listOf? labelOfJson?)
    edgeLabels := ← fields.orElse? "edge_labels" [] (Json.listOf? labelOfJson?) }

def parse (text : String) : Except Error Schema :=
  match Json.parse? text >>= ofJson? with
  | some schema => .ok schema
  | none => .error .unreadableSchema

/-- A place for one schema, which is filled at most once. -/
def install (installed : Option Schema) (schema : Schema) : Except Error Schema :=
  if installed.isSome then .error .schemaInstalled else .ok schema

end Schema

end TraversalPlanner
