import TraversalPlanner.Json.Record

/-! Names of labels, tags and properties, and the aliases operators bind their output to. -/

namespace TraversalPlanner

/-- A label, tag or property, by its name or by its number. -/
inductive Identifier where
  | name (text : String)
  | id (number : Int32)
deriving DecidableEq

namespace Identifier

def render : Identifier → String
  | .name text => text
  | .id number => toString number.toInt

def toJson : Identifier → Json
  | .name text => .object [("name", .text text)]
  | .id number => .object [("id", .whole number.toInt)]

def ofJson? (json : Json) : Option Identifier := do
  match ← json.variant? with
  | ("name", some content) => return .name (← content.text?)
  | ("id", some content) => return .id (← content.int32?)
  | _ => none

end Identifier

/-- A name bound to an operator's output. It is either written in the query or made up for it. -/
structure Alias where
  name : Identifier
  queryGiven : Bool
deriving DecidableEq

namespace Alias

def written (text : String) : Alias := { name := .name text, queryGiven := true }

def derived (text : String) : Alias := { name := .name text, queryGiven := false }

def toJson (tag : Alias) : Json :=
  .object [("name", tag.name.toJson), ("is_query_given", .bool tag.queryGiven)]

def ofJson? (json : Json) : Option Alias := do
  let fields ← json.fields? ["name", "is_query_given"]
  return {
    name := ← fields.required? "name" Identifier.ofJson?
    queryGiven := ← fields.required? "is_query_given" Json.bool? }

end Alias

end TraversalPlanner
