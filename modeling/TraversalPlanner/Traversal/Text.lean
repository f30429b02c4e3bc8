import TraversalPlanner.Json.Reader
import TraversalPlanner.Traversal.Basic

/-! Traversals as JSON. A step is an object with its action's tag and the action's fields beside its
alias; it is taken in as a whole before it is read, so that all of it has to be readable, and within it
variants may be spelled freely. Reading goes as deep into a value as the value is nested. -/

namespace TraversalPlanner

namespace Test

def toJson (test : Test) : Json :=
  .object [("cmp", Vocabulary.toJson test.comparator), ("value", test.value.toJson)]

def ofJson? (spelling : Json.Spelling) (json : Json) : Option Test := do
  let fields ← json.fields? ["cmp", "value"]
  return {
    comparator := ← fields.required? "cmp" (Vocabulary.ofSpelled? spelling)
    value := ← fields.required? "value" Literal.ofJson? }

end Test

namespace Filter

def toJson (filter : Filter) : Json :=
  .object [("key", .text filter.key), ("predicate", .ofOption Test.toJson filter.test)]

def ofJson? (spelling : Json.Spelling) (json : Json) : Option Filter := do
  let fields ← json.fields? ["key", "predicate"]
  return {
    key := ← fields.required? "key" Json.text?
    test := ← fields.orElse? "predicate" none (Json.nullable? (Test.ofJson? spelling)) }

end Filter

namespace TagCondition

def toJson : TagCondition → Json
  | .compare comparator tag =>
    .object [("compare", .object [("cmp", Vocabulary.toJson comparator), ("tag", .text tag)])]
  | .and left right => .object [("and", .array [left.toJson, right.toJson])]
  | .or left right => .object [("or", .array [left.toJson, right.toJson])]

def comparison? (spelling : Json.Spelling) (json : Json) : Option TagCondition := do
  let fields ← json.parts? spelling ["cmp", "tag"]
  return .compare (← fields.required? "cmp" (Vocabulary.ofSpelled? spelling)) (← fields.required? "tag" Json.text?)

def ofJson? (spelling : Json.Spelling) : Json → Option TagCondition
  | .object [("compare", content)] => comparison? spelling content
  | .object [("and", .array [left, right])] => do return .and (← ofJson? spelling left) (← ofJson? spelling right)
  | .object [("or", .array [left, right])] => do return .or (← ofJson? spelling left) (← ofJson? spelling right)
  | _ => none
termination_by structural json => json

end TagCondition

namespace Traversal

def texts (values : List String) : Json := .ofList Json.text values

def literals (values : List Literal) : Json := .ofList Literal.toJson values

/-- The record of a traversal, from its steps. -/
def record (steps : List Json) : Json := .object [("steps", .array steps)]

mutual
def stepsToJson : List Step → List Json
  | [] => []
  | step :: rest => stepToJson step :: stepsToJson rest
termination_by structural steps => steps

def stepToJson : Step → Json
  | ⟨action, tag⟩ => .object (actionEntries action ++ [("alias", .ofOption Json.text tag)])
termination_by structural step => step

def actionEntries : Action → List (String × Json)
  | .vertices ids => [("step", .text "v"), ("ids", literals ids)]
  | .edges ids => [("step", .text "e"), ("ids", literals ids)]
  | .has filters => [("step", .text "has"), ("containers", .ofList Filter.toJson filters)]
  | .hasLabel labels => [("step", .text "has_label"), ("labels", texts labels)]
  | .hasId ids => [("step", .text "has_id"), ("ids", literals ids)]
  | .adjacent direction labels edge =>
    [("step", .text "vertex"), ("direction", .text direction), ("labels", texts labels), ("edge", .bool edge)]
  | .edgeVertex direction => [("step", .text "edge_vertex"), ("direction", .text direction)]
  | .otherVertex => [("step", .text "other_v")]
  | .path direction labels lower upper whole =>
    [("step", .text "path_expand"), ("direction", .text direction), ("labels", texts labels),
      ("lower", .whole lower.toInt), ("upper", .whole upper.toInt), ("whole_path", .ofOption Json.bool whole)]
  | .whereTags start condition =>
    [("step", .text "where_predicate"), ("start_tag", .ofOption Json.text start), ("predicate", condition.toJson)]
  | .whereTraversal inner => [("step", .text "where_traversal"), ("traversal", record (stepsToJson inner))]
  | .not inner => [("step", .text "not"), ("traversal", record (stepsToJson inner))]
  | .apply inner join => [("step", .text "apply"), ("traversal", record (stepsToJson inner)), ("join_kind", .text join)]
  | .union branches => [("step", .text "union"), ("branches", .array (branchesToJson branches))]
  | .limit count => [("step", .text "limit"), ("count", .whole count.toInt)]
  | .range lower upper => [("step", .text "range"), ("lower", .whole lower.toInt), ("upper", .whole upper.toInt)]
  | .order => [("step", .text "order")]
  | .group => [("step", .text "group")]
  | .groupCount => [("step", .text "group_count")]
  | .count => [("step", .text "count")]
  | .dedup tags => [("step", .text "dedup"), ("tags", texts tags)]
  | .select tags => [("step", .text "select"), ("tags", texts tags)]
  | .values keys => [("step", .text "values"), ("keys", texts keys)]
  | .valueMap keys => [("step", .text "value_map"), ("keys", texts keys)]
  | .by modifier order =>
    [("step", .text "by"), ("modifier", modifierToJson modifier), ("order", .ofOption Json.text order)]
  | .unknown name => [("step", .text "unknown"), ("name", .text name)]
termination_by structural action => action

def modifierToJson : Modifier → Json
  | .identity => .object [("by", .text "identity")]
  | .key name => .object [("by", .text "key"), ("key", .text name)]
  | .values keys => .object [("by", .text "values"), ("keys", texts keys)]
  | .valueMap keys => .object [("by", .text "value_map"), ("keys", texts keys)]
  | .select tag property =>
    .object [("by", .text "select"), ("tag", .text tag), ("property", .ofOption Json.text property)]
  | .count => .object [("by", .text "count")]
  | .fold => .object [("by", .text "fold")]
  | .traversal inner => .object [("by", .text "traversal"), ("traversal", record (stepsToJson inner))]
termination_by structural modifier => modifier

def branchesToJson : List (List Step) → List Json
  | [] => []
  | branch :: rest => record (stepsToJson branch) :: branchesToJson rest
termination_by structural branches => branches
end

def toJson (traversal : Traversal) : Json := record (stepsToJson traversal)

def texts? : Json → Option (List String) := Json.listOf? Json.text?

def literals? : Json → Option (List Literal) := Json.listOf? Literal.ofJson?

def optionalText? : Json → Option (Option String) := Json.nullable? Json.text?

def modifierWords : List String :=
  ["identity", "key", "values", "value_map", "select", "count", "fold", "traversal"]

def actionWords : List String :=
  ["v", "e", "has", "has_label", "has_id", "vertex", "edge_vertex", "other_v", "path_expand", "where_predicate",
    "where_traversal", "not", "apply", "union", "limit", "range", "order", "group", "group_count", "count", "dedup",
    "select", "values", "value_map", "by", "unknown"]

/-- Readers of the parts, given one for nested traversals. -/
def modifierOfJson? (spelling : Json.Spelling) (nested : Json → Option Traversal) (json : Json) : Option Modifier := do
  let (word, content) ← json.tagged? spelling "by" modifierWords
  match word with
  | "key" =>
    let fields ← content.fields? ["key"]
    return .key (← fields.required? "key" Json.text?)
  | "values" =>
    let fields ← content.fields? ["keys"]
    return .values (← fields.required? "keys" texts?)
  | "value_map" =>
    let fields ← content.fields? ["keys"]
    return .valueMap (← fields.required? "keys" texts?)
  | "select" =>
    let fields ← content.fields? ["tag", "property"]
    return .select (← fields.required? "tag" Json.text?) (← fields.orElse? "property" none optionalText?)
  | "traversal" =>
    let fields ← content.fields? ["traversal"]
    return .traversal (← fields.required? "traversal" nested)
  | bare =>
    let _ ← content.fields? []
    match bare with
    | "identity" => return .identity
    | "count" => return .count
    | "fold" => return .fold
    | _ => none

def actionOfJson? (nested : Json → Option Traversal) (word : String) (content : Json) : Option Action := do
  match word with
  | "v" =>
    let fields ← content.fields? ["ids"]
    return .vertices (← fields.orElse? "ids" [] literals?)
  | "e" =>
    let fields ← content.fields? ["ids"]
    return .edges (← fields.orElse? "ids" [] literals?)
  | "has" =>
    let fields ← content.fields? ["containers"]
    return .has (← fields.required? "containers" (Json.listOf? (Filter.ofJson? .free)))
  | "has_label" =>
    let fields ← content.fields? ["labels"]
    return .hasLabel (← fields.required? "labels" texts?)
  | "has_id" =>
    let fields ← content.fields? ["ids"]
    return .hasId (← fields.required? "ids" literals?)
  | "vertex" =>
    let fields ← content.fields? ["direction", "labels", "edge"]
    return .adjacent (← fields.required? "direction" Json.text?) (← fields.orElse? "labels" [] texts?)
      (← fields.orElse? "edge" false Json.bool?)
  | "edge_vertex" =>
    let fields ← content.fields? ["direction"]
    return .edgeVertex (← fields.required? "direction" Json.text?)
  | "path_expand" =>
    let fields ← content.fields? ["direction", "labels", "lower", "upper", "whole_path"]
    return .path (← fields.required? "direction" Json.text?) (← fields.orElse? "labels" [] texts?)
      (← fields.required? "lower" Json.int32?) (← fields.required? "upper" Json.int32?)
      (← fields.orElse? "whole_path" none (Json.nullable? Json.bool?))
  | "where_predicate" =>
    let fields ← content.fields? ["start_tag", "predicate"]
    return .whereTags (← fields.orElse? "start_tag" none optionalText?)
      (← fields.required? "predicate" (TagCondition.ofJson? .free))
  | "where_traversal" =>
    let fields ← content.fields? ["traversal"]
    return .whereTraversal (← fields.required? "traversal" nested)
  | "not" =>
    let fields ← content.fields? ["traversal"]
    return .not (← fields.required? "traversal" nested)
  | "apply" =>
    let fields ← content.fields? ["traversal", "join_kind"]
    return .apply (← fields.required? "traversal" nested) (← fields.required? "join_kind" Json.text?)
  | "union" =>
    let fields ← content.fields? ["branches"]
    return .union (← fields.required? "branches" (Json.listOf? nested))
  | "limit" =>
    let fields ← content.fields? ["count"]
    return .limit (← fields.required? "count" Json.int32?)
  | "range" =>
    let fields ← content.fields? ["lower", "upper"]
    return .range (← fields.required? "lower" Json.int32?) (← fields.required? "upper" Json.int32?)
  | "order" => return .order
  | "group" => return .group
  | "group_count" => return .groupCount
  | "count" => return .count
  | "other_v" => return .otherVertex
  | "dedup" =>
    let fields ← content.fields? ["tags"]
    return .dedup (← fields.orElse? "tags" [] texts?)
  | "select" =>
    let fields ← content.fields? ["tags"]
    return .select (← fields.required? "tags" texts?)
  | "values" =>
    let fields ← content.fields? ["keys"]
    return .values (← fields.required? "keys" texts?)
  | "value_map" =>
    let fields ← content.fields? ["keys"]
    return .valueMap (← fields.orElse? "keys" [] texts?)
  | "by" =>
    let fields ← content.fields? ["modifier", "order"]
    return .by (← fields.required? "modifier" (modifierOfJson? .free nested)) (← fields.orElse? "order" none optionalText?)
  | "unknown" =>
    let fields ← content.fields? ["name"]
    return .unknown (← fields.required? "name" Json.text?)
  | _ => none

def stepOfJson? (nested : Json → Option Traversal) : Json → Option Step
  | .object entries => do
    let untagged := Json.object (entries.filter fun entry => entry.1 ≠ "alias")
    let (word, content) ← untagged.tagged? .free "step" actionWords
    let fields ← (Json.object entries).fields? ["alias"]
    return { action := ← actionOfJson? nested word content, tag := ← fields.orElse? "alias" none optionalText? }
  | _ => none

/-- Reads a traversal whose JSON is nested no deeper than the given number of levels. -/
def ofJsonWithin? : Nat → Json → Option Traversal
  | 0, _ => none
  | levels + 1, json => do
    let fields ← json.fields? ["steps"]
    fields.required? "steps" (Json.listOf? (stepOfJson? (ofJsonWithin? levels)))

def ofJson? (json : Json) : Option Traversal := do
  let fields ← json.fields? ["steps"]
  let steps ← fields.required? "steps" (Json.listOf? some)
  if steps.all Json.readable then ofJsonWithin? json.depth json else none

def parse? (text : String) : Option Traversal := Json.parse? text >>= ofJson?

end Traversal

end TraversalPlanner
