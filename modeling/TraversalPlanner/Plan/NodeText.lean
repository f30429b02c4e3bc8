import TraversalPlanner.Plan.NodeOp

/-! Nodes as JSON: an object whose one entry is the operation's name with its arguments. -/

namespace TraversalPlanner

namespace TableRead

def toJson (params : TableRead) : Json :=
  .object [("tables", .ofList Identifier.toJson params.tables), ("columns", .ofList Identifier.toJson params.columns),
    ("limit", .ofOption Window.toJson params.limit), ("predicate", .ofOption Json.text params.predicate)]

def ofJson? (json : Json) : Option TableRead := do
  let fields ← json.fields? ["tables", "columns", "limit", "predicate"]
  return {
    tables := ← fields.required? "tables" (Json.listOf? Identifier.ofJson?)
    columns := ← fields.required? "columns" (Json.listOf? Identifier.ofJson?)
    limit := ← fields.optional? "limit" Window.ofJson?
    predicate := ← fields.optional? "predicate" Json.text? }

end TableRead

namespace NodeOp

variable {ι : Type}

def tagToJson (tag : Option Identifier) : Json := .ofOption Identifier.toJson tag

def lookupToJson (ids : List Literal) : Json := .object [("ids", .ofList Literal.toJson ids)]

def expansionToJson (direction : Direction) (params : TableRead) : Json :=
  .object [("direction", Vocabulary.toJson direction), ("params", params.toJson)]

def arguments (reference : ι → Json) : NodeOp ι → List (String × Json)
  | .scan target tag params lookup =>
    [("scan_opt", Vocabulary.toJson target), ("alias", tagToJson tag), ("params", params.toJson),
      ("idx_predicate", .ofOption lookupToJson lookup)]
  | .select predicate => [("predicate", .text predicate)]
  | .edge direction params isEdge tag =>
    [("base", expansionToJson direction params), ("is_edge", .bool isEdge), ("alias", tagToJson tag)]
  | .limit window => [("range", window.toJson)]
  | .project columns isAppend =>
    [("mappings", .ofList (Projected.toJson Identifier.toJson) columns), ("is_append", .bool isAppend)]
  | .orderBy keys window => [("pairs", .ofList SortKey.toJson keys), ("limit", .ofOption Window.toJson window)]
  | .groupBy keys values =>
    [("mappings", .ofList (GroupKey.toJson Identifier.toJson) keys),
      ("functions", .ofList (Aggregation.toJson Identifier.toJson) values)]
  | .dedup keys => [("keys", .ofList Variable.toJson keys)]
  | .sink tags => [("tags", .ofList Identifier.toJson tags)]
  | .path direction params hops wholePath tag =>
    [("base", expansionToJson direction params), ("hop_range", hops.toJson), ("is_whole_path", .bool wholePath),
      ("alias", tagToJson tag)]
  | .vertex edgeEnd tag => [("opt", Vocabulary.toJson edgeEnd), ("alias", tagToJson tag)]
  | .apply join subRoot tag =>
    [("join_kind", Vocabulary.toJson join), ("sub_root_id", reference subRoot), ("alias", tagToJson tag)]
  | .union parents => [("parents", .ofList reference parents)]
  | .bind tag => [("alias", tag.toJson)]

def toJson (reference : ι → Json) (op : NodeOp ι) : Json := .object [(op.name, .object (op.arguments reference))]

def expansion? (json : Json) : Option (Direction × TableRead) := do
  let fields ← json.fields? ["direction", "params"]
  return (← fields.required? "direction" Vocabulary.ofJson?, ← fields.required? "params" TableRead.ofJson?)

def lookup? (json : Json) : Option (List Literal) := do
  let fields ← json.fields? ["ids"]
  fields.required? "ids" (Json.listOf? Literal.ofJson?)

def tag? (fields : Json.Fields) : Option (Option Identifier) := fields.optional? "alias" Identifier.ofJson?

def ofJson? (reference? : Json → Option ι) (json : Json) : Option (NodeOp ι) := do
  let (word, content) ← json.variant?
  let content ← content
  match word with
  | "scan" =>
    let fields ← content.fields? ["scan_opt", "alias", "params", "idx_predicate"]
    return .scan (← fields.required? "scan_opt" Vocabulary.ofJson?) (← tag? fields)
      (← fields.required? "params" TableRead.ofJson?) (← fields.optional? "idx_predicate" lookup?)
  | "select" =>
    let fields ← content.fields? ["predicate"]
    return .select (← fields.required? "predicate" Json.text?)
  | "edge" =>
    let fields ← content.fields? ["base", "is_edge", "alias"]
    let (direction, params) ← fields.required? "base" expansion?
    return .edge direction params (← fields.required? "is_edge" Json.bool?) (← tag? fields)
  | "limit" =>
    let fields ← content.fields? ["range"]
    return .limit (← fields.required? "range" Window.ofJson?)
  | "project" =>
    let fields ← content.fields? ["mappings", "is_append"]
    return .project (← fields.required? "mappings" (Json.listOf? (Projected.ofJson? Identifier.ofJson?)))
      (← fields.required? "is_append" Json.bool?)
  | "order_by" =>
    let fields ← content.fields? ["pairs", "limit"]
    return .orderBy (← fields.required? "pairs" (Json.listOf? SortKey.ofJson?))
      (← fields.optional? "limit" Window.ofJson?)
  | "group_by" =>
    let fields ← content.fields? ["mappings", "functions"]
    return .groupBy (← fields.required? "mappings" (Json.listOf? (GroupKey.ofJson? Identifier.ofJson?)))
      (← fields.required? "functions" (Json.listOf? (Aggregation.ofJson? Identifier.ofJson?)))
  | "dedup" =>
    let fields ← content.fields? ["keys"]
    return .dedup (← fields.required? "keys" (Json.listOf? Variable.ofJson?))
  | "sink" =>
    let fields ← content.fields? ["tags"]
    return .sink (← fields.required? "tags" (Json.listOf? Identifier.ofJson?))
  | "path" =>
    let fields ← content.fields? ["base", "hop_range", "is_whole_path", "alias"]
    let (direction, params) ← fields.required? "base" expansion?
    return .path direction params (← fields.required? "hop_range" Window.ofJson?)
      (← fields.required? "is_whole_path" Json.bool?) (← tag? fields)
  | "vertex" =>
    let fields ← content.fields? ["opt", "alias"]
    return .vertex (← fields.required? "opt" Vocabulary.ofJson?) (← tag? fields)
  | "apply" =>
    let fields ← content.fields? ["join_kind", "sub_root_id", "alias"]
    return .apply (← fields.required? "join_kind" Vocabulary.ofJson?) (← fields.required? "sub_root_id" reference?)
      (← tag? fields)
  | "union" =>
    let fields ← content.fields? ["parents"]
    return .union (← fields.required? "parents" (Json.listOf? reference?))
  | "as" =>
    let fields ← content.fields? ["alias"]
    return .bind (← fields.required? "alias" Identifier.ofJson?)
  | _ => none

end NodeOp

end TraversalPlanner
