import TraversalPlanner.Value.Vocabulary

/-! The kinds of logical operators and the slots for arguments that each kind has. -/

namespace TraversalPlanner

inductive OperatorKind where
  | scan
  | select
  | expand
  | limit
  | project
  | orderBy
  | groupBy
  | dedup
  | sink
  | pathExpand
  | getVertex
  | apply
  | union
deriving DecidableEq

instance : Vocabulary OperatorKind where
  members := [.scan, .select, .expand, .limit, .project, .orderBy, .groupBy, .dedup, .sink, .pathExpand, .getVertex,
    .apply, .union]
  word
    | .scan => "Scan"
    | .select => "Select"
    | .expand => "Expand"
    | .limit => "Limit"
    | .project => "Project"
    | .orderBy => "OrderBy"
    | .groupBy => "GroupBy"
    | .dedup => "Dedup"
    | .sink => "Sink"
    | .pathExpand => "PathExpand"
    | .getVertex => "GetVertex"
    | .apply => "Apply"
    | .union => "Union"

inductive Slot where
  | scanOpt
  | labels
  | properties
  | ids
  | predicate
  | limit
  | direction
  | isEdge
  | lower
  | upper
  | exprWithAlias
  | orderPairs
  | groupKeys
  | groupValues
  | dedupKeys
  | sinkColumns
  | wholePath
  | vertexOpt
  | subCollection
  | subRootId
  | joinKind
  | subCollections
  | parentIds
deriving DecidableEq

instance : Vocabulary Slot where
  members := [.scanOpt, .labels, .properties, .ids, .predicate, .limit, .direction, .isEdge, .lower, .upper,
    .exprWithAlias, .orderPairs, .groupKeys, .groupValues, .dedupKeys, .sinkColumns, .wholePath, .vertexOpt,
    .subCollection, .subRootId, .joinKind, .subCollections, .parentIds]
  word
    | .scanOpt => "scan_opt"
    | .labels => "labels"
    | .properties => "properties"
    | .ids => "ids"
    | .predicate => "predicate"
    | .limit => "limit"
    | .direction => "direction"
    | .isEdge => "is_edge"
    | .lower => "lower"
    | .upper => "upper"
    | .exprWithAlias => "expr_with_alias"
    | .orderPairs => "order_pairs"
    | .groupKeys => "group_keys"
    | .groupValues => "group_values"
    | .dedupKeys => "dedup_keys"
    | .sinkColumns => "sink_columns"
    | .wholePath => "is_whole_path"
    | .vertexOpt => "vopt"
    | .subCollection => "sub_collection"
    | .subRootId => "sub_root_id"
    | .joinKind => "join_kind"
    | .subCollections => "sub_collections"
    | .parentIds => "parent_id_list"

namespace OperatorKind

def name (kind : OperatorKind) : String := Vocabulary.word kind

def slots : OperatorKind → List Slot
  | .scan => [.scanOpt, .labels, .properties, .ids, .predicate, .limit]
  | .select => [.predicate]
  | .expand => [.direction, .isEdge, .labels, .properties, .predicate, .limit]
  | .limit => [.lower, .upper]
  | .project => [.exprWithAlias]
  | .orderBy => [.orderPairs, .lower, .upper]
  | .groupBy => [.groupKeys, .groupValues]
  | .dedup => [.dedupKeys]
  | .sink => [.sinkColumns]
  | .pathExpand => [.direction, .isEdge, .labels, .properties, .predicate, .limit, .lower, .upper, .wholePath]
  | .getVertex => [.vertexOpt]
  | .apply => [.subCollection, .subRootId, .joinKind]
  | .union => [.subCollections, .parentIds]

def accepts (kind : OperatorKind) (slot : Slot) : Bool := kind.slots.contains slot

/-- Kinds whose nodes in a plan carry the operator's alias; after all others a node of its own binds it. -/
def carriesAlias : OperatorKind → Bool
  | .scan | .expand | .pathExpand | .project | .groupBy | .apply | .getVertex => true
  | _ => false

end OperatorKind

end TraversalPlanner
