import TraversalPlanner.Expression.Reference
import TraversalPlanner.Value.Column
import TraversalPlanner.Value.Literal

/-! What a node of a plan does. The type `ι` is that of references to other nodes: whole numbers while a
plan grows, 32-bit words once it is laid out. -/

namespace TraversalPlanner

/-- Which tables and columns are read, how much of them, and which rows. -/
structure TableRead where
  tables : List Identifier
  columns : List Identifier
  limit : Option Window
  predicate : Option String
deriving DecidableEq

inductive NodeOp (ι : Type) where
  | scan (target : ElementKind) (tag : Option Identifier) (params : TableRead) (lookup : Option (List Literal))
  | select (predicate : String)
  | edge (direction : Direction) (params : TableRead) (isEdge : Bool) (tag : Option Identifier)
  | limit (window : Window)
  | project (columns : List (Projected Identifier)) (isAppend : Bool)
  | orderBy (keys : List SortKey) (window : Option Window)
  | groupBy (keys : List (GroupKey Identifier)) (values : List (Aggregation Identifier))
  | dedup (keys : List Variable)
  | sink (tags : List Identifier)
  | path (direction : Direction) (params : TableRead) (hops : Window) (wholePath : Bool) (tag : Option Identifier)
  | vertex (edgeEnd : EdgeEnd) (tag : Option Identifier)
  | apply (join : JoinKind) (subRoot : ι) (tag : Option Identifier)
  | union (parents : List ι)
  | bind (tag : Identifier)

namespace NodeOp

variable {ι : Type}

def name : NodeOp ι → String
  | .scan .. => "scan"
  | .select _ => "select"
  | .edge .. => "edge"
  | .limit _ => "limit"
  | .project .. => "project"
  | .orderBy .. => "order_by"
  | .groupBy .. => "group_by"
  | .dedup _ => "dedup"
  | .sink _ => "sink"
  | .path .. => "path"
  | .vertex .. => "vertex"
  | .apply .. => "apply"
  | .union _ => "union"
  | .bind _ => "as"

/-- The tags that later nodes may refer to because of this one. -/
def bindings : NodeOp ι → List Identifier
  | .scan _ tag _ _ => tag.toList
  | .edge _ _ _ tag => tag.toList
  | .path _ _ _ _ tag => tag.toList
  | .vertex _ tag => tag.toList
  | .apply _ _ tag => tag.toList
  | .bind tag => [tag]
  | .project columns _ => columns.filterMap Projected.tag
  | .groupBy keys values => keys.map GroupKey.tag ++ values.map Aggregation.tag
  | _ => []

def TableRead.references (params : TableRead) : List Variable :=
  (params.predicate.map Expression.referencesOf).getD []

/-- Everything that the node reads of its input. -/
def references : NodeOp ι → List Variable
  | .scan _ _ params _ => TableRead.references params
  | .edge _ params _ _ => TableRead.references params
  | .path _ params _ _ _ => TableRead.references params
  | .select predicate => Expression.referencesOf predicate
  | .project columns _ => columns.flatMap fun column => Expression.referencesOf column.expression
  | .orderBy keys _ => keys.map SortKey.key
  | .groupBy keys values => keys.map GroupKey.key ++ values.flatMap Aggregation.inputs
  | .dedup keys => keys
  | .sink tags => tags.map Variable.ofTag
  | _ => []

/-- Nodes whose input has to lie where the current element lies. -/
def needsLocality : NodeOp ι → Bool
  | .edge .. | .path .. | .vertex .. | .dedup _ | .groupBy .. => true
  | _ => false

/-- Changes the references to other nodes. -/
def map {κ : Type} (f : ι → κ) : NodeOp ι → NodeOp κ
  | .scan target tag params lookup => .scan target tag params lookup
  | .select predicate => .select predicate
  | .edge direction params isEdge tag => .edge direction params isEdge tag
  | .limit window => .limit window
  | .project columns isAppend => .project columns isAppend
  | .orderBy keys window => .orderBy keys window
  | .groupBy keys values => .groupBy keys values
  | .dedup keys => .dedup keys
  | .sink tags => .sink tags
  | .path direction params hops wholePath tag => .path direction params hops wholePath tag
  | .vertex edgeEnd tag => .vertex edgeEnd tag
  | .apply join subRoot tag => .apply join (f subRoot) tag
  | .union parents => .union (parents.map f)
  | .bind tag => .bind tag

end NodeOp

end TraversalPlanner
