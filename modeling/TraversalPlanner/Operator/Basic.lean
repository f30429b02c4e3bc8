import TraversalPlanner.Operator.Kind
import TraversalPlanner.Value.Column
import TraversalPlanner.Value.Literal

/-! Logical operators. Every kind has its own arguments, each of which may still be absent; what a kind
cannot do without is checked when the operator enters a plan. -/

namespace TraversalPlanner

structure ScanArguments where
  target : Option ElementKind
  labels : Option (List Identifier)
  properties : Option (List Identifier)
  ids : Option (List Literal)
  predicate : Option String
  limit : Option Int32

structure ExpandArguments where
  direction : Option Direction
  isEdge : Option Bool
  labels : Option (List Identifier)
  properties : Option (List Identifier)
  predicate : Option String
  limit : Option Int32

mutual
structure Operator where
  args : OperatorArguments
  /-- The alias that the output is bound to. -/
  tag : Option Alias

/-- An apply holds the operators of its sub-plan, or the id of the first node of one that a plan already
has; a union holds its branches, or the ids of their last nodes. -/
inductive OperatorArguments where
  | scan (args : ScanArguments)
  | select (predicate : Option String)
  | expand (args : ExpandArguments)
  | limit (lower upper : Option Int32)
  | project (columns : Option (List (Projected Alias)))
  | orderBy (keys : Option (List SortKey)) (lower upper : Option Int32)
  | groupBy (keys : Option (List (GroupKey Alias))) (values : Option (List (Aggregation Alias)))
  | dedup (keys : Option (List Variable))
  | sink (columns : Option (List Identifier))
  | pathExpand (args : ExpandArguments) (lower upper : Option Int32) (wholePath : Option Bool)
  | getVertex (edgeEnd : Option EdgeEnd)
  | apply (sub : Option (List Operator)) (subRoot : Option Int32) (join : Option JoinKind)
  | union (branches : Option (List (List Operator))) (parents : Option (List Int32))
end

namespace ScanArguments

def empty : ScanArguments :=
  { target := none, labels := none, properties := none, ids := none, predicate := none, limit := none }

end ScanArguments

namespace ExpandArguments

def empty : ExpandArguments :=
  { direction := none, isEdge := none, labels := none, properties := none, predicate := none, limit := none }

end ExpandArguments

namespace OperatorArguments

def empty : OperatorKind → OperatorArguments
  | .scan => .scan .empty
  | .select => .select none
  | .expand => .expand .empty
  | .limit => .limit none none
  | .project => .project none
  | .orderBy => .orderBy none none none
  | .groupBy => .groupBy none none
  | .dedup => .dedup none
  | .sink => .sink none
  | .pathExpand => .pathExpand .empty none none none
  | .getVertex => .getVertex none
  | .apply => .apply none none none
  | .union => .union none none

def kind : OperatorArguments → OperatorKind
  | .scan _ => .scan
  | .select _ => .select
  | .expand _ => .expand
  | .limit .. => .limit
  | .project _ => .project
  | .orderBy .. => .orderBy
  | .groupBy .. => .groupBy
  | .dedup _ => .dedup
  | .sink _ => .sink
  | .pathExpand .. => .pathExpand
  | .getVertex _ => .getVertex
  | .apply .. => .apply
  | .union .. => .union

end OperatorArguments

namespace Operator

/-- An operator without arguments. -/
def new (kind : OperatorKind) : Operator := { args := .empty kind, tag := none }

def unnamed (args : OperatorArguments) : Operator := { args, tag := none }

def kind (operator : Operator) : OperatorKind := operator.args.kind

end Operator

end TraversalPlanner
