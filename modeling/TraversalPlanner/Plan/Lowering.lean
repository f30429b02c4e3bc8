import TraversalPlanner.Operator.Slots
import TraversalPlanner.Plan.NodeOp
import TraversalPlanner.Text.Classes

/-! From operators to the nodes of a plan. Here an operator's arguments are checked: what its kind needs
has to be there, windows have to be in order, and lists that stand for a choice must not be empty. -/

namespace TraversalPlanner

/-- The nodes of a plan that a branching operator refers to. -/
structure Links where
  subRoot : Option Int
  parents : Option (List Int)

namespace Operator

variable {α : Type}

def present (kind : OperatorKind) (slot : Slot) : Option α → Except Error α
  | some value => .ok value
  | none => .error (.illegalSlot kind slot .absent)

def filled (kind : OperatorKind) (slot : Slot) (values : Option (List α)) : Except Error (List α) := do
  let values ← present kind slot values
  if values.isEmpty then throw (.illegalSlot kind slot .emptyList)
  return values

def window (kind : OperatorKind) (lower upper : Int32) : Except Error Window :=
  if lower < 0 then .error (.illegalSlot kind .lower (.negativeLower lower))
  else if upper < lower then .error (.illegalSlot kind .upper (.crossedBounds lower upper))
  else .ok { lower, upper }

def limitWindow (kind : OperatorKind) : Option Int32 → Except Error (Option Window)
  | some limit => do return some (← window kind 0 limit)
  | none => .ok none

def refuseAlias (operator : Operator) : Except Error Unit :=
  if operator.tag.isSome then .error (.unsupportedAlias operator.kind) else .ok ()

/-- What a branching operator needs, checked before any of its branches enters the plan. -/
def checkBranching (operator : Operator) : Except Error Unit :=
  match operator.args with
  | .apply sub subRoot join => do
    operator.refuseAlias
    let _ ← present .apply .joinKind join
    if sub.isNone ∧ subRoot.isNone then throw (.illegalSlot .apply .subCollection .absent)
  | .union (some branches) _ =>
    if branches.isEmpty then .error (.illegalSlot .union .subCollections .emptyList) else .ok ()
  | .union none parents => do
    let _ ← filled .union .parentIds parents
  | _ => .ok ()

def scanNode (args : ScanArguments) (tag : Option Identifier) : Except Error (NodeOp Int) := do
  let target ← present .scan .scanOpt args.target
  if args.ids.any List.isEmpty then throw (.illegalSlot .scan .ids .emptyLookup)
  let limit ← limitWindow .scan args.limit
  let params : TableRead := {
    tables := args.labels.getD []
    columns := args.properties.getD []
    limit
    predicate := args.predicate }
  return .scan target tag params args.ids

def expansion (kind : OperatorKind) (args : ExpandArguments) : Except Error (Direction × TableRead) := do
  let direction ← present kind .direction args.direction
  let limit ← limitWindow kind args.limit
  return (direction, {
    tables := args.labels.getD []
    columns := args.properties.getD []
    limit
    predicate := args.predicate })

/-- The alias of a projection goes to its only column, provided that column has none. -/
def projectNode (columns : Option (List (Projected Alias))) (tag : Option Alias) : Except Error (NodeOp Int) := do
  let columns ← filled .project .exprWithAlias columns
  let columns ← match tag, columns with
    | none, columns => .ok columns
    | some tag, [{ expression, tag := none }] => .ok [{ expression, tag := some tag }]
    | some _, _ => .error (.unsupportedAlias .project)
  let named := columns.map fun column => { expression := column.expression, tag := column.tag.map Alias.name }
  match repeated (named.filterMap Projected.tag) with
  | some name => throw (.illegalSlot .project .exprWithAlias (.repeatedAlias name))
  | none => return .project named true
where
  /-- The first name that has stood before. -/
  repeated (names : List Identifier) : Option Identifier :=
    (names.zipIdx.find? fun (name, index) => (names.take index).contains name).map Prod.fst

/-- A sorted window has both bounds or none. -/
def orderNode (keys : Option (List SortKey)) (lower upper : Option Int32) : Except Error (NodeOp Int) := do
  let keys ← filled .orderBy .orderPairs keys
  match lower, upper with
  | some lower, some upper => return .orderBy keys (some (← window .orderBy lower upper))
  | none, none => return .orderBy keys none
  | some _, none => throw (.illegalSlot .orderBy .upper .absent)
  | none, some _ => throw (.illegalSlot .orderBy .lower .absent)

def groupNode (keys : Option (List (GroupKey Alias))) (values : Option (List (Aggregation Alias))) :
    Except Error (NodeOp Int) := do
  let keys ← present .groupBy .groupKeys keys
  let values ← filled .groupBy .groupValues values
  return .groupBy (keys.map fun key => { key with tag := key.tag.name })
    (values.map fun value => { value with tag := value.tag.name })

/-- The node of an operator that refers to the given other nodes. -/
def toNode (operator : Operator) (links : Links) : Except Error (NodeOp Int) :=
  let tag := operator.tag.map Alias.name
  match operator.args with
  | .scan args => scanNode args tag
  | .select predicate => do
    let predicate ← present .select .predicate predicate
    if Text.blank predicate then throw (.illegalSlot .select .predicate .blankPredicate)
    return .select predicate
  | .expand args => do
    let (direction, params) ← expansion .expand args
    return .edge direction params (← present .expand .isEdge args.isEdge) tag
  | .limit lower upper => do
    let lower ← present .limit .lower lower
    let upper ← present .limit .upper upper
    return .limit (← window .limit lower upper)
  | .project columns => projectNode columns operator.tag
  | .orderBy keys lower upper => orderNode keys lower upper
  | .groupBy keys values => do
    operator.refuseAlias
    groupNode keys values
  | .dedup keys => do
    let keys ← present .dedup .dedupKeys keys
    return .dedup (if keys.isEmpty then [.current] else keys)
  | .sink columns => return .sink (← filled .sink .sinkColumns columns)
  | .pathExpand args lower upper wholePath => do
    let (direction, params) ← expansion .pathExpand args
    let _ ← present .pathExpand .isEdge args.isEdge
    let lower ← present .pathExpand .lower lower
    let upper ← present .pathExpand .upper upper
    return .path direction params (← window .pathExpand lower upper) (wholePath.getD false) tag
  | .getVertex edgeEnd => return .vertex (← present .getVertex .vertexOpt edgeEnd) tag
  | .apply _ _ join => do
    operator.refuseAlias
    let join ← present .apply .joinKind join
    let subRoot ← present .apply .subRootId links.subRoot
    if subRoot < 0 then throw (.illegalSlot .apply .subRootId .emptySubPlan)
    return .apply join subRoot none
  | .union .. => return .union (← filled .union .parentIds links.parents)

/-- The nodes that the operator's own slots name. -/
def links (operator : Operator) : Links :=
  match operator.args with
  | .apply _ subRoot _ => { subRoot := subRoot.map Int32.toInt, parents := none }
  | .union _ parents => { subRoot := none, parents := parents.map (List.map Int32.toInt) }
  | _ => { subRoot := none, parents := none }

end Operator

end TraversalPlanner
