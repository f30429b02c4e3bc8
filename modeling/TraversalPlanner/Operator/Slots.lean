import TraversalPlanner.Error
import TraversalPlanner.Operator.Basic

/-! Reading and writing an operator's arguments by slot. -/

namespace TraversalPlanner

inductive SlotValue where
  | scanOpt (value : ElementKind)
  | names (value : List Identifier)
  | consts (value : List Literal)
  | expr (value : String)
  | int (value : Int32)
  | bool (value : Bool)
  | direction (value : Direction)
  | exprAliases (value : List (Projected Alias))
  | orderPairs (value : List SortKey)
  | keyAliases (value : List (GroupKey Alias))
  | aggFns (value : List (Aggregation Alias))
  | references (value : List Variable)
  | vopt (value : EdgeEnd)
  | joinKind (value : JoinKind)
  | collection (value : List Operator)
  | collections (value : List (List Operator))
  | ints (value : List Int32)

namespace SlotValue

def typeWord : SlotValue → String
  | .scanOpt _ => "ScanOpt"
  | .names _ => "Names"
  | .consts _ => "Consts"
  | .expr _ => "Expr"
  | .int _ => "Int"
  | .bool _ => "Bool"
  | .direction _ => "Direction"
  | .exprAliases _ => "ExprAliases"
  | .orderPairs _ => "OrderPairs"
  | .keyAliases _ => "KeyAliases"
  | .aggFns _ => "AggFns"
  | .references _ => "Variables"
  | .vopt _ => "VOpt"
  | .joinKind _ => "JoinKind"
  | .collection _ => "Collection"
  | .collections _ => "Collections"
  | .ints _ => "Ints"

end SlotValue

namespace ScanArguments

def set? (args : ScanArguments) : Slot → SlotValue → Option ScanArguments
  | .scanOpt, .scanOpt value => some { args with target := some value }
  | .labels, .names value => some { args with labels := some value }
  | .properties, .names value => some { args with properties := some value }
  | .ids, .consts value => some { args with ids := some value }
  | .predicate, .expr value => some { args with predicate := some value }
  | .limit, .int value => some { args with limit := some value }
  | _, _ => none

def get? (args : ScanArguments) : Slot → Option SlotValue
  | .scanOpt => args.target.map .scanOpt
  | .labels => args.labels.map .names
  | .properties => args.properties.map .names
  | .ids => args.ids.map .consts
  | .predicate => args.predicate.map .expr
  | .limit => args.limit.map .int
  | _ => none

end ScanArguments

namespace ExpandArguments

def set? (args : ExpandArguments) : Slot → SlotValue → Option ExpandArguments
  | .direction, .direction value => some { args with direction := some value }
  | .isEdge, .bool value => some { args with isEdge := some value }
  | .labels, .names value => some { args with labels := some value }
  | .properties, .names value => some { args with properties := some value }
  | .predicate, .expr value => some { args with predicate := some value }
  | .limit, .int value => some { args with limit := some value }
  | _, _ => none

def get? (args : ExpandArguments) : Slot → Option SlotValue
  | .direction => args.direction.map .direction
  | .isEdge => args.isEdge.map .bool
  | .labels => args.labels.map .names
  | .properties => args.properties.map .names
  | .predicate => args.predicate.map .expr
  | .limit => args.limit.map .int
  | _ => none

end ExpandArguments

namespace OperatorArguments

/-- Absent when the kind has no such slot or the slot takes values of another type. -/
def set? : OperatorArguments → Slot → SlotValue → Option OperatorArguments
  | .scan args, slot, value => (args.set? slot value).map .scan
  | .select _, .predicate, .expr value => some (.select (some value))
  | .expand args, slot, value => (args.set? slot value).map .expand
  | .limit _ upper, .lower, .int value => some (.limit (some value) upper)
  | .limit lower _, .upper, .int value => some (.limit lower (some value))
  | .project _, .exprWithAlias, .exprAliases value => some (.project (some value))
  | .orderBy _ lower upper, .orderPairs, .orderPairs value => some (.orderBy (some value) lower upper)
  | .orderBy keys _ upper, .lower, .int value => some (.orderBy keys (some value) upper)
  | .orderBy keys lower _, .upper, .int value => some (.orderBy keys lower (some value))
  | .groupBy _ values, .groupKeys, .keyAliases value => some (.groupBy (some value) values)
  | .groupBy keys _, .groupValues, .aggFns value => some (.groupBy keys (some value))
  | .dedup _, .dedupKeys, .references value => some (.dedup (some value))
  | .sink _, .sinkColumns, .names value => some (.sink (some value))
  | .pathExpand args _ upper whole, .lower, .int value => some (.pathExpand args (some value) upper whole)
  | .pathExpand args lower _ whole, .upper, .int value => some (.pathExpand args lower (some value) whole)
  | .pathExpand args lower upper _, .wholePath, .bool value => some (.pathExpand args lower upper (some value))
  | .pathExpand args lower upper whole, slot, value =>
    (args.set? slot value).map fun args => .pathExpand args lower upper whole
  | .getVertex _, .vertexOpt, .vopt value => some (.getVertex (some value))
  | .apply _ subRoot join, .subCollection, .collection value => some (.apply (some value) subRoot join)
  | .apply sub _ join, .subRootId, .int value => some (.apply sub (some value) join)
  | .apply sub subRoot _, .joinKind, .joinKind value => some (.apply sub subRoot (some value))
  | .union _ parents, .subCollections, .collections value => some (.union (some value) parents)
  | .union branches _, .parentIds, .ints value => some (.union branches (some value))
  | _, _, _ => none

def get? : OperatorArguments → Slot → Option SlotValue
  | .scan args, slot => args.get? slot
  | .select predicate, .predicate => predicate.map .expr
  | .expand args, slot => args.get? slot
  | .limit lower _, .lower => lower.map .int
  | .limit _ upper, .upper => upper.map .int
  | .project columns, .exprWithAlias => columns.map .exprAliases
  | .orderBy keys _ _, .orderPairs => keys.map .orderPairs
  | .orderBy _ lower _, .lower => lower.map .int
  | .orderBy _ _ upper, .upper => upper.map .int
  | .groupBy keys _, .groupKeys => keys.map .keyAliases
  | .groupBy _ values, .groupValues => values.map .aggFns
  | .dedup keys, .dedupKeys => keys.map .references
  | .sink columns, .sinkColumns => columns.map .names
  | .pathExpand _ lower _ _, .lower => lower.map .int
  | .pathExpand _ _ upper _, .upper => upper.map .int
  | .pathExpand _ _ _ whole, .wholePath => whole.map .bool
  | .pathExpand args _ _ _, slot => args.get? slot
  | .getVertex edgeEnd, .vertexOpt => edgeEnd.map .vopt
  | .apply sub _ _, .subCollection => sub.map .collection
  | .apply _ subRoot _, .subRootId => subRoot.map .int
  | .apply _ _ join, .joinKind => join.map .joinKind
  | .union branches _, .subCollections => branches.map .collections
  | .union _ parents, .parentIds => parents.map .ints
  | _, _ => none

end OperatorArguments

namespace Operator

def get? (operator : Operator) (slot : Slot) : Option SlotValue := operator.args.get? slot

def set (operator : Operator) (slot : Slot) (value : SlotValue) : Except Error Operator :=
  match operator.args.set? slot value with
  | some args => .ok { operator with args }
  | none =>
    .error (.illegalSlot operator.kind slot
      (if operator.kind.accepts slot then .wrongType value.typeWord else .undefinedSlot))

end Operator

end TraversalPlanner
