import TraversalPlanner.Plan.Tables

/-! Physical plans: a finished plan laid out for a number of workers on each of a number of servers. -/

namespace TraversalPlanner

structure PhysicalNode where
  id : Int32
  op : NodeOp Int32
  children : List Int32
  /-- The input has to be moved to where the current element lies. -/
  shuffle : Bool

structure PhysicalPlan where
  workers : UInt32
  servers : UInt32
  /-- The node where the main plan begins. -/
  root : Int32
  /-- The nodes where the plans of applies begin. -/
  subRoots : List Int32
  nodes : List PhysicalNode

/-- Why a plan cannot be laid out. -/
inductive LayoutFault where
  | noDeployment (workers servers : UInt32)
  | noOperators
  | cyclic
  | missingSubRoot (node : Nat) (root : Int)
  | subRootWithParents (node : Nat) (root : Int)
  | noEntry
  | danglingRoots (roots : List Nat)
  | missingNode (node : Nat)

namespace LayoutFault

def message : LayoutFault → String
  | .noDeployment workers servers => s!"invalid deployment of {workers} workers on {servers} servers"
  | .noOperators => "plan has no operators"
  | .cyclic => "plan contains a cycle"
  | .missingSubRoot node root => s!"apply node {node} references missing sub-plan root {root}"
  | .subRootWithParents node root => s!"sub-plan root {root} of apply node {node} has parents"
  | .noEntry => "plan has no entry node"
  | .danglingRoots roots => "plan has dangling roots [" ++ ", ".intercalate (roots.map toString) ++ "]"
  | .missingNode node => s!"node {node} is missing"

end LayoutFault

namespace PhysicalPlan

/-- The product, or the greatest word if that is less. -/
def saturatingMul (first second : UInt32) : UInt32 := UInt32.ofNat (min (first.toNat * second.toNat) (UInt32.size - 1))

/-- Work is spread as soon as there is more than one worker in all. -/
def spread (workers servers : UInt32) : Bool := 1 < saturatingMul workers servers

def partitioned (plan : PhysicalPlan) : Bool := spread plan.workers plan.servers

/-- The number of nodes, cut to 32 bits. There are never more nodes in a graph than words can count. -/
def count (tables : PlanTables) : Int := PlanTables.asId (min tables.size (UInt32.size - 1))

/-- The root that an apply node refers to; it has to be there and must not have parents. -/
def subRootOf (tables : PlanTables) (id : Nat) : Except LayoutFault (Option Nat) :=
  match tables.node? id with
  | some (.apply _ root _) =>
    if root < 0 ∨ count tables ≤ root then .error (.missingSubRoot id root)
    else if (tables.parents root).isEmpty then .ok (some root.toNat)
    else .error (.subRootWithParents id root)
  | _ => .ok none

def physicalNode (tables : PlanTables) (workers servers : UInt32) (id : Nat) : Except LayoutFault PhysicalNode :=
  match tables.node? id with
  | some op => .ok {
      id := Int32.ofNat id
      op := op.map Int32.ofInt
      children := (tables.children id).map Int32.ofInt
      shuffle := spread workers servers && op.needsLocality }
  | none => .error (.missingNode id)

/-- Every node without parents is the one root of the main plan or the root of an apply's plan. -/
def layOutNodes (tables : PlanTables) (workers servers : UInt32) (ids named : List Nat) : Except LayoutFault PhysicalPlan :=
  let subRoots := ids.filter named.contains
  match ids.filter fun id : Nat => (tables.parents id).isEmpty && !subRoots.contains id with
  | [] => .error .noEntry
  | [root] => do
    let nodes ← ids.mapM (physicalNode tables workers servers)
    return { workers, servers, root := Int32.ofNat root, subRoots := subRoots.map Int32.ofNat, nodes }
  | roots => .error (.danglingRoots roots)

/-- Lays a plan out, if nothing speaks against it. How cycles are found is left open. -/
def ofTables (cyclic : List (Nat × Nat) → Bool) (tables : PlanTables) (workers servers : UInt32) :
    Except LayoutFault PhysicalPlan := do
  if workers = 0 ∨ servers = 0 then throw (.noDeployment workers servers)
  if tables.isEmpty then throw .noOperators
  if cyclic tables.edges then throw .cyclic
  let ids := List.range (count tables).toNat
  let named ← ids.mapM (subRootOf tables)
  layOutNodes tables workers servers ids (named.filterMap id)

def ofGraph (plan : PlanGraph) (workers servers : UInt32) : Except LayoutFault PhysicalPlan :=
  ofTables PlanTables.hasCycle plan.tables workers servers

def reference (id : Int32) : Json := .whole id.toInt

def nodeToJson (node : PhysicalNode) : Json :=
  .object [("id", reference node.id), ("opr", node.op.toJson reference), ("children", .ofList reference node.children),
    ("shuffle", .bool node.shuffle)]

def toJson (plan : PhysicalPlan) : Json :=
  .object [("workers", .whole plan.workers.toNat), ("servers", .whole plan.servers.toNat), ("root", reference plan.root),
    ("sub_roots", .ofList reference plan.subRoots), ("nodes", .ofList nodeToJson plan.nodes)]

def nodeOfJson? (json : Json) : Option PhysicalNode := do
  let fields ← json.fields? ["id", "opr", "children", "shuffle"]
  return {
    id := ← fields.required? "id" Json.int32?
    op := ← fields.required? "opr" (NodeOp.ofJson? Json.int32?)
    children := ← fields.required? "children" (Json.listOf? Json.int32?)
    shuffle := ← fields.required? "shuffle" Json.bool? }

def ofJson? (json : Json) : Option PhysicalPlan := do
  let fields ← json.fields? ["workers", "servers", "root", "sub_roots", "nodes"]
  return {
    workers := ← fields.required? "workers" Json.uint32?
    servers := ← fields.required? "servers" Json.uint32?
    root := ← fields.required? "root" Json.int32?
    subRoots := ← fields.required? "sub_roots" (Json.listOf? Json.int32?)
    nodes := ← fields.required? "nodes" (Json.listOf? nodeOfJson?) }

end PhysicalPlan

end TraversalPlanner
