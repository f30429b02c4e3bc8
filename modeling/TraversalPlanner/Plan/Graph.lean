import TraversalPlanner.Json.Writer
import TraversalPlanner.Plan.NodeText
import TraversalPlanner.Plan.Refusal
import TraversalPlanner.Schema

/-! Plans as they grow. Nodes are numbered in the order in which they are appended and only ever refer
back, to their parents. Each node knows the tags that are visible behind it: those visible at all its
parents, or at the node whose scope a detached one was given, and those that it binds itself. -/

namespace TraversalPlanner

structure PlanNode where
  op : NodeOp Int
  parents : List Nat
  visible : List Identifier

structure PlanGraph where
  schema : Option Schema
  nodes : List PlanNode
  /-- Each bound tag with the last node that bound it. -/
  binders : List (Identifier × Nat)
  released : Bool

namespace PlanGraph

def empty (schema : Option Schema) : PlanGraph := { schema, nodes := [], binders := [], released := false }

def size (plan : PlanGraph) : Nat := plan.nodes.length

def isEmpty (plan : PlanGraph) : Bool := plan.nodes.isEmpty

def node? (plan : PlanGraph) (id : Int) : Option PlanNode := if id < 0 then none else plan.nodes[id.toNat]?

def insertSorted {ι : Type} [LE ι] [DecidableLE ι] (id : ι) : List ι → List ι
  | [] => [id]
  | head :: rest => if id ≤ head then id :: head :: rest else head :: insertSorted id rest

/-- In ascending order, each as often as it was named. -/
def parents (plan : PlanGraph) (id : Int) : List Nat :=
  match plan.node? id with
  | some node => node.parents.foldr insertSorted []
  | none => []

/-- In ascending order, each as often as it names the parent. -/
def children (plan : PlanGraph) (id : Int) : List Nat :=
  plan.nodes.zipIdx.flatMap fun (node, child) =>
    List.replicate (node.parents.countP fun parent : Nat => (parent : Int) = id) child

def binder? (plan : PlanGraph) (tag : Identifier) : Option Nat := plan.binders.lookup tag

def resolve (plan : PlanGraph) (parent : Int) : Except Refusal Nat :=
  if parent < 0 then .error .negativeIndex
  else if parent.toNat < plan.size then .ok parent.toNat
  else .error .parentNotFound

/-- The first node of a plan has no parents, whatever is asked for; nor has a node under `[-1]`. -/
def resolveAll (plan : PlanGraph) (parents : List Int) : Except Refusal (List Nat) :=
  if plan.isEmpty ∨ parents = [-1] then .ok [] else parents.mapM plan.resolve

def visibleAt (plan : PlanGraph) (id : Nat) : List Identifier := (plan.nodes[id]?.map PlanNode.visible).getD []

/-- The tags that all of the parents see. -/
def visibleUnder (plan : PlanGraph) : List Nat → List Identifier
  | [] => []
  | first :: rest => rest.foldl (fun seen parent => seen.filter (plan.visibleAt parent).contains) (plan.visibleAt first)

/-- The tables a node reads, and whether they are tables of vertices. -/
def tablesOf : NodeOp Int → List Identifier × Bool
  | .scan target _ params _ => (params.tables, target = .vertex)
  | .edge _ params _ _ => (params.tables, false)
  | .path _ params _ _ _ => (params.tables, false)
  | _ => ([], false)

/-- Tables are checked before columns. -/
def checkAgainst (schema : Option Schema) (op : NodeOp Int) : Except Refusal Unit :=
  match schema with
  | none => .ok ()
  | some schema =>
    let (tables, ofVertices) := tablesOf op
    let known (table : Identifier) := if ofVertices then schema.knowsVertexLabel table else schema.knowsEdgeLabel table
    let defined (reference : Variable) : Bool :=
      match reference.property with
      | some (.key name) => schema.knowsProperty name
      | _ => true
    if !tables.all known then .error .tableNotExist
    else if !op.references.all defined then .error .columnNotExist
    else .ok ()

def checkSchema (plan : PlanGraph) (op : NodeOp Int) : Except Refusal Unit := checkAgainst plan.schema op

def checkTags (visible : List Identifier) (op : NodeOp Int) : Except Refusal Unit :=
  if op.references.all fun reference => reference.tag.all visible.contains then .ok () else .error .tagNotExist

def bindTags (plan : PlanGraph) (id : Nat) (tags : List Identifier) : List (Identifier × Nat) :=
  tags.foldl (fun binders tag => (tag, id) :: binders.filter (fun entry => entry.1 ≠ tag)) plan.binders

def insert (plan : PlanGraph) (op : NodeOp Int) (parents : List Nat) (visible : List Identifier) :
    Except Refusal (Nat × PlanGraph) := do
  plan.checkSchema op
  checkTags visible op
  let id := plan.size
  let node := { op, parents, visible := op.bindings.foldl (fun seen tag => seen.insert tag) visible }
  return (id, { plan with nodes := plan.nodes ++ [node], binders := plan.bindTags id op.bindings })

/-- Appends a node that continues its parents. -/
def append (plan : PlanGraph) (op : NodeOp Int) (parents : List Int) : Except Refusal (Nat × PlanGraph) := do
  if plan.released then throw .planReleased
  let parents ← plan.resolveAll parents
  plan.insert op parents (plan.visibleUnder parents)

/-- Appends a node without parents, which sees what the node `scope` sees, or nothing if that is
negative. -/
def appendRoot (plan : PlanGraph) (op : NodeOp Int) (scope : Int) : Except Refusal (Nat × PlanGraph) := do
  if plan.released then throw .planReleased
  if scope < 0 then plan.insert op [] []
  else match plan.nodes[scope.toNat]? with
    | some node => plan.insert op [] node.visible
    | none => throw .parentNotFound

def toJson (plan : PlanGraph) : Json :=
  let nodeToJson (entry : PlanNode × Nat) : Json :=
    .object [("id", .whole entry.2), ("opr", entry.1.op.toJson Json.whole),
      ("children", .ofList (fun child : Nat => Json.whole child) (plan.children entry.2))]
  .object [("nodes", .ofList nodeToJson plan.nodes.zipIdx)]

def text (plan : PlanGraph) : Except Refusal String :=
  if plan.released then .error .planReleased else .ok (plan.toJson.pretty 0)

def release (plan : PlanGraph) : PlanGraph := { plan with nodes := [], binders := [], released := true }

end PlanGraph

end TraversalPlanner
