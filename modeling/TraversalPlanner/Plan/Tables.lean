import TraversalPlanner.Plan.Graph

/-! Plans as they are kept: a graph of nodes and edges, a table of tags and a list of what the nodes see. Each of them is
changed on its own, so it takes care to keep them in step. In the graph a node has an index; its id is the index cut to 32
bits. -/

namespace TraversalPlanner

structure PlanTables where
  schema : Option Schema
  /-- The operations of the nodes, by their indices. -/
  ops : List (NodeOp Int)
  /-- The indices of a parent and a child for each edge, in the order in which the edges came. -/
  edges : List (Nat × Nat)
  /-- Each bound tag with the id of the last node that bound it. -/
  tags : List (Identifier × Int)
  /-- The tags that are visible at the nodes, by their indices. -/
  scopes : List (List Identifier)
  released : Bool

namespace PlanTables

def empty (schema : Option Schema) : PlanTables :=
  { schema, ops := [], edges := [], tags := [], scopes := [], released := false }

/-- The id of a node. -/
def asId (index : Nat) : Int := (Int32.ofNat index).toInt

/-- The index that an id is taken for in the graph, which counts in words. -/
def asIndex (id : Int) : Nat := (UInt32.ofInt id).toNat

def size (tables : PlanTables) : Nat := tables.ops.length

def isEmpty (tables : PlanTables) : Bool := tables.ops.isEmpty

def node? (tables : PlanTables) (id : Int) : Option (NodeOp Int) := if id < 0 then none else tables.ops[id.toNat]?

/-- In ascending order, each as often as there are edges to it. -/
def children (tables : PlanTables) (id : Int) : List Int :=
  ((tables.edges.filter (·.1 = asIndex id)).map fun edge => asId edge.2).foldr PlanGraph.insertSorted []

/-- In ascending order, each as often as there are edges from it. -/
def parents (tables : PlanTables) (id : Int) : List Int :=
  ((tables.edges.filter (·.2 = asIndex id)).map fun edge => asId edge.1).foldr PlanGraph.insertSorted []

def tagNode? (tables : PlanTables) (tag : Identifier) : Option Int := tables.tags.lookup tag

def resolve (tables : PlanTables) (parent : Int) : Except Refusal Nat :=
  if parent < 0 then .error .negativeIndex
  else if tables.size ≤ parent.toNat then .error .parentNotFound
  else .ok parent.toNat

def resolveAll (tables : PlanTables) (parents : List Int) : Except Refusal (List Nat) :=
  if tables.isEmpty ∨ parents = [-1] then .ok [] else parents.mapM tables.resolve

/-- The tags that all of the parents see; a parent without a scope does not count. -/
def visibleUnder (tables : PlanTables) (parents : List Nat) : List Identifier :=
  match parents.filterMap fun parent : Nat => tables.scopes[parent]? with
  | [] => []
  | first :: rest => rest.foldl (fun seen scope => seen.filter scope.contains) first

/-! Changes, one table at a time. -/

abbrev Growing := ExceptT Refusal (StateM PlanTables)

/-- The answer is the index of the node. -/
def addNode (op : NodeOp Int) : Growing Nat := do
  let tables ← get
  set { tables with ops := tables.ops ++ [op] }
  return tables.size

def addEdge (parent child : Nat) : Growing Unit :=
  modify fun tables => { tables with edges := tables.edges ++ [(parent, child)] }

def bindTag (id : Int) (tag : Identifier) : Growing Unit :=
  modify fun tables => { tables with tags := (tag, id) :: tables.tags.filter fun entry => entry.1 ≠ tag }

def addScope (visible : List Identifier) : Growing Unit :=
  modify fun tables => { tables with scopes := tables.scopes ++ [visible] }

/-- All checks come before the first change. -/
def insert (op : NodeOp Int) (parents : List Nat) (visible : List Identifier) : Growing Int := do
  PlanGraph.checkAgainst (← get).schema op
  PlanGraph.checkTags visible op
  let index ← addNode op
  parents.forM fun parent => addEdge parent index
  op.bindings.forM (bindTag (asId index))
  addScope (op.bindings.foldl (fun seen tag => seen.insert tag) visible)
  return asId index

/-- Appends a node that continues its parents. -/
def append (op : NodeOp Int) (parents : List Int) : Growing Int := do
  let tables ← get
  if tables.released then throw .planReleased
  let parents ← tables.resolveAll parents
  insert op parents (tables.visibleUnder parents)

/-- Appends a node without parents, which sees what the node `scope` sees, or nothing if that is
negative. -/
def appendRoot (op : NodeOp Int) (scope : Int) : Growing Int := do
  let tables ← get
  if tables.released then throw .planReleased
  if scope < 0 then insert op [] []
  else match tables.scopes[scope.toNat]? with
    | some visible => insert op [] visible
    | none => throw .parentNotFound

def release (tables : PlanTables) : PlanTables :=
  { tables with ops := [], edges := [], tags := [], scopes := [], released := true }

def toJson (tables : PlanTables) : Json :=
  let nodeToJson (entry : NodeOp Int × Nat) : Json :=
    .object [("id", .whole (asId entry.2)), ("opr", entry.1.toJson Json.whole),
      ("children", .ofList Json.whole (tables.children (asId entry.2)))]
  .object [("nodes", .ofList nodeToJson tables.ops.zipIdx)]

def text (tables : PlanTables) : Except Refusal String :=
  if tables.released then .error .planReleased else .ok (tables.toJson.pretty 0)

/-! Cycles. -/

/-- Drops the nodes that have no parent among the others. -/
def peel (edges : List (Nat × Nat)) (nodes : List Nat) : List Nat :=
  nodes.filter fun node => edges.any fun edge => edge.2 = node && nodes.contains edge.1

/-- Whether the edges close a way. Nodes on a closed way outlast all others when nodes are dropped round after round; there
are none if all edges lead forward. -/
def hasCycle (edges : List (Nat × Nat)) : Bool :=
  !edges.all (fun edge => edge.1 < edge.2) && !(Nat.repeat (peel edges) edges.length (edges.map Prod.snd)).isEmpty

end PlanTables

/-- A plan in tables. -/
def PlanGraph.tables (plan : PlanGraph) : PlanTables where
  schema := plan.schema
  ops := plan.nodes.map PlanNode.op
  edges := plan.nodes.zipIdx.flatMap fun (node, child) => node.parents.map fun parent => (parent, child)
  tags := plan.binders.map fun (tag, id) => (tag, PlanTables.asId id)
  scopes := plan.nodes.map PlanNode.visible
  released := plan.released

end TraversalPlanner
