import TraversalPlanner.Plan.Accumulator
import TraversalPlanner.Plan.Frame
import TraversalPlanner.Plan.Lowering

/-! Assembling a plan: operators are appended to an accumulator one after the other. The operators of an
apply enter the plan before it, as a plan of their own that sees the tags bound so far; so do the
branches of a union, each under the node that the union would have continued. -/

namespace TraversalPlanner

inductive Lifecycle where
  | created
  | building
  | serialized
  | closed
deriving DecidableEq

/-- An accumulator's state and how far the plan in it has come. Once closed it is used no more. -/
structure Assembly (σ : Type) where
  store : σ
  state : Lifecycle

/-- Steps that may fail and still leave their mark. -/
abbrev Assembling (σ : Type) := ExceptT Error (StateM (Assembly σ))

namespace Assembly

variable {σ : Type}

def start (store : σ) : Assembly σ := { store, state := .created }

/-- Calls the accumulator. -/
def call {α : Type} (action : σ → α × σ) : Assembling σ α := do
  let assembly ← get
  let (answer, store) := action assembly.store
  set { assembly with store }
  return answer

def checkOpen : Assembling σ Unit := do
  if (← get).state = .closed then throw .useAfterClose

/-- Appends the node of an operator, and one that binds its alias if the node cannot do so itself. The
answer names both nodes. -/
def placeLinked (accumulator : Accumulator σ) (parent scope : Int) (operator : Operator) (links : Links) :
    Assembling σ (Int × Int) := do
  let op ← operator.toNode links
  let parents := match op with
    | .union parents => parents
    | _ => [parent]
  let refused (refusal : Refusal) : Error := .appendFailed operator.kind refusal
  let appended ← call fun store =>
    if parents = [-1] then accumulator.appendRoot op scope store else accumulator.append op parents store
  let own ← appended.mapError refused
  let last ← match operator.tag with
    | some tag =>
      if operator.kind.carriesAlias then pure own
      else do
        let bound ← call (accumulator.append (.bind tag.name) [own])
        bound.mapError refused
    | none => pure own
  modify fun assembly => if assembly.state = .created then { assembly with state := .building } else assembly
  return (own, last)

mutual
/-- Appends one operator under a parent, or as a root that sees the scope's tags when the parent is
`-1`. The answer is the operator's own node and the last node appended for it. -/
def place (accumulator : Accumulator σ) (parent scope : Int) : Operator → Assembling σ (Int × Int)
  | ⟨.apply (some sub) subRoot join, tag⟩ => do
    let operator : Operator := ⟨.apply (some sub) subRoot join, tag⟩
    checkOpen
    operator.checkBranching
    let first ← placeFrom accumulator none (-1) (if 0 ≤ parent then parent else scope) sub
    placeLinked accumulator parent scope operator { operator.links with subRoot := some first.1 }
  | ⟨.union (some branches) parents, tag⟩ => do
    let operator : Operator := ⟨.union (some branches) parents, tag⟩
    checkOpen
    operator.checkBranching
    let lasts ← placeBranches accumulator parent scope branches
    placeLinked accumulator parent scope operator { operator.links with parents := some lasts }
  | operator => do
    checkOpen
    operator.checkBranching
    placeLinked accumulator parent scope operator operator.links
termination_by structural operator => operator

/-- Appends operators one under the other. The answer is the own node of the first one, given or found,
and the last node; without operators both are the parent. -/
def placeFrom (accumulator : Accumulator σ) (first : Option Int) (parent scope : Int) :
    List Operator → Assembling σ (Int × Int)
  | [] => return (first.getD parent, parent)
  | operator :: rest => do
    let (own, last) ← place accumulator parent scope operator
    placeFrom accumulator (first.or (some own)) last scope rest
termination_by structural operators => operators

/-- Appends each branch under the same parent and gives the last node of each. -/
def placeBranches (accumulator : Accumulator σ) (parent scope : Int) :
    List (List Operator) → Assembling σ (List Int)
  | [] => return []
  | branch :: rest => do
    let (_, last) ← placeFrom accumulator none parent scope branch
    return last :: (← placeBranches accumulator parent scope rest)
termination_by structural branches => branches
end

/-- Appends one operator and gives the last node that it took. -/
def append (accumulator : Accumulator σ) (parent : Int) (operator : Operator) : Assembling σ Int := do
  let (_, last) ← place accumulator parent (-1) operator
  return last

/-- Appends operators in a chain and gives the first one's node and the last node. -/
def appendAll (accumulator : Accumulator σ) (parent : Int) (operators : List Operator) :
    Assembling σ (Int × Int) :=
  placeFrom accumulator none parent (-1) operators

/-- The bytes of the plan for a deployment. -/
def physicalBytes (accumulator : Accumulator σ) (workers servers : UInt32) : Assembling σ (List UInt8) := do
  if (← get).state = .closed then throw .closedBeforeBuild
  let bytes ← call (accumulator.bytes workers servers)
  if bytes.isEmpty then throw (.emptyBuild workers servers)
  modify fun assembly => { assembly with state := .serialized }
  return bytes

/-- The plan as indented JSON. -/
def planText (accumulator : Accumulator σ) : Assembling σ String := do
  checkOpen
  let text ← call accumulator.text
  text.mapError Error.exportFailed

/-- Releases the accumulator, the first time. -/
def close (accumulator : Accumulator σ) (assembly : Assembly σ) : Assembly σ :=
  if assembly.state = .closed then assembly
  else { store := accumulator.release assembly.store, state := .closed }

end Assembly

namespace PlanGraph

/-- Keeps the old plan when an append is refused. -/
def answer (plan : PlanGraph) : Except Refusal (Nat × PlanGraph) → Except Refusal Int × PlanGraph
  | .ok (id, plan) => (.ok id, plan)
  | .error refusal => (.error refusal, plan)

/-- Plans as their own accumulators. -/
def accumulator : Accumulator PlanGraph where
  append := fun op parents plan => plan.answer (plan.append op parents)
  appendRoot := fun op scope plan => plan.answer (plan.appendRoot op scope)
  text := fun plan => (plan.text, plan)
  bytes := fun workers servers plan => (plan.bytes workers servers, plan)
  release := release

end PlanGraph

/-- Plans in tables as accumulators. -/
def PlanTables.accumulator (cyclic : List (Nat × Nat) → Bool) : Accumulator PlanTables where
  append := fun op parents tables => (append op parents).run tables
  appendRoot := fun op scope tables => (appendRoot op scope).run tables
  text := fun tables => (tables.text, tables)
  bytes := fun workers servers tables => (tables.bytes cyclic workers servers, tables)
  release := release

end TraversalPlanner
