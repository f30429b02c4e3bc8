import TraversalPlanner.Compiler

/-! Handing compiled plans over to be run. Every job gets an id of its own; ids begin at one and a job
that is turned down has used its id up. -/

namespace TraversalPlanner

structure JobIds where
  last : Nat

namespace JobIds

def start : JobIds := { last := 0 }

def draw (ids : JobIds) : Nat × JobIds := (ids.last + 1, { last := ids.last + 1 })

/-- The next ids, as many as asked for. -/
def drawMany (ids : JobIds) : Nat → List Nat × JobIds
  | 0 => ([], ids)
  | count + 1 =>
    let (id, ids) := ids.draw
    let (others, ids) := ids.drawMany count
    (id :: others, ids)

end JobIds

def nameOfJob (id : Nat) : String := s!"ir_plan_{id}"

structure JobSettings where
  id : Nat
  name : String
  workers : UInt32
  batchSize : UInt32
  memoryLimit : UInt64
  outputCapacity : UInt32
  /-- In milliseconds. -/
  timeLimit : UInt64
  /-- The numbers of the servers that run the job. -/
  servers : List Nat

def JobSettings.new (id : Nat) (deployment : Deployment) : JobSettings where
  id := id
  name := nameOfJob id
  workers := deployment.workers
  batchSize := deployment.batchSize
  memoryLimit := deployment.memoryLimit
  outputCapacity := deployment.outputCapacity
  timeLimit := deployment.timeout
  servers := List.range deployment.servers.toNat

structure Job where
  plan : List UInt8
  settings : JobSettings

/-- What a submission comes to: the job's id or an error, the ids that are left, and the request that was
handed over. -/
structure Submission where
  answer : Except Error Nat
  ids : JobIds
  request : Option Job

namespace Compiler

/-- Compiles a traversal and hands it over; `refuse` gives a reason to turn a request down. -/
def submit (deployment : Deployment) (schema : Option Schema) (refuse : Job → Option String) (ids : JobIds)
    (traversal : Traversal) : Submission :=
  match compile deployment schema traversal with
  | .error error => { answer := .error error, ids, request := none }
  | .ok compiled =>
    let (id, ids) := ids.draw
    let request : Job := { plan := compiled.bytes, settings := .new id deployment }
    let answer := match refuse request with
      | some reason => .error (.refusedJob reason)
      | none => .ok id
    { answer, ids, request := some request }

end Compiler

end TraversalPlanner
