import TraversalPlanner.Error
import TraversalPlanner.Json.Reader

/-! Where jobs run, and the bounds each job is run within. -/

namespace TraversalPlanner

structure Deployment where
  /-- One address for each server. -/
  hosts : List String
  /-- Workers on each server. -/
  workers : UInt32
  batchSize : UInt32
  memoryLimit : UInt64
  outputCapacity : UInt32
  /-- In milliseconds. -/
  timeout : UInt64

namespace Deployment

def standalone : Deployment where
  hosts := ["localhost:1234"]
  workers := 1
  batchSize := 1024
  memoryLimit := 4294967295
  outputCapacity := 16
  timeout := 240000

def ofHosts (hosts : List String) (workers : UInt32) : Deployment := { standalone with hosts, workers }

def servers (deployment : Deployment) : UInt32 := UInt32.ofNat deployment.hosts.length

/-- A job needs a server and a worker to run on. -/
def validate (deployment : Deployment) : Except Error Unit :=
  if deployment.hosts.isEmpty then .error .noHosts
  else if deployment.workers = 0 then .error .noWorkers
  else .ok ()

def toJson (deployment : Deployment) : Json :=
  .object [("hosts", .ofList Json.text deployment.hosts), ("worker_num", .whole deployment.workers.toNat),
    ("batch_size", .whole deployment.batchSize.toNat), ("memory_limit", .whole deployment.memoryLimit.toNat),
    ("output_capacity", .whole deployment.outputCapacity.toNat), ("timeout_ms", .whole deployment.timeout.toNat)]

/-- What is left out is as on a single node. -/
def ofJson? (json : Json) : Option Deployment := do
  let fields ← json.fields? ["hosts", "worker_num", "batch_size", "memory_limit", "output_capacity", "timeout_ms"]
  return {
    hosts := ← fields.orElse? "hosts" standalone.hosts (Json.listOf? Json.text?)
    workers := ← fields.orElse? "worker_num" standalone.workers Json.uint32?
    batchSize := ← fields.orElse? "batch_size" standalone.batchSize Json.uint32?
    memoryLimit := ← fields.orElse? "memory_limit" standalone.memoryLimit Json.uint64?
    outputCapacity := ← fields.orElse? "output_capacity" standalone.outputCapacity Json.uint32?
    timeout := ← fields.orElse? "timeout_ms" standalone.timeout Json.uint64? }

def parse (text : String) : Except Error Deployment :=
  match Json.parse? text >>= ofJson? with
  | some deployment => do
    deployment.validate
    return deployment
  | none => .error .unreadableText

end Deployment

end TraversalPlanner
