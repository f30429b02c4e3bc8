import TraversalPlanner.Json.Record
import TraversalPlanner.Number.Layout
import TraversalPlanner.Value.Vocabulary

/-! What happened while a query was compiled: its phases, what each of them produced, and how long each
of them took by a clock whose readings are handed in. -/

namespace TraversalPlanner

inductive Phase where
  | buildOperators
  | assemblePlan
  | serializePhysical
deriving DecidableEq

instance : Vocabulary Phase where
  members := [.buildOperators, .assemblePlan, .serializePhysical]
  word
    | .buildOperators => "BuildOperators"
    | .assemblePlan => "AssemblePlan"
    | .serializePhysical => "SerializePhysical"

def Phase.title : Phase → String
  | .buildOperators => "Build operators"
  | .assemblePlan => "Assemble plan"
  | .serializePhysical => "Serialize physical plan"

/-- A phase and the number of operators or nodes that it produced. -/
structure PhaseReport where
  phase : Phase
  description : String
  operatorCount : Nat

/-- Whole seconds and the nanoseconds beyond them. -/
structure Duration where
  seconds : Nat
  nanoseconds : Nat
deriving DecidableEq

namespace Duration

def zero : Duration := { seconds := 0, nanoseconds := 0 }

def perSecond : Nat := 1000000000

def total (duration : Duration) : Nat := duration.seconds * perSecond + duration.nanoseconds

def ofTotal (nanoseconds : Nat) : Duration :=
  { seconds := nanoseconds / perSecond, nanoseconds := nanoseconds % perSecond }

/-- The time from one clock reading to a later one. -/
def since (earlier later : Duration) : Duration := ofTotal (later.total - earlier.total)

open Number in
/-- Milliseconds with one digit after the point, computed in doubles. -/
def milliseconds (duration : Duration) : String :=
  let fraction := (Binary64.ofNat duration.nanoseconds).div (.ofNat perSecond)
  oneDecimal (((Binary64.ofNat duration.seconds).add fraction).mul (.ofNat 1000))

def toJson (duration : Duration) : Json :=
  .object [("secs", .whole duration.seconds), ("nanos", .whole duration.nanoseconds)]

/-- A duration has no other fields than its two. Nanoseconds beyond a second count as seconds, which
must still fit into their word. -/
def ofJson? (json : Json) : Option Duration := do
  let allowed := match json with
    | .object entries => entries.all fun entry => entry.1 = "secs" || entry.1 = "nanos"
    | _ => true
  if !allowed then none
  let fields ← json.fields? ["secs", "nanos"]
  let seconds ← fields.required? "secs" Json.uint64?
  let nanoseconds ← fields.required? "nanos" Json.uint32?
  let duration := ofTotal (seconds.toNat * perSecond + nanoseconds.toNat)
  if duration.seconds < UInt64.size then some duration else none

end Duration

structure TimedReport where
  report : PhaseReport
  duration : Duration

structure Trace where
  steps : List TimedReport
  totalDuration : Duration
  physicalBytes : Nat

/-- A trace in the making, with the clock reading at which the running step was started. -/
structure Recorder where
  steps : List TimedReport
  begun : Duration
  started : Option Duration

namespace Recorder

def start (now : Duration) : Recorder := { steps := [], begun := now, started := none }

def startPhase (recorder : Recorder) (now : Duration) : Recorder := { recorder with started := some now }

/-- Ends the running step; one that was never started took no time. -/
def endPhase (recorder : Recorder) (now : Duration) (report : PhaseReport) : Recorder :=
  let duration := (recorder.started.map fun earlier => Duration.since earlier now).getD .zero
  { recorder with steps := recorder.steps ++ [{ report, duration }], started := none }

def close (recorder : Recorder) (now : Duration) (physicalBytes : Nat) : Trace :=
  { steps := recorder.steps, totalDuration := .since recorder.begun now, physicalBytes }

end Recorder

namespace TimedReport

def toJson (step : TimedReport) : Json :=
  .object [("phase", Vocabulary.toJson step.report.phase), ("description", .text step.report.description),
    ("duration", step.duration.toJson), ("operator_count", .whole step.report.operatorCount)]

def ofJson? (json : Json) : Option TimedReport := do
  let fields ← json.fields? ["phase", "description", "duration", "operator_count"]
  let phase ← fields.required? "phase" Vocabulary.ofJson?
  let description ← fields.required? "description" Json.text?
  let duration ← fields.required? "duration" Duration.ofJson?
  let count ← fields.required? "operator_count" Json.uint64?
  return { report := { phase, description, operatorCount := count.toNat }, duration }

end TimedReport

namespace Trace

/-- The first step of a phase. -/
def step? (trace : Trace) (phase : Phase) : Option TimedReport :=
  trace.steps.find? fun step => step.report.phase = phase

def rule (width : Nat) (mark : Char) : String := String.ofList (List.replicate width mark) ++ "\n"

def line (entry : TimedReport × Nat) : String :=
  let (step, index) := entry
  let { phase, description, operatorCount } := step.report
  s!"{index + 1}. {phase.title}: {description} [{operatorCount} operators] ({step.duration.milliseconds}ms)\n"

/-- A summary for readers. -/
def summary (trace : Trace) : String :=
  let head := "Compilation Summary\n" ++ rule 50 '='
    ++ s!"Physical Plan: {trace.physicalBytes} bytes | Compile Time: {trace.totalDuration.milliseconds}ms\n"
  if trace.steps.isEmpty then head
  else head ++ "\nPhases\n" ++ rule 30 '-' ++ String.join (trace.steps.zipIdx.map line)

def ofJson? (json : Json) : Option Trace := do
  let fields ← json.fields? ["steps", "total_duration", "physical_bytes"]
  let steps ← fields.required? "steps" (Json.listOf? TimedReport.ofJson?)
  let totalDuration ← fields.required? "total_duration" Duration.ofJson?
  let physicalBytes ← fields.required? "physical_bytes" Json.uint64?
  return { steps, totalDuration, physicalBytes := physicalBytes.toNat }

end Trace

end TraversalPlanner
