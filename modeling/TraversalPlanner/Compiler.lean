import TraversalPlanner.Deployment
import TraversalPlanner.Operator.Build
import TraversalPlanner.Plan.Assembly
import TraversalPlanner.Trace

/-! From a traversal to the bytes of its plan. Every compilation opens an accumulator of its own, once
the traversal has been built, and has released it when it ends. -/

namespace TraversalPlanner

def version : String := "0.0.1"

structure Compiled where
  bytes : List UInt8
  reports : List PhaseReport

namespace Compiler

variable {σ : Type}

/-- An answer, and what became of the accumulator if one was opened. -/
structure Outcome (σ α : Type) where
  answer : Except Error α
  store : Option σ

/-- Builds a traversal, assembles its plan in a fresh accumulator, makes something of it and releases the
accumulator, whatever came of it. -/
def run {α : Type} (accumulator : Accumulator σ) (fresh : σ) (traversal : Traversal)
    (finish : List Operator → Nat → Assembling σ α) : Outcome σ α :=
  match traversal.build with
  | .error error => { answer := .error error, store := none }
  | .ok operators =>
    let assembled : Assembling σ α := do
      let (_, last) ← Assembly.appendAll accumulator (-1) operators
      finish operators (last + 1).toNat
    let (answer, assembly) := assembled.run (Assembly.start fresh)
    { answer, store := some (assembly.close accumulator).store }

def compileWith (accumulator : Accumulator σ) (fresh : σ) (deployment : Deployment) (traversal : Traversal) :
    Outcome σ Compiled :=
  run accumulator fresh traversal fun operators nodeCount => do
    let bytes ← Assembly.physicalBytes accumulator deployment.workers deployment.servers
    let reports : List PhaseReport := [
      { phase := .buildOperators, description := s!"{traversal.length} steps", operatorCount := operators.length },
      { phase := .assemblePlan, description := "appended to accumulator", operatorCount := nodeCount },
      { phase := .serializePhysical,
        description := s!"{deployment.workers} workers on {deployment.servers} servers",
        operatorCount := nodeCount }]
    return { bytes, reports }

/-- The plan as text, without laying it out. -/
def explainWith (accumulator : Accumulator σ) (fresh : σ) (traversal : Traversal) : Outcome σ String :=
  run accumulator fresh traversal fun _ _ => Assembly.planText accumulator

def compile (deployment : Deployment) (schema : Option Schema) (traversal : Traversal) : Except Error Compiled :=
  (compileWith PlanGraph.accumulator (.empty schema) deployment traversal).answer

def explain (schema : Option Schema) (traversal : Traversal) : Except Error String :=
  (explainWith PlanGraph.accumulator (.empty schema) traversal).answer

/-- Traversals compiled on their own, in their order. -/
def compileAll (deployment : Deployment) (schema : Option Schema) (traversals : List Traversal) :
    List (Except Error Compiled) :=
  traversals.map (compile deployment schema)

end Compiler

end TraversalPlanner
