import TraversalPlanner.Proofs.Mirroring
import TraversalPlanner.Proofs.Serialization

/-! Compiling in tables. While 32 bits can number the nodes of a plan, an accumulator of tables mirrors one of plans whose
nodes hold all that belongs to them. A plan that has bytes never has more nodes than that. -/

namespace TraversalPlanner

open PlanTables

namespace PlanGraph

variable {plan : PlanGraph}

theorem answer_tables {op : NodeOp Int} {ground : Except Refusal (List Nat × List Identifier)}
    {result : Except Refusal (Nat × PlanGraph)} (appends : plan.Appends op ground result)
    (left : (plan.answer result).2.size ≤ 2 ^ 31) :
    plan.size ≤ 2 ^ 31 ∧ plan.inTables result = (plan.answer result).map id tables := by
  cases appends with
  | @grown parents visible _ _ _ _ =>
    have small : plan.size < 2 ^ 31 := by
      rwa [answer, size_grow] at left
    refine ⟨Nat.le_of_lt small, ?_⟩
    rw [inTables, asId_eq small]
    rfl
  | _ => exact ⟨left, rfl⟩

theorem tables_mirrors : Accumulator.Mirrors (fun plan : PlanGraph => plan.size ≤ 2 ^ 31) tables accumulator
    (PlanTables.accumulator hasCycle) where
  append _ parents _ left := by
    obtain ⟨few, same⟩ := answer_tables (append_appends parents) left
    exact ⟨few, (append_tables parents).trans same⟩
  appendRoot _ scope _ left := by
    obtain ⟨few, same⟩ := answer_tables (appendRoot_appends scope) left
    exact ⟨few, (appendRoot_tables scope).trans same⟩
  text plan few := ⟨few, congrArg (Prod.mk · plan.tables) (text_tables few)⟩
  bytes _ _ _ few := ⟨few, rfl⟩
  release _ := release_tables.symm

end PlanGraph

namespace Compiler

open Assembly PlanGraph

variable {schema : Option Schema} {traversal : Traversal} {plan : PlanGraph} {deployment : Deployment}

theorem run_planText {assembly : Assembly PlanGraph} (opened : assembly.state ≠ .closed) :
    (planText PlanGraph.accumulator).run assembly = (assembly.store.text.mapError Error.exportFailed, assembly) := by
  have read : (call PlanGraph.accumulator.text : Assembling PlanGraph (Except Refusal String)).run assembly =
    (.ok assembly.store.text, assembly) := rfl
  unfold planText
  rw [Assembling.run_bind, Assembling.run_checkOpen opened]
  change (call PlanGraph.accumulator.text >>= fun text => liftM (text.mapError Error.exportFailed) :
    Assembling PlanGraph String).run assembly = _
  rw [Assembling.run_bind, read]
  cases assembly.store.text <;> rfl

/-- A plan that is small once it is assembled has been so all along, and stays so if what is made of it leaves it as it
is. -/
theorem Assembles.fits {α : Type} {finish : List Operator → Nat → Assembling PlanGraph α}
    (assembles : Assembles schema traversal plan) (few : plan.size ≤ 2 ^ 31)
    (keeps : ∀ operators count (assembly : Assembly PlanGraph), assembly.state ≠ .closed →
      ((finish operators count).run assembly).2.store = assembly.store)
    (operators : List Operator) (built : traversal.build = .ok operators) :
    ((appendAll PlanGraph.accumulator (-1) operators >>= fun placed => finish operators (placed.2 + 1).toNat).run
      (start (.empty schema))).2.store.size ≤ 2 ^ 31 := by
  obtain ⟨_, placed, assembly, again, ran, opened, rfl⟩ := assembles.opened
  cases built.symm.trans again
  rw [Assembling.run_bind, ran]
  change ((finish operators (placed.2 + 1).toNat).run assembly).2.store.size ≤ 2 ^ 31
  rw [keeps operators _ assembly opened]
  exact few

theorem Assembles.compileWith_tables (assembles : Assembles schema traversal plan) (few : plan.size ≤ 2 ^ 31)
    (deployment : Deployment) : compileWith (PlanTables.accumulator hasCycle) (.empty schema) deployment traversal =
      (compileWith PlanGraph.accumulator (.empty schema) deployment traversal).seen tables := by
  refine seen_run tables_mirrors (assembles.fits few fun _ _ assembly opened => ?_) fun _ _ =>
    .bind (physicalBytes_mirrors tables_mirrors _ _) fun _ => .pure _
  rw [Assembling.run_bind, run_physicalBytes opened]
  by_cases empty : (assembly.store.bytes deployment.workers deployment.servers).isEmpty = true
  · rw [if_pos empty]
  · rw [if_neg empty]
    rfl

theorem Assembles.explainWith_tables (assembles : Assembles schema traversal plan) (few : plan.size ≤ 2 ^ 31) :
    explainWith (PlanTables.accumulator hasCycle) (.empty schema) traversal =
      (explainWith PlanGraph.accumulator (.empty schema) traversal).seen tables := by
  refine seen_run tables_mirrors (assembles.fits few fun _ _ assembly opened => ?_) fun _ _ => planText_mirrors tables_mirrors
  rw [run_planText opened]

/-- A traversal that compiles compiles to the same in tables. -/
theorem compile_tables {compiled : Compiled} (done : compile deployment schema traversal = .ok compiled) :
    (compileWith (PlanTables.accumulator hasCycle) (.empty schema) deployment traversal).answer = .ok compiled := by
  obtain ⟨plan, assembles, filled, _⟩ := assembles_of_compile done
  obtain ⟨physical, laid, _⟩ := encoded_of_bytes filled
  have few : plan.size ≤ 2 ^ 31 := Nat.le_of_lt (PhysicalPlan.layout_of_ok laid).1
  rw [assembles.compileWith_tables few]
  exact done

end Compiler

end TraversalPlanner
