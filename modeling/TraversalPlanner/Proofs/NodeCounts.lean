import TraversalPlanner.Proofs.Occupants
import TraversalPlanner.Proofs.UnionParents

/-! How many nodes operators take. The number is seen from the operators alone: one for each of them at any depth,
and one more for an alias that its kind cannot carry. Whatever is closed by a node is numbered before it, so the last
node is the newest, and a compilation that counts up to the last node has counted them all. -/

namespace TraversalPlanner

namespace Operator

/-- The nodes that it takes besides those of the operators in it. -/
def ownCount (operator : Operator) : Nat := if operator.tag.isSome ∧ ¬ operator.kind.carriesAlias then 2 else 1

mutual
def nodeCount : Operator → Nat
  | ⟨.apply (some sub) subRoot join, tag⟩ => nodeCountAll sub + ownCount ⟨.apply (some sub) subRoot join, tag⟩
  | ⟨.union (some branches) parents, tag⟩ => nodeCountEach branches + ownCount ⟨.union (some branches) parents, tag⟩
  | operator => ownCount operator
termination_by structural operator => operator

def nodeCountAll : List Operator → Nat
  | [] => 0
  | operator :: rest => nodeCount operator + nodeCountAll rest
termination_by structural operators => operators

def nodeCountEach : List (List Operator) → Nat
  | [] => 0
  | branch :: rest => nodeCountAll branch + nodeCountEach rest
termination_by structural branches => branches
end

/-- The nodes of the operators in it. -/
def innerCount (operator : Operator) : Nat := nodeCountEach operator.inner

theorem nodeCount_eq (operator : Operator) : nodeCount operator = innerCount operator + ownCount operator := by
  rcases operator.bare_or_branching with bare | ⟨sub, subRoot, join, tag, rfl⟩ | ⟨branches, parents, tag, rfl⟩
  · rw [nodeCount.eq_3 operator bare.1 bare.2, innerCount, inner_of_bare bare]
    exact (Nat.zero_add _).symm
  · rw [nodeCount, innerCount, inner, nodeCountEach, nodeCountEach, Nat.add_zero]
  · rw [nodeCount, innerCount, inner]

theorem nodeCountEach_append (front back : List (List Operator)) :
    nodeCountEach (front ++ back) = nodeCountEach front + nodeCountEach back := by
  induction front with
  | nil => exact (Nat.zero_add _).symm
  | cons branch rest step => rw [List.cons_append, nodeCountEach, step, nodeCountEach, Nat.add_assoc]

theorem ownCount_pos (operator : Operator) : 1 ≤ ownCount operator := by
  unfold ownCount
  split <;> omega

/-- An alias that takes a node is one that its kind cannot carry. -/
theorem ownCount_eq (operator : Operator) : ownCount operator = 1 + operator.trailing.toList.length := by
  unfold ownCount trailing
  cases operator.tag <;> cases operator.kind.carriesAlias <;> rfl

theorem length_own (operator : Operator) : operator.own.length = ownCount operator := by
  rw [own, List.length_cons, List.length_map, ownCount_eq, Nat.add_comm]

private theorem lengths_occupants : (∀ operators, (occupants operators).length = nodeCountAll operators) ∧
    (∀ operator, (occupantsOf operator).length = nodeCount operator) ∧
    ∀ branches, (occupantsOfBranches branches).length = nodeCountEach branches := by
  refine occupants.mutual_induct (fun operators => (occupants operators).length = nodeCountAll operators)
    (fun operator => (occupantsOf operator).length = nodeCount operator)
    (fun branches => (occupantsOfBranches branches).length = nodeCountEach branches) ?_ ?_ ?_ ?_ ?_ ?_ ?_
  · intro sub subRoot join tag step
    rw [occupantsOf, List.length_append, step, length_own, nodeCount]
  · intro branches parents tag step
    rw [occupantsOf, List.length_append, step, length_own, nodeCount]
  · intro operator noApply noUnion
    rw [occupantsOf.eq_3 operator noApply noUnion, length_own, nodeCount.eq_3 operator noApply noUnion]
  · rfl
  · intro operator rest here later
    rw [occupants, List.length_append, here, later, nodeCountAll]
  · rfl
  · intro branch rest here later
    rw [occupantsOfBranches, List.length_append, here, later, nodeCountEach]

/-- There is a node for each occupant. -/
theorem length_occupants (operators : List Operator) : (occupants operators).length = nodeCountAll operators :=
  lengths_occupants.1 operators

theorem length_flatMap_occupants (branches : List (List Operator)) :
    (branches.flatMap occupants).length = nodeCountEach branches := by
  rw [← occupantsOfBranches_eq, lengths_occupants.2.2]

end Operator

namespace PlanGraph

variable {plan after : PlanGraph}

theorem Houses.size {occupants : List Occupant} (houses : plan.Houses after occupants) :
    after.size = plan.size + occupants.length := by
  obtain ⟨nodes, grown, each⟩ := houses
  rw [each.length_eq, PlanGraph.size, grown, List.length_append]
  rfl

theorem Houses.size_le {occupants : List Occupant} (houses : plan.Houses after occupants) : plan.size ≤ after.size := by
  rw [houses.size]
  exact Nat.le_add_right _ _

/-- The ids that nodes have. -/
theorem isSome_node? (id : Int) : (plan.node? id).isSome ↔ 0 ≤ id ∧ id < plan.size := by
  unfold node? size
  split
  · next negative => simp only [Option.isSome_none, Bool.false_eq_true, false_iff]; omega
  · next positive =>
    rw [isSome_getElem?]
    omega

theorem bindBehind_size {own : Nat} (newest : plan.size = own + 1) (trailing : Option Identifier) :
    (plan.bindBehind own trailing).2.size = (plan.bindBehind own trailing).1 + 1 := by
  cases trailing with
  | none => exact newest
  | some tag => exact size_grow _ _

/-- A plan once it has taken operators: there is a node more for each that they take, the new ids begin where the old
ones end, and the last node that the operators are given is the newest of all. -/
structure Adds (plan after : PlanGraph) (operators : List Operator) (last : Int) : Prop where
  size : after.size = plan.size + Operator.nodeCountAll operators
  fresh : ∀ id : Int, (after.node? id).isSome ∧ plan.node? id = none ↔
    plan.size ≤ id ∧ id < plan.size + Operator.nodeCountAll operators
  newest : operators ≠ [] → last = plan.size + Operator.nodeCountAll operators - 1

theorem adds_of_size {operators : List Operator} {last : Int}
    (size : after.size = plan.size + Operator.nodeCountAll operators)
    (newest : operators ≠ [] → (after.size : Int) = last + 1) : plan.Adds after operators last where
  size := size
  fresh := by
    intro id
    rw [← Option.not_isSome_iff_eq_none, isSome_node?, isSome_node?]
    omega
  newest := by
    intro some
    have ends := newest some
    omega

end PlanGraph

namespace Assembly

open Assembling

variable {parent scope : Int} {operator : Operator} {before : Assembly PlanGraph}

theorem placeLinked_newest {links : Links} : (placeLinked PlanGraph.accumulator parent scope operator links).Ends before
    (fun placed after => (after.store.size : Int) = placed.2 + 1) fun _ _ => True := by
  refine placeLinked_ends_of_checks (fun _ _ => trivial) (fun _ _ _ _ => trivial) fun op own plan _ entered => ?_
  obtain ⟨rfl, parents, visible, rfl⟩ := PlanGraph.grown_of_enter entered
  exact congrArg Nat.cast (PlanGraph.bindBehind_size (PlanGraph.size_grow parents visible) operator.trailing)

theorem place_newest : (place PlanGraph.accumulator parent scope operator).Ends before
    (fun placed after => (after.store.size : Int) = placed.2 + 1) fun _ _ => True :=
  place_ends_behind fun _ _ _ => placeLinked_newest

/-- The last node of a chain is the newest one, once there is one. -/
theorem placeFrom_newest {first : Option Int} {operators : List Operator} :
    (placeFrom PlanGraph.accumulator first parent scope operators).Ends before
      (fun placed after => operators = [] ∧ placed.2 = parent ∨ (after.store.size : Int) = placed.2 + 1) fun _ _ => True := by
  induction operators generalizing first parent before with
  | nil => exact .pure (.inl ⟨rfl, rfl⟩)
  | cons operator rest later =>
    refine placeFrom_cons_ends place_newest fun own last middle newest => ?_
    -- What the rest adds is not known here, so that it adds nothing has to be told from its being empty.
    cases rest with
    | nil => exact .pure (.inr newest)
    | cons next others =>
      refine later.weaken (fun placed after ended => ?_) fun _ _ _ => trivial
      rcases ended with ⟨none, _⟩ | ended
      · cases none
      · exact .inr ended

theorem appendAll_newest {operators : List Operator} {placed : Int × Int} {after : Assembly PlanGraph}
    (appended : (appendAll PlanGraph.accumulator parent operators).run before = (.ok placed, after)) :
    operators = [] ∧ placed.2 = parent ∨ (after.store.size : Int) = placed.2 + 1 := by
  have ends : (appendAll PlanGraph.accumulator parent operators).Ends before _ _ := placeFrom_newest
  exact ends.answer appended

theorem appendAll_adds {operators : List Operator} {placed : Int × Int} {after : Assembly PlanGraph}
    (appended : (appendAll PlanGraph.accumulator parent operators).run before = (.ok placed, after)) :
    before.store.Adds after.store operators placed.2 := by
  refine PlanGraph.adds_of_size ?_ fun some => ?_
  · rw [(appendAll_houses appended).size, Operator.length_occupants]
  · rcases appendAll_newest appended with ⟨none, _⟩ | newest
    · exact absurd none some
    · exact newest

end Assembly

namespace Compiler

open Assembling Proofs

variable {deployment : Deployment} {schema : Option Schema} {traversal : Traversal} {compiled : Compiled}

/-- The phases that a compilation reports, with the numbers that it has for them. -/
theorem reports_of_compile {operators : List Operator} {placed : Int × Int} {assembly : Assembly PlanGraph}
    (built : traversal.build = .ok operators)
    (ran : (Assembly.appendAll PlanGraph.accumulator (-1) operators).run (Assembly.start (.empty schema)) =
      (.ok placed, assembly)) (done : compile deployment schema traversal = .ok compiled) :
    compiled.reports.map (fun report => (report.phase, report.operatorCount)) =
      [(.buildOperators, operators.length), (.assemblePlan, (placed.2 + 1).toNat),
        (.serializePhysical, (placed.2 + 1).toNat)] := by
  have plants := Assembly.appendAll_plants (Traversal.faithful traversal operators built).unlinked ran
  have opened : assembly.state ≠ .closed := plants.opened (by simp [Assembly.start])
  unfold compile compileWith run at done
  rw [built] at done
  simp only [run_bind, ran, Assembly.run_physicalBytes opened] at done
  by_cases empty : (assembly.store.bytes deployment.workers deployment.servers).isEmpty = true
  · rw [if_pos empty] at done
    cases done
  · rw [if_neg empty] at done
    cases done
    rfl

theorem size_of_assembled {operators : List Operator} {placed : Int × Int} {assembly : Assembly PlanGraph}
    (ran : (Assembly.appendAll PlanGraph.accumulator (-1) operators).run (Assembly.start (.empty schema)) =
      (.ok placed, assembly)) : assembly.store.size = (placed.2 + 1).toNat := by
  rcases Assembly.appendAll_newest ran with ⟨rfl, last⟩ | newest
  · cases ran
    rfl
  · omega

/-- Operators that enter a plan add the nodes that they take, whatever the plan and the parent are. So what a compilation
reports for the phases behind the building of operators is the number of nodes that are read back from the bytes. -/
theorem nodes_counted :
    (∀ (before after : Assembly PlanGraph) (parent : Int) (operators : List Operator) (placed : Int × Int),
      (Assembly.appendAll PlanGraph.accumulator parent operators).run before = (.ok placed, after) →
        before.store.Adds after.store operators placed.2) ∧
    ∀ (deployment : Deployment) (schema : Option Schema) (traversal : Traversal) (compiled : Compiled),
      compile deployment schema traversal = .ok compiled →
        ∃ plan, PhysicalPlan.decode compiled.bytes = .ok plan ∧
          compiled.reports.map PhaseReport.phase = [.buildOperators, .assemblePlan, .serializePhysical] ∧
          ∀ report ∈ compiled.reports, report.phase ≠ .buildOperators → report.operatorCount = plan.nodes.length := by
  refine ⟨fun _ _ _ _ _ => Assembly.appendAll_adds, fun deployment schema traversal compiled done => ?_⟩
  obtain ⟨_, root, subRoots, ⟨operators, placed, assembly, built, ran, rfl⟩, decoded, _⟩ := decoded_of_compile done
  have laidOut : (PhysicalPlan.layOut assembly.store deployment.workers deployment.servers root subRoots).nodes.length =
      (placed.2 + 1).toNat := by
    rw [← size_of_assembled ran, PhysicalPlan.layOut, List.length_map, List.length_zipIdx]
    rfl
  have reports := reports_of_compile built ran done
  refine ⟨_, decoded, ?_, fun report member later => ?_⟩
  · have phases := congrArg (List.map Prod.fst) reports
    rwa [List.map_map] at phases
  · have listed := List.mem_map_of_mem (f := fun report => (report.phase, report.operatorCount)) member
    rw [reports] at listed
    simp only [List.mem_cons, List.not_mem_nil, or_false, Prod.mk.injEq] at listed
    rcases listed with ⟨same, _⟩ | ⟨_, count⟩ | ⟨_, count⟩
    · exact absurd same later
    · rw [count, laidOut]
    · rw [count, laidOut]

/-- A few of the neighbours of the vertices that have an outgoing edge, under a name that is bound behind them. -/
def fewNeighbours : Traversal := (neighbours.add (.limit 3)).named "few"

theorem fewNeighbours_counted : ∃ operators placed assembly, fewNeighbours.build = .ok operators ∧
    (Assembly.appendAll PlanGraph.accumulator (-1) operators).run (Assembly.start (.empty none)) = (.ok placed, assembly) ∧
    Operator.nodeCountAll operators = 8 ∧ PlanGraph.Adds (.empty none) assembly.store operators placed.2 ∧
    ∃ compiled plan, compile .standalone none fewNeighbours = .ok compiled ∧
      PhysicalPlan.decode compiled.bytes = .ok plan ∧
      ∀ report ∈ compiled.reports, report.phase ≠ .buildOperators → report.operatorCount = plan.nodes.length := by
  obtain ⟨adds, counts⟩ := nodes_counted
  have passes : (compile .standalone none fewNeighbours).isOk = true := by decide +kernel
  obtain ⟨compiled, done⟩ := ok_of_isOk passes
  obtain ⟨_, ⟨operators, placed, assembly, built, ran, _⟩, _, _⟩ := assembles_of_compile done
  have count : (fewNeighbours.build.map Operator.nodeCountAll).toOption = some 8 := by decide +kernel
  rw [built] at count
  obtain ⟨plan, decoded, _, each⟩ := counts .standalone none fewNeighbours compiled done
  exact ⟨operators, placed, assembly, built, ran, Option.some.inj count, adds _ _ _ _ _ ran,
    compiled, plan, done, decoded, each⟩

end Compiler

end TraversalPlanner
