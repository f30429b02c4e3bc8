import TraversalPlanner.Proofs.Blame
import TraversalPlanner.Proofs.Serialization

/-! What the nodes of a plan stand for. Appending operators appends a node for each of them, with those of its
sub-plan or branches before it and, where its kind cannot carry its alias, one for the alias behind it. -/

namespace TraversalPlanner

/-- What a node stands for: an operator, or the alias of the operator before it. -/
inductive Occupant where
  | operator (operator : Operator)
  | name (tag : Identifier)

/-- The node is one that the occupant may have become. -/
inductive Occupant.Becomes : Occupant → NodeOp Int → Prop
  | operator {given : Operator} {links : Links} {op : NodeOp Int} (lowered : given.toNode links = .ok op) :
      Becomes (.operator given) op
  | name (tag : Identifier) : Becomes (.name tag) (.bind tag)

namespace Operator

/-- The occupants that an operator brings besides those of the operators in it. -/
def own (operator : Operator) : List Occupant :=
  .operator operator :: operator.trailing.toList.map Occupant.name

mutual
/-- What the operators' nodes stand for, in the order in which they are appended. -/
def occupants : List Operator → List Occupant
  | [] => []
  | operator :: rest => occupantsOf operator ++ occupants rest
termination_by structural operators => operators

def occupantsOf : Operator → List Occupant
  | ⟨.apply (some sub) subRoot join, tag⟩ => occupants sub ++ own ⟨.apply (some sub) subRoot join, tag⟩
  | ⟨.union (some branches) parents, tag⟩ => occupantsOfBranches branches ++ own ⟨.union (some branches) parents, tag⟩
  | operator => own operator
termination_by structural operator => operator

def occupantsOfBranches : List (List Operator) → List Occupant
  | [] => []
  | branch :: rest => occupants branch ++ occupantsOfBranches rest
termination_by structural branches => branches
end

theorem occupantsOfBranches_eq (branches : List (List Operator)) :
    occupantsOfBranches branches = branches.flatMap occupants := by
  induction branches with
  | nil => rfl
  | cons branch rest step => rw [occupantsOfBranches, step, List.flatMap_cons]

theorem occupantsOf_eq (operator : Operator) :
    occupantsOf operator = operator.inner.flatMap occupants ++ own operator := by
  unfold inner
  split
  · rw [occupantsOf, List.flatMap_singleton]
  · rw [occupantsOf, occupantsOfBranches_eq]
  · next noApply noUnion => rw [occupantsOf.eq_3 operator noApply noUnion, List.flatMap_nil, List.nil_append]

section Among

variable {operator host : Operator}

theorem mem_own : .operator operator ∈ own host ↔ operator = host := by
  simp [own]

theorem among_iff {rest : List Operator} : operator.Among (host :: rest) ↔
    operator = host ∨ (∃ inner ∈ host.inner, operator.Among inner) ∨ operator.Among rest := by
  refine ⟨among_cases, fun cases => ?_⟩
  rcases cases with rfl | ⟨inner, nested, among⟩ | among
  · exact among_of_mem List.mem_cons_self
  · exact among_of_inner nested List.mem_cons_self among
  · exact among_cons among

private theorem mem_occupantsOf
    (nested : ∀ inner ∈ host.inner, .operator operator ∈ occupants inner ↔ operator.Among inner) :
    .operator operator ∈ occupantsOf host ↔ operator = host ∨ ∃ inner ∈ host.inner, operator.Among inner := by
  rw [occupantsOf_eq, List.mem_append, mem_own, List.mem_flatMap, or_comm]
  refine or_congr_right (exists_congr fun inner => ?_)
  exact and_congr_right (nested inner)

/-- The operators that nodes stand for are the operators at all depths. -/
theorem mem_occupants (operators : List Operator) :
    .operator operator ∈ occupants operators ↔ operator.Among operators := by
  refine (occupants.mutual_induct (fun operators => .operator operator ∈ occupants operators ↔ operator.Among operators)
    (fun host => .operator operator ∈ occupantsOf host ↔ operator = host ∨ ∃ inner ∈ host.inner, operator.Among inner)
    (fun branches => ∀ branch ∈ branches, .operator operator ∈ occupants branch ↔ operator.Among branch)
    ?_ ?_ ?_ ?_ ?_ ?_ ?_).1 operators
  · intro sub _ _ _ inner
    exact mem_occupantsOf (List.forall_mem_singleton.mpr inner)
  · intro branches _ _ inner
    exact mem_occupantsOf inner
  · intro host noApply noUnion
    refine mem_occupantsOf ?_
    rw [inner_of_bare ⟨noApply, noUnion⟩]
    exact List.forall_mem_nil _
  · exact iff_of_false List.not_mem_nil (not_among_nil operator)
  · intro host rest here later
    rw [occupants, List.mem_append, here, later, among_iff, or_assoc]
  · exact List.forall_mem_nil _
  · intro branch rest here later
    exact List.forall_mem_cons.mpr ⟨here, later⟩

end Among

end Operator

namespace PlanGraph

variable {plan middle after : PlanGraph} {first second : List Occupant}

/-- The plan has grown by a node for each occupant, in their order. -/
def Houses (plan after : PlanGraph) (occupants : List Occupant) : Prop :=
  ∃ nodes, after.nodes = plan.nodes ++ nodes ∧
    List.Forall₂ (fun occupant node => occupant.Becomes node.op) occupants nodes

theorem Houses.none (plan : PlanGraph) : plan.Houses plan [] := ⟨[], (List.append_nil _).symm, .nil⟩

theorem Houses.append (one : plan.Houses middle first) (two : middle.Houses after second) :
    plan.Houses after (first ++ second) := by
  obtain ⟨nodes, same, each⟩ := one
  obtain ⟨others, further, rest⟩ := two
  exact ⟨nodes ++ others, by rw [further, same, List.append_assoc], List.rel_append each rest⟩

theorem houses_grow {occupant : Occupant} {op : NodeOp Int} (becomes : occupant.Becomes op) (parents : List Nat)
    (visible : List Identifier) : plan.Houses (plan.grow op parents visible) [occupant] :=
  ⟨[_], rfl, .cons becomes .nil⟩

end PlanGraph

namespace Assembly

open Assembling

variable {parent scope : Int} {operator : Operator} {before : Assembly PlanGraph}

theorem placeLinked_houses {links : Links} : (placeLinked PlanGraph.accumulator parent scope operator links).Ends before
    (fun _ after => before.store.Houses after.store operator.own) fun _ _ => True := by
  refine placeLinked_ends_of_checks (fun _ _ => trivial) (fun _ _ _ _ => trivial) fun op own plan lowered entered => ?_
  have appends : before.store.Appends op _ _ := PlanGraph.enter_appends (op.inputs parent) scope
  rw [entered] at appends
  cases appends with
  | @grown parents visible _ _ _ _ =>
    have here : before.store.Houses (before.store.grow op parents visible) [.operator operator] :=
      PlanGraph.houses_grow (.operator lowered) parents visible
    unfold Operator.own
    cases operator.trailing with
    | none => exact here
    | some tag => exact here.append (PlanGraph.houses_grow (.name tag) _ _)

private def HousesOperator (parent scope : Int) (operator : Operator) : Prop :=
  ∀ {before : Assembly PlanGraph}, (place PlanGraph.accumulator parent scope operator).Ends before
    (fun _ after => before.store.Houses after.store (Operator.occupantsOf operator)) fun _ _ => True

private def HousesBranches (parent scope : Int) (branches : List (List Operator)) : Prop :=
  ∀ {before : Assembly PlanGraph}, (placeBranches PlanGraph.accumulator parent scope branches).Ends before
    (fun _ after => before.store.Houses after.store (Operator.occupantsOfBranches branches)) fun _ _ => True

private def HousesChain (first : Option Int) (parent scope : Int) (operators : List Operator) : Prop :=
  ∀ {before : Assembly PlanGraph}, (placeFrom PlanGraph.accumulator first parent scope operators).Ends before
    (fun _ after => before.store.Houses after.store (Operator.occupants operators)) fun _ _ => True

private theorem houses : (∀ parent scope operator, HousesOperator parent scope operator) ∧
    (∀ parent scope branches, HousesBranches parent scope branches) ∧
    ∀ first parent scope operators, HousesChain first parent scope operators := by
  refine place.mutual_induct HousesOperator HousesBranches HousesChain ?_ ?_ ?_ ?_ ?_ ?_ ?_
  · intro _ _ _ _ _ _ inner before
    refine place_apply_ends_of_checks (fun _ => trivial) (fun _ _ => trivial) inner fun _ middle held => ?_
    exact placeLinked_houses.weaken (fun _ _ here => held.append here) fun _ _ _ => trivial
  · intro _ _ _ _ _ inner before
    refine place_union_ends_of_checks (fun _ => trivial) (fun _ _ => trivial) inner fun _ middle held => ?_
    exact placeLinked_houses.weaken (fun _ _ here => held.append here) fun _ _ _ => trivial
  · intro _ _ operator noApply noUnion before
    refine place_bare_ends_of_checks ⟨noApply, noUnion⟩ (fun _ => trivial) (fun _ _ => trivial) fun _ => ?_
    rw [Operator.occupantsOf.eq_3 operator noApply noUnion]
    exact placeLinked_houses
  · intro _ _ _ before
    exact .pure (.none before.store)
  · intro _ _ _ _ _ here later before
    refine placeFrom_cons_ends here fun own last middle held => ?_
    exact (later own last).weaken (fun _ _ further => held.append further) fun _ _ _ => trivial
  · intro _ _ before
    exact .pure (.none before.store)
  · intro _ _ _ _ here later before
    refine placeBranches_cons_ends here fun _ _ middle held => ?_
    exact later.weaken (fun _ _ further => held.append further) fun _ _ _ => trivial

theorem place_houses : (place PlanGraph.accumulator parent scope operator).Ends before
    (fun _ after => before.store.Houses after.store (Operator.occupantsOf operator)) fun _ _ => True :=
  houses.1 parent scope operator

theorem placeFrom_houses {first : Option Int} {operators : List Operator} :
    (placeFrom PlanGraph.accumulator first parent scope operators).Ends before
      (fun _ after => before.store.Houses after.store (Operator.occupants operators)) fun _ _ => True :=
  houses.2.2 first parent scope operators

theorem placeBranches_houses {branches : List (List Operator)} :
    (placeBranches PlanGraph.accumulator parent scope branches).Ends before
      (fun _ after => before.store.Houses after.store (Operator.occupantsOfBranches branches)) fun _ _ => True :=
  houses.2.1 parent scope branches

/-- An operator's own node is put in behind those of the operators in it. -/
theorem place_ends_behind {answers : Int × Int → Assembly PlanGraph → Prop}
    (linked : ∀ links middle, before.store.Houses middle.store (operator.inner.flatMap Operator.occupants) →
      (placeLinked PlanGraph.accumulator parent scope operator links).Ends middle answers fun _ _ => True) :
    (place PlanGraph.accumulator parent scope operator).Ends before answers fun _ _ => True := by
  rcases operator.bare_or_branching with bare | ⟨sub, subRoot, join, tag, rfl⟩ | ⟨branches, parents, tag, rfl⟩
  · refine place_bare_ends_of_checks bare (fun _ => trivial) (fun _ _ => trivial) fun _ => linked _ before ?_
    rw [Operator.inner_of_bare bare]
    exact .none before.store
  · refine place_apply_ends_of_checks (fun _ => trivial) (fun _ _ => trivial) placeFrom_houses fun _ middle houses => ?_
    refine linked _ middle ?_
    rw [Operator.inner, List.flatMap_singleton]
    exact houses
  · refine place_union_ends_of_checks (fun _ => trivial) (fun _ _ => trivial) placeBranches_houses fun _ middle houses => ?_
    refine linked _ middle ?_
    rw [Operator.inner, ← Operator.occupantsOfBranches_eq]
    exact houses

theorem appendAll_houses {operators : List Operator} {placed : Int × Int} {after : Assembly PlanGraph}
    (assembled : (appendAll PlanGraph.accumulator parent operators).run before = (.ok placed, after)) :
    before.store.Houses after.store (Operator.occupants operators) := by
  have ends : (appendAll PlanGraph.accumulator parent operators).Ends before _ _ := placeFrom_houses
  exact ends.answer assembled

end Assembly

namespace Compiler

/-- The nodes of the plan are those of the traversal's operators. -/
theorem Assembles.houses {schema : Option Schema} {traversal : Traversal} {plan : PlanGraph}
    (assembles : Assembles schema traversal plan) : ∃ operators, traversal.build = .ok operators ∧
      List.Forall₂ (fun occupant node => occupant.Becomes node.op) (Operator.occupants operators) plan.nodes := by
  obtain ⟨operators, placed, assembly, built, ran, same⟩ := assembles
  obtain ⟨nodes, grown, each⟩ := Assembly.appendAll_houses ran
  refine ⟨operators, built, ?_⟩
  rw [← same, grown]
  exact each

end Compiler

end TraversalPlanner
