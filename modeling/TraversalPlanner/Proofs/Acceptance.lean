import TraversalPlanner.Proofs.PlanLayout
import TraversalPlanner.Proofs.Stems

/-! Assembled plans that can be laid out are those of operators that begin once and whose sub-plans begin at
their roots. -/

namespace TraversalPlanner

open PlanGraph

namespace Planted

variable {plan after : PlanGraph} {parent : Int} {cargo : Cargo} {yield : Yield}

/-- A node of cargo is a union, or it asks for one input; if it is an apply, it names a node. -/
structure Fits (op : NodeOp Int) (inputs : List Int) : Prop where
  single : op.isUnion = false → ∃ input, inputs = [input]
  target : ∀ target, op.subRoot? = some target → 0 ≤ target

/-- What holds of the nodes that land at a time holds of all new nodes. -/
theorem each_new {holds : Nat → PlanNode → Prop} (planted : Planted plan parent cargo after yield)
    (landed : ∀ {plan after : PlanGraph} {op : NodeOp Int} {inputs : List Int} {own last : Nat},
      plan.Lands op inputs own last after → Fits op inputs →
        ∀ id node, after.nodes[id]? = some node → plan.size ≤ id → holds id node) :
    ∀ id node, after.nodes[id]? = some node → plan.size ≤ id → holds id node := by
  have both {plan middle after : PlanGraph} (grown : middle.Extends after)
      (older : ∀ id node, middle.nodes[id]? = some node → plan.size ≤ id → holds id node)
      (newer : ∀ id node, after.nodes[id]? = some node → middle.size ≤ id → holds id node) :
      ∀ id node, after.nodes[id]? = some node → plan.size ≤ id → holds id node := by
    intro id node found new
    by_cases old : id < middle.size
    · exact older id node (grown.node found old) new
    · exact newer id node found (Nat.le_of_not_lt old)
  have none {plan : PlanGraph} : ∀ id node, plan.nodes[id]? = some node → plan.size ≤ id → holds id node :=
    fun id node found new => absurd (List.getElem?_eq_some_iff.mp found).1 (Nat.not_lt.mpr new)
  induction planted with
  | bare _ apart _ lands =>
    refine landed lands ⟨fun _ => ⟨_, rfl⟩, fun target named => ?_⟩
    cases apart.symm.trans named
  | apply _ entered lands step =>
    refine both lands.extends step (landed lands ⟨fun _ => ⟨_, rfl⟩, fun target named => ?_⟩)
    cases named
    exact entered
  | union _ _ lands step => exact both lands.extends step (landed lands ⟨nofun, nofun⟩)
  | done => exact none
  | next _ later one others => exact both later.grows one others
  | unbranched => exact none
  | branch _ later one others => exact both later.grows one others

theorem target_cases (planted : Planted plan parent cargo after yield) (id : Nat) (node : PlanNode)
    (found : after.nodes[id]? = some node) (new : plan.size ≤ id) (target : Int)
    (named : node.op.subRoot? = some target) :
    ∃ root : Nat, target = root := by
  have each : ∀ id node, after.nodes[id]? = some node → plan.size ≤ id →
      ∀ target, node.op.subRoot? = some target → 0 ≤ target := by
    refine planted.each_new fun lands fits id node found new target named => ?_
    obtain ⟨_, _, _, _, each⟩ := lands.nodes
    rcases each id node found new with ⟨_, same, _⟩ | ⟨_, _, ⟨tag, bound⟩, _⟩
    · exact fits.target target (same ▸ named)
    · rw [bound] at named
      cases named
  exact Int.eq_ofNat_of_zero_le (each id node found new target named)

/-- Nodes come behind their parents, and only unions have several. -/
structure Tidy (id : Nat) (node : PlanNode) : Prop where
  behind : ∀ parent ∈ node.parents, parent < id
  single : node.op.isUnion = false → node.parents.length ≤ 1

theorem tidy (planted : Planted plan parent cargo after yield) :
    ∀ id node, after.nodes[id]? = some node → plan.size ≤ id → Tidy id node := by
  refine planted.each_new fun lands fits id node found new => ?_
  obtain ⟨parents, _, resolves, _, each⟩ := lands.nodes
  rcases each id node found new with ⟨place, op, given⟩ | ⟨_, behind, _, given⟩
  · refine ⟨fun parent member => ?_, fun single => ?_⟩
    · have inside := resolves.inside parent (given ▸ member)
      have own_eq := lands.own_eq
      omega
    · obtain ⟨input, asked⟩ := fits.single (op ▸ single)
      rw [given]
      rcases resolves.asked with ⟨none, _⟩ | same
      · simp [none]
      · have count := congrArg List.length (asked.symm.trans same)
        simp only [List.length_singleton, List.length_map] at count
        omega
  · refine ⟨fun parent member => ?_, fun _ => by simp [given]⟩
    rw [given, List.mem_singleton] at member
    omega

end Planted

variable {schema : Option Schema} {operators : List Operator} {plan : PlanGraph} {own last : Int} {root : Nat}

theorem rooted_of_accepted (planted : Planted (.empty schema) (-1) (.chain operators) plan (.ends own last))
    (accepted : plan.Accepted root) : Operator.RootedAll operators := by
  by_contra unrooted
  obtain ⟨apply, target, node, ⟨entry, found, named⟩, there, some⟩ := planted.spoiled unrooted
  obtain ⟨id, same, ⟨node', there', none⟩⟩ := accepted.targets apply entry target found named
  cases Int.ofNat.inj same
  cases there.symm.trans there'
  exact some none

private theorem eq_of_loose (accepted : plan.Accepted root) {id : Nat} (loose : plan.Loose 0 id) : id = root :=
  accepted.sole id loose.parentless fun apply => loose.unnamed apply (Nat.zero_le apply)

theorem single_of_accepted (planted : Planted (.empty schema) (-1) (.chain operators) plan (.ends own last))
    (accepted : plan.Accepted root) : Operator.entriesAll operators = 1 := by
  obtain ⟨ids, apart, count, loose⟩ := planted.loose (by decide)
  have number : ids.length = Operator.entriesAll operators := count
  have some : ids ≠ [] := by
    intro none
    have empty : operators = [] := Operator.entriesAll_eq_zero.mp (by rw [← number, none]; rfl)
    subst empty
    cases planted
    exact absurd accepted.parentless.lt_size (Nat.not_lt_zero root)
  have same : ids = [root] := by
    rw [PhysicalPlan.eq_singleton apart]
    intro id
    refine ⟨fun member => eq_of_loose accepted (loose id member), fun same => ?_⟩
    obtain ⟨other, member⟩ := List.exists_mem_of_ne_nil ids some
    have here := eq_of_loose accepted (loose other member)
    rw [same, ← here]
    exact member
  rw [same] at number
  exact number.symm

/-- The root that the operators are planted on is the one that no apply names. -/
theorem accepted_of_on (planted : Planted (.empty schema) (-1) (.chain operators) plan (.ends own last))
    (single : Operator.entriesAll operators = 1) (on : Planted.On (.empty schema) plan root (.ends own last)) :
    plan.Accepted root := by
  have sole : ∀ id, plan.Parentless id → (∀ apply, ¬ plan.Names apply id) → id = root := by
    intro id parentless unnamed
    rcases on.sprouts.stems id (Nat.zero_le id) parentless.lt_size with main | ⟨apply, target, names, sub⟩
    · exact main.eq_of_parentless parentless
    · have same := sub.eq_of_parentless parentless
      exact absurd (same ▸ names) (unnamed apply)
  obtain ⟨ids, _, count, loose⟩ := planted.loose (by decide)
  have number : ids.length = Operator.entriesAll operators := count
  obtain ⟨id, member⟩ := List.exists_mem_of_length_pos (show 0 < ids.length by omega)
  have free := loose id member
  have same := sole id free.parentless fun apply => free.unnamed apply (Nat.zero_le apply)
  subst same
  refine ⟨fun apply node target found named => ?_, free.parentless,
    fun apply => free.unnamed apply (Nat.zero_le apply), sole⟩
  obtain ⟨place, same⟩ := planted.target_cases apply node found (Nat.zero_le apply) target named
  exact ⟨place, same, on.sprouts.targets apply place (Nat.zero_le apply) ⟨node, found, same ▸ named⟩⟩

theorem accepted_iff (planted : Planted (.empty schema) (-1) (.chain operators) plan (.ends own last)) :
    (∃ root, plan.Accepted root) ↔ Operator.RootedAll operators ∧ Operator.entriesAll operators = 1 := by
  constructor
  · intro some
    obtain ⟨root, accepted⟩ := some
    exact ⟨rooted_of_accepted planted accepted, single_of_accepted planted accepted⟩
  · intro operators
    obtain ⟨rooted, single⟩ := operators
    obtain ⟨root, _, _, on⟩ := planted.on_root (by decide) rooted single
    exact ⟨root, accepted_of_on planted single on⟩

end TraversalPlanner
