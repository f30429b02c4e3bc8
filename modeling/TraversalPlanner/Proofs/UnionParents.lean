import TraversalPlanner.Proofs.HeadPositions
import TraversalPlanner.Proofs.PlanShape

/-! The nodes that unions list as their parents. Such a list is kept twice, in the union itself and in the children
of the nodes that it names. They agree, and the list names only nodes that are there, unless the union has an
empty branch and nothing comes before it. Then it becomes a root, and `-1` is all that it lists. -/

namespace TraversalPlanner

open Proofs

namespace PlanGraph

variable {plan : PlanGraph}

/-- The list of a union has an entry for each of its parents, or the union has none and lists none. -/
inductive Joined (operators : List Operator) (inputs : List Int) : List Nat → Prop
  | known (parents : List Nat) (same : inputs = parents.map fun id : Nat => (id : Int)) : Joined operators inputs parents
  | root (unknown : ∀ input ∈ inputs, input = -1) (gap : Operator.HeadGap operators) : Joined operators inputs []

/-- A child stands in the list of a parent as often as the parent stands in its own. -/
theorem count_children {node : PlanNode} {child : Nat} (found : plan.nodes[child]? = some node) (parent : Nat) :
    (plan.children parent).count child = node.parents.count parent := by
  have each : ∀ (nodes : List PlanNode) (start : Nat), ((nodes.zipIdx start).flatMap fun entry =>
      List.replicate (entry.1.parents.countP fun other : Nat => (other : Int) = parent) entry.2).count child =
        if start ≤ child then ((nodes[child - start]?.map PlanNode.parents).getD []).count parent else 0 := by
    intro nodes
    induction nodes with
    | nil => simp
    | cons first rest step =>
      intro start
      rw [List.zipIdx_cons, List.flatMap_cons, List.count_append, step, List.count_replicate]
      have listed : first.parents.countP (fun other : Nat => (other : Int) = parent) = first.parents.count parent :=
        List.countP_congr fun other _ => by simp only [decide_eq_true_eq, Int.natCast_inj, beq_iff_eq]
      by_cases here : start = child
      · subst here
        simp only [listed, beq_self_eq_true, if_true, Nat.le_refl, Nat.sub_self, List.getElem?_cons_zero]
        rw [if_neg (by omega), Nat.add_zero]
        rfl
      · by_cases later : start ≤ child
        · have behind : child - start = child - (start + 1) + 1 := by omega
          simp only [beq_iff_eq, here, if_false, later, if_true, behind, List.getElem?_cons_succ]
          rw [if_pos (by omega), Nat.zero_add]
        · simp only [beq_iff_eq, here, later, if_false]
          rw [if_neg (by omega)]
  have all := each plan.nodes 0
  rw [if_pos (Nat.zero_le child), Nat.sub_zero, found] at all
  exact all

end PlanGraph

namespace Planted

open PlanGraph

variable {plan after : PlanGraph} {parent : Int} {cargo : Cargo} {yield : Yield} {operators : List Operator}

theorem joined_of_union {branches : List (List Operator)} {parents : Option (List Int32)} {tag : Option Alias}
    {middle : PlanGraph} {lasts : List Int} {found : List Nat} (knows : plan.Knows parent)
    (under : Cargo.Under operators parent (.operator ⟨.union (some branches) parents, tag⟩))
    (inner : Planted plan parent (.branches branches) middle (.lasts lasts)) (joined : lasts ≠ [])
    (resolves : middle.Resolves lasts found) : Joined operators lasts found := by
  rcases resolves.asked with ⟨none, root⟩ | same
  · -- No input is there: the plan is still empty, or there is just one input, and it is `-1`.
    have unknown : ∀ input ∈ lasts, input = -1 := by
      intro input member
      rcases root with empty | detached
      · have size : middle.size = 0 := congrArg List.length empty
        have grown := inner.grows.size_le
        have inside : List.Forall₂ _ branches lasts := inner.inside
        obtain ⟨_, _, cases⟩ := related_left inside member
        rcases cases with ⟨_, same⟩ | ⟨_, _, _⟩
        · rcases knows with detached | ⟨_, _, _⟩
          · exact same.trans detached
          · omega
        · omega
      · rw [detached] at member
        exact List.mem_singleton.mp member
    obtain ⟨input, member⟩ := List.exists_mem_of_ne_nil lasts joined
    have detached := unknown input member
    obtain ⟨empty, same⟩ := inner.empty_of_negative member (by omega)
    have parent_eq : parent = -1 := same.symm.trans detached
    subst none parent_eq
    exact .root unknown (under.gap empty)
  · exact .known found same

/-- What becomes of the lists of the new unions. -/
theorem unions (planted : Planted plan parent cargo after yield) (knows : plan.Knows parent)
    (under : cargo.Under operators parent) (id : Nat) (node : PlanNode) (inputs : List Int)
    (found : after.nodes[id]? = some node) (new : plan.size ≤ id) (union : node.op = .union inputs) :
    inputs ≠ [] ∧ Joined operators inputs node.parents := by
  have none {plan : PlanGraph} (found : plan.nodes[id]? = some node) : id < plan.size := (List.getElem?_eq_some_iff.mp found).1
  induction planted with
  | bare _ _ single lands =>
    obtain ⟨_, _, _, _, each⟩ := lands.nodes
    rcases each id node found new with ⟨_, same, _⟩ | ⟨_, _, ⟨_, bound⟩, _⟩
    · rw [← same, union] at single
      cases single
    · cases union.symm.trans bound
  | @apply plan middle after parent _ _ _ _ _ _ _ _ _ inner _ lands step =>
    by_cases old : id < middle.size
    · exact step (.inl rfl) under.toSub (lands.extends.node found old) new
    · obtain ⟨_, _, _, _, each⟩ := lands.nodes
      rcases each id node found (Nat.le_of_not_lt old) with ⟨_, same, _⟩ | ⟨_, _, ⟨_, bound⟩, _⟩
      · cases union.symm.trans same
      · cases union.symm.trans bound
  | @union plan middle after parent _ _ _ _ _ _ inner joined lands step =>
    by_cases old : id < middle.size
    · exact step knows under.toBranches (lands.extends.node found old) new
    · obtain ⟨_, _, resolves, _, each⟩ := lands.nodes
      rcases each id node found (Nat.le_of_not_lt old) with ⟨_, same, given⟩ | ⟨_, _, ⟨_, bound⟩, _⟩
      · cases union.symm.trans same
        rw [given]
        exact ⟨joined, joined_of_union knows under inner joined resolves⟩
      · cases union.symm.trans bound
  | done => exact absurd (none found) (Nat.not_lt.mpr new)
  | @next plan middle after parent own link _ _ _ _ here later first rest =>
    by_cases old : id < middle.size
    · exact first knows under.toFirst (later.grows.node found old) new
    · obtain ⟨_, _, _⟩ := here.inside
      exact rest (knows_of_inside (by omega) (by omega)) (under.toRest (by omega)) found (Nat.le_of_not_lt old)
  | unbranched => exact absurd (none found) (Nat.not_lt.mpr new)
  | @branch plan middle after _ _ _ _ _ _ here later first rest =>
    by_cases old : id < middle.size
    · exact first knows under.toBranch (later.grows.node found old) new
    · exact rest (knows.mono here.grows.size_le) under.toOthers found (Nat.le_of_not_lt old)

/-- A union with an empty branch that nothing comes before lists `-1`. -/
theorem exists_root_union (planted : Planted plan (-1) (.chain operators) after yield) (gap : Operator.HeadGap operators) :
    ∃ (id : Nat) (node : PlanNode) (inputs : List Int),
      after.nodes[id]? = some node ∧ node.op = .union inputs ∧ -1 ∈ inputs := by
  obtain ⟨branches, parents, tag, head, empty⟩ := gap
  obtain ⟨before, grown, placed, single, further⟩ := planted.exists_of_atHead head
  cases single with
  | bare bare => exact absurd rfl (bare.2 branches parents tag)
  | @union _ middle _ _ _ _ _ lasts own _ inner _ lands =>
    have inside : List.Forall₂ _ branches lasts := inner.inside
    obtain ⟨last, member, cases⟩ := related_right inside empty
    obtain ⟨_, _, _, found, _⟩ := lands.nodes
    refine ⟨own, _, lasts, further _ _ found, rfl, ?_⟩
    rcases cases with ⟨_, same⟩ | ⟨some, _⟩
    · exact same ▸ member
    · exact absurd rfl some

end Planted

namespace PhysicalPlan

/-- What the list of a union tells of the plan. -/
structure Joins (plan : PhysicalPlan) (union : PhysicalNode) (inputs : List Int32) : Prop where
  some : inputs ≠ []
  known : (∀ input ∈ inputs, input = -1) ∨ ∀ input ∈ inputs, input < union.id ∧ ∃ node ∈ plan.nodes, node.id = input
  /-- Each node has the union among its children as often as the union lists the node. -/
  counted : ∀ node ∈ plan.nodes, node.children.count union.id = inputs.count node.id

theorem count_ofNat {ids : List Nat} {id : Nat} (inside : id < 2 ^ 31) (within : ∀ other ∈ ids, other < 2 ^ 31) :
    (ids.map Int32.ofNat).count (Int32.ofNat id) = ids.count id := by
  rw [List.count, List.countP_map]
  refine List.countP_congr fun other member => ?_
  simp only [Function.comp, beq_iff_eq]
  exact ofNat_inj (within other member) inside

theorem union_of_map {op : NodeOp Int} {inputs : List Int32} (union : op.map Int32.ofInt = .union inputs) :
    ∃ given, op = .union given ∧ inputs = given.map Int32.ofInt := by
  cases op with
  | union given => exact ⟨given, rfl, (NodeOp.union.inj union).symm⟩
  | _ => cases union

theorem ofNat_ne_negative {id : Nat} (inside : id < 2 ^ 31) : Int32.ofNat id ≠ -1 := by
  intro same
  have equal := congrArg Int32.toInt same
  rw [Int32.toInt_ofNat_of_lt inside] at equal
  have negative : (-1 : Int32).toInt = -1 := rfl
  omega

section LaidOut

variable {plan : PlanGraph} {workers servers : UInt32} {root : Nat} {subRoots : List Nat} {operators : List Operator}
  {inputs : List Int} {id : Nat} {node : PlanNode} (small : plan.size < 2 ^ 31) (found : plan.nodes[id]? = some node)
  (behind : ∀ parent ∈ node.parents, parent < id)

include small found in
theorem count_layOut {other : PhysicalNode} (member : other ∈ (layOut plan workers servers root subRoots).nodes) :
    ∃ place, place < plan.size ∧ other.id = Int32.ofNat place ∧
      other.children.count (Int32.ofNat id) = node.parents.count place := by
  obtain ⟨place, there⟩ := List.mem_iff_getElem?.mp member
  rw [getElem?_layOut] at there
  obtain ⟨source, known, same⟩ := Option.map_eq_some_iff.mp there
  have inside : id < plan.size := (List.getElem?_eq_some_iff.mp found).1
  have within : ∀ child ∈ plan.children place, child < 2 ^ 31 := fun child listed =>
    Nat.lt_trans (PlanGraph.Forest.child_lt_size (PlanGraph.mem_children.mp listed)) small
  subst same
  refine ⟨place, (List.getElem?_eq_some_iff.mp known).1, rfl, ?_⟩
  rw [← PlanGraph.count_children found place]
  exact count_ofNat (Nat.lt_trans inside small) within

include small found behind in
theorem joins_of_joined {entry : PhysicalNode} (numbered : entry.id = Int32.ofNat id) (some : inputs ≠ [])
    (joined : PlanGraph.Joined operators inputs node.parents) :
    (layOut plan workers servers root subRoots).Joins entry (inputs.map Int32.ofInt) where
  some := by simpa using some
  known := by
    generalize given : node.parents = parents at joined
    cases joined with
    | known _ same =>
      subst same
      refine .inr fun input member => ?_
      obtain ⟨_, named, same⟩ := List.mem_map.mp member
      obtain ⟨parent, listed, rfl⟩ := List.mem_map.mp named
      have inside : id < plan.size := (List.getElem?_eq_some_iff.mp found).1
      have before := behind parent (given ▸ listed)
      rw [← same, Int32.ofInt_eq_ofNat, numbered, ofNat_lt (by omega) (by omega)]
      have there : plan.nodes[parent]? = _ := List.getElem?_eq_getElem (Nat.lt_trans before inside)
      exact ⟨before, _, List.mem_of_getElem? (by rw [getElem?_layOut, there]; rfl), rfl⟩
    | root unknown =>
      refine .inl fun input member => ?_
      obtain ⟨given, listed, same⟩ := List.mem_map.mp member
      rw [← same, unknown given listed]
      rfl
  counted := by
    intro other member
    obtain ⟨place, inside, same, counted⟩ := count_layOut small found member
    rw [numbered, counted, same]
    have within : ∀ parent ∈ node.parents, parent < 2 ^ 31 := by
      intro parent listed
      have before := behind parent listed
      have inside : id < plan.size := (List.getElem?_eq_some_iff.mp found).1
      omega
    generalize node.parents = parents at joined within
    cases joined with
    | known _ same =>
      have words : inputs.map Int32.ofInt = parents.map Int32.ofNat := by
        rw [same, List.map_map]
        exact List.map_congr_left fun parent _ => Int32.ofInt_eq_ofNat
      rw [words, count_ofNat (by omega) within]
    | root unknown =>
      refine (List.count_eq_zero.mpr fun listed => ?_).symm
      obtain ⟨given, listed, same⟩ := List.mem_map.mp listed
      rw [unknown given listed] at same
      exact ofNat_ne_negative (by omega) same.symm

include small found behind in
theorem gap_of_listed (joined : PlanGraph.Joined operators inputs node.parents) (listed : -1 ∈ inputs.map Int32.ofInt) :
    Operator.HeadGap operators := by
  generalize given : node.parents = parents at joined
  cases joined with
  | known _ same =>
    subst same
    obtain ⟨_, named, same⟩ := List.mem_map.mp listed
    obtain ⟨parent, member, rfl⟩ := List.mem_map.mp named
    have inside : id < plan.size := (List.getElem?_eq_some_iff.mp found).1
    have before := behind parent (given ▸ member)
    rw [Int32.ofInt_eq_ofNat] at same
    exact absurd same (ofNat_ne_negative (by omega))
  | root _ gap => exact gap

theorem exists_root_union_layOut {schema : Option Schema} {yield : Yield}
    (planted : Planted (.empty schema) (-1) (.chain operators) plan yield) (gap : Operator.HeadGap operators) :
    ∃ node ∈ (layOut plan workers servers root subRoots).nodes, ∃ inputs, node.op = .union inputs ∧ -1 ∈ inputs := by
  obtain ⟨id, node, inputs, found, union, listed⟩ := planted.exists_root_union gap
  refine ⟨_, List.mem_of_getElem? (by rw [getElem?_layOut, found]; rfl), inputs.map Int32.ofInt, ?_, ?_⟩
  · exact congrArg (NodeOp.map Int32.ofInt) union
  · exact List.mem_map.mpr ⟨-1, listed, rfl⟩

end LaidOut

end PhysicalPlan

namespace Compiler

variable {deployment : Deployment} {schema : Option Schema} {traversal : Traversal} {compiled : Compiled}

/-- What is read back from the bytes is the plan that the operators have entered, as it is laid out. -/
theorem decoded_of_compile (done : compile deployment schema traversal = .ok compiled) :
    ∃ plan root subRoots, Assembles schema traversal plan ∧
      PhysicalPlan.decode compiled.bytes =
        .ok (PhysicalPlan.layOut plan deployment.workers deployment.servers root subRoots) ∧
      plan.size < 2 ^ 31 := by
  obtain ⟨plan, assembles, filled, same⟩ := assembles_of_compile done
  obtain ⟨physical, laid, encoded⟩ := PlanGraph.encoded_of_bytes filled
  obtain ⟨small, root, subRoots, _, _, _, laid_eq⟩ := PhysicalPlan.layout_of_ok laid
  have decoded : PhysicalPlan.decode compiled.bytes = .ok physical := same ▸ PhysicalPlan.decode_encode encoded
  subst laid_eq
  exact ⟨plan, root, subRoots, assembles, decoded, small⟩

theorem laidOut_of_compile (done : compile deployment schema traversal = .ok compiled) :
    ∃ plan root subRoots operators own last,
      PhysicalPlan.decode compiled.bytes =
        .ok (PhysicalPlan.layOut plan deployment.workers deployment.servers root subRoots) ∧
      traversal.build = .ok operators ∧ Planted (.empty schema) (-1) (.chain operators) plan (.ends own last) ∧
      plan.size < 2 ^ 31 := by
  obtain ⟨plan, root, subRoots, assembles, decoded, small⟩ := decoded_of_compile done
  obtain ⟨operators, own, last, built, planted⟩ := assembles.planted
  exact ⟨plan, root, subRoots, operators, own, last, decoded, built, planted, small⟩

/-- In all plans that are read back from the bytes, unions list the nodes whose children they are. They list `-1`
in place of nodes just when a union with an empty branch has nothing before it. -/
theorem compiled_unions_join (done : compile deployment schema traversal = .ok compiled) :
    ∃ plan operators, PhysicalPlan.decode compiled.bytes = .ok plan ∧ traversal.build = .ok operators ∧
      (∀ node ∈ plan.nodes, ∀ inputs, node.op = .union inputs → plan.Joins node inputs) ∧
      ((∃ node ∈ plan.nodes, ∃ inputs, node.op = .union inputs ∧ -1 ∈ inputs) ↔ Operator.HeadGap operators) := by
  obtain ⟨plan, root, subRoots, operators, _, _, decoded, built, planted, small⟩ := laidOut_of_compile done
  have entry {node : PhysicalNode} {inputs : List Int32}
      (member : node ∈ (PhysicalPlan.layOut plan deployment.workers deployment.servers root subRoots).nodes)
      (union : node.op = .union inputs) : ∃ (id : Nat) (source : PlanNode) (given : List Int),
        plan.nodes[id]? = some source ∧ (∀ parent ∈ source.parents, parent < id) ∧ node.id = Int32.ofNat id ∧
          inputs = given.map Int32.ofInt ∧ given ≠ [] ∧ PlanGraph.Joined operators given source.parents := by
    obtain ⟨id, found⟩ := List.mem_iff_getElem?.mp member
    rw [PhysicalPlan.getElem?_layOut] at found
    obtain ⟨source, there, same⟩ := Option.map_eq_some_iff.mp found
    subst same
    obtain ⟨given, op, words⟩ := PhysicalPlan.union_of_map union
    have behind := (planted.tidy id source there (Nat.zero_le id)).behind
    have joined := planted.unions (.inl rfl) (.whole operators (-1)) id source given there (Nat.zero_le id) op
    exact ⟨id, source, given, there, behind, rfl, words, joined⟩
  refine ⟨_, operators, decoded, built, fun node member inputs union => ?_, fun found => ?_,
    PhysicalPlan.exists_root_union_layOut planted⟩
  · obtain ⟨id, source, given, there, behind, numbered, words, some, joined⟩ := entry member union
    rw [words]
    exact PhysicalPlan.joins_of_joined small there behind numbered some joined
  · obtain ⟨node, member, inputs, union, listed⟩ := found
    obtain ⟨id, source, given, there, behind, _, words, _, joined⟩ := entry member union
    exact PhysicalPlan.gap_of_listed small there behind joined (words ▸ listed)

theorem neighbours_unions_join : ∃ compiled, compile .standalone none neighbours = .ok compiled ∧
    ∃ plan operators, PhysicalPlan.decode compiled.bytes = .ok plan ∧ neighbours.build = .ok operators ∧
      (∀ node ∈ plan.nodes, ∀ inputs, node.op = .union inputs → plan.Joins node inputs) ∧
      ((∃ node ∈ plan.nodes, ∃ inputs, node.op = .union inputs ∧ -1 ∈ inputs) ↔ Operator.HeadGap operators) := by
  have passes : (compile .standalone none neighbours).isOk = true := by decide +kernel
  obtain ⟨compiled, done⟩ := ok_of_isOk passes
  exact ⟨compiled, done, compiled_unions_join done⟩

/-- The vertices at which there is something, as there always is. -/
def idling : Traversal := (Traversal.vertices []).add (.whereTraversal (Traversal.add [] (.union [[]])))

theorem idling_gap {operators : List Operator} (built : idling.build = .ok operators) : Operator.HeadGap operators := by
  have applied : Operator.Among ⟨.apply (some [⟨.union (some [[]]) none, none⟩]) none (some .semi), none⟩ operators := by
    cases built
    exact Operator.among_of_mem (List.mem_cons_of_mem _ List.mem_cons_self)
  exact ⟨[[]], none, none, .sub applied, List.mem_cons_self⟩

/-- The union lists a node that is not there. -/
theorem idling_joins_nothing : ∃ compiled, compile .standalone none idling = .ok compiled ∧
    ∃ plan, PhysicalPlan.decode compiled.bytes = .ok plan ∧ (∀ node ∈ plan.nodes, node.id ≠ -1) ∧
      ∃ node ∈ plan.nodes, ∃ inputs, node.op = .union inputs ∧ -1 ∈ inputs := by
  have passes : (compile .standalone none idling).isOk = true := by decide +kernel
  obtain ⟨compiled, done⟩ := ok_of_isOk passes
  obtain ⟨plan, root, subRoots, operators, _, _, decoded, built, planted, small⟩ := laidOut_of_compile done
  refine ⟨compiled, done, _, decoded, fun node member => ?_,
    PhysicalPlan.exists_root_union_layOut planted (idling_gap built)⟩
  obtain ⟨place, inside, same⟩ := PhysicalPlan.mem_layOut member
  rw [same]
  exact PhysicalPlan.ofNat_ne_negative (Nat.lt_trans inside small)

end Compiler

end TraversalPlanner
