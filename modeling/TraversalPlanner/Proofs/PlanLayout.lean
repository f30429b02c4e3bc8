import TraversalPlanner.Plan.Physical
import TraversalPlanner.Proofs.SubPlanRoots
import TraversalPlanner.Proofs.TableRefinement

/-! Which plans can be laid out: those without cycles and with few enough nodes for their ids where applies name roots, and
every root but one is named. -/

namespace TraversalPlanner

open Proofs

namespace PlanGraph

variable {plan : PlanGraph} {root id : Nat}

/-- The one root that no apply names, and applies that name all the others. -/
structure Accepted (plan : PlanGraph) (root : Nat) : Prop where
  targets : ∀ (apply : Nat) node target, plan.nodes[apply]? = some node → node.op.subRoot? = some target →
    ∃ id : Nat, target = id ∧ plan.Parentless id
  parentless : plan.Parentless root
  unnamed : ∀ apply, ¬ plan.Names apply root
  sole : ∀ id, plan.Parentless id → (∀ apply, ¬ plan.Names apply id) → id = root

theorem parents_isEmpty_iff (inside : id < plan.size) : (plan.parents id).isEmpty = true ↔ plan.Parentless id := by
  have found : plan.nodes[id]? = some plan.nodes[id] := List.getElem?_eq_getElem inside
  rw [parents_natCast, sorted_isEmpty, found, List.isEmpty_iff]
  simp only [Parentless, found, Option.some.injEq, exists_eq_left', Option.map_some, Option.getD_some]

theorem node?_eq_some {node : PlanNode} {id : Int} : plan.node? id = some node ↔
    ∃ place : Nat, id = place ∧ plan.nodes[place]? = some node := by
  unfold node?
  split
  · next negative =>
    refine iff_of_false (by simp) fun ⟨place, same, _⟩ => ?_
    omega
  · next positive =>
    obtain ⟨place, rfl⟩ := Int.eq_ofNat_of_zero_le (Int.not_lt.mp positive)
    simp only [Int.toNat_natCast, Int.natCast_inj, exists_eq_left']

theorem node?_tables_found {node : PlanNode} (found : plan.nodes[id]? = some node) :
    plan.tables.node? id = some node.op := by
  rw [node?_tables, node?_eq_some.mpr ⟨id, rfl, found⟩]
  rfl

/-- The root that an apply node refers to; it has to be there and must not have parents. -/
def subRootAt (plan : PlanGraph) (entry : PlanNode × Nat) : Except LayoutFault (Option Nat) :=
  match entry.1.op with
  | .apply _ root _ =>
    match plan.node? root with
    | none => .error (.missingSubRoot entry.2 root)
    | some node => if node.parents.isEmpty then .ok (some root.toNat) else .error (.subRootWithParents entry.2 root)
  | _ => .ok none

end PlanGraph

namespace PhysicalPlan

open PlanGraph

variable {plan : PlanGraph} {workers servers : UInt32} {physical : PhysicalPlan}

theorem subRootAt_eq_ok {node : PlanNode} {id : Nat} {target : Option Nat} :
    subRootAt plan (node, id) = .ok target ↔
      node.op.subRoot? = target.map (fun root : Nat => (root : Int)) ∧
        ∀ root, target = some root → plan.Parentless root := by
  unfold subRootAt
  cases op : node.op with
  | apply join root tag =>
    simp only [NodeOp.subRoot?]
    cases found : plan.node? root with
    | none =>
      refine iff_of_false (by simp) fun ⟨same, alone⟩ => ?_
      cases target with
      | none => cases same
      | some place =>
        obtain ⟨node, there, _⟩ := alone place rfl
        have known := node?_eq_some.mpr ⟨place, Option.some.inj same, there⟩
        rw [found] at known
        cases known
    | some entry =>
      obtain ⟨place, rfl, there⟩ := node?_eq_some.mp found
      have same : plan.Parentless place ↔ entry.parents.isEmpty = true := by
        simp only [Parentless, there, Option.some.injEq, exists_eq_left', List.isEmpty_iff]
      cases target with
      | none =>
        refine iff_of_false ?_ (by simp)
        cases alone : entry.parents.isEmpty <;> simp only [alone] <;> simp
      | some root =>
        by_cases alone : entry.parents.isEmpty = true
        · simp only [alone, if_true, Int.toNat_natCast, Except.ok.injEq, Option.some.injEq, Option.map_some, Int.natCast_inj]
          constructor
          · intro named
            exact ⟨named, fun other again => again ▸ named ▸ same.mpr alone⟩
          · exact fun named => named.1
        · simp only [alone, Bool.false_eq_true, if_false, reduceCtorEq, Option.map_some, Option.some.injEq, Int.natCast_inj,
            false_iff]
          intro named
          exact alone (same.mp (named.1 ▸ named.2 root rfl))
  | _ => cases target <;> simp [NodeOp.subRoot?]

/-- The roots that applies name, once all of them are known to be roots. -/
theorem mem_named {targets : List (Option Nat)} (passed : plan.nodes.zipIdx.mapM (subRootAt plan) = .ok targets)
    (root : Nat) : root ∈ targets.filterMap id ↔ ∃ apply, plan.Names apply root := by
  simp only [List.mem_filterMap, id_eq, exists_eq_right]
  constructor
  · intro member
    obtain ⟨⟨node, apply⟩, entry, holds⟩ := mapM_source passed member
    exact ⟨apply, node, List.mk_mem_zipIdx_iff_getElem?.mp entry, (subRootAt_eq_ok.mp holds).1⟩
  · intro named
    obtain ⟨apply, node, found, names⟩ := named
    obtain ⟨target, member, holds⟩ := mapM_result passed (List.mk_mem_zipIdx_iff_getElem?.mpr found)
    have same := (subRootAt_eq_ok.mp holds).1
    rw [names] at same
    cases target with
    | none => cases same
    | some place =>
      cases Int.ofNat.inj (Option.some.inj same)
      exact member

theorem targets_of_passed {targets : List (Option Nat)} (passed : plan.nodes.zipIdx.mapM (subRootAt plan) = .ok targets)
    (apply : Nat) (node : PlanNode) (target : Int) (found : plan.nodes[apply]? = some node)
    (names : node.op.subRoot? = some target) : ∃ id : Nat, target = id ∧ plan.Parentless id := by
  obtain ⟨given, _, holds⟩ := mapM_result passed (List.mk_mem_zipIdx_iff_getElem?.mpr found)
  obtain ⟨same, alone⟩ := subRootAt_eq_ok.mp holds
  rw [names] at same
  cases given with
  | none => cases same
  | some place => exact ⟨place, Option.some.inj same, alone place rfl⟩

theorem passed_of_targets (targets : ∀ (apply : Nat) node target, plan.nodes[apply]? = some node →
    node.op.subRoot? = some target → ∃ id : Nat, target = id ∧ plan.Parentless id) :
    ∃ targets, plan.nodes.zipIdx.mapM (subRootAt plan) = .ok targets := by
  refine mapM_passes fun (node, apply) entry => ?_
  have found := List.mk_mem_zipIdx_iff_getElem?.mp entry
  cases names : node.op.subRoot? with
  | none => exact ⟨none, subRootAt_eq_ok.mpr ⟨names, by simp⟩⟩
  | some target =>
    obtain ⟨id, same, alone⟩ := targets apply node target found names
    refine ⟨some id, subRootAt_eq_ok.mpr ⟨by rw [names, same]; rfl, fun root chosen => ?_⟩⟩
    cases chosen
    exact alone

/-- The roots that are named, in ascending order. -/
def namedRoots (plan : PlanGraph) (targets : List (Option Nat)) : List Nat :=
  (List.range plan.size).filter (targets.filterMap id).contains

def unnamedRoots (plan : PlanGraph) (targets : List (Option Nat)) : List Nat :=
  (List.range plan.size).filter fun id : Nat => (plan.parents id).isEmpty && !(namedRoots plan targets).contains id

theorem mem_namedRoots {targets : List (Option Nat)} (passed : plan.nodes.zipIdx.mapM (subRootAt plan) = .ok targets)
    (id : Nat) : id ∈ namedRoots plan targets ↔ ∃ apply, plan.Names apply id := by
  rw [namedRoots, List.mem_filter, List.contains_iff_mem, mem_named passed, List.mem_range]
  refine and_iff_right_of_imp fun named => ?_
  obtain ⟨apply, node, found, names⟩ := named
  obtain ⟨place, same, alone⟩ := targets_of_passed passed apply node id found names
  cases Int.ofNat.inj same
  exact alone.lt_size

theorem mem_unnamedRoots {targets : List (Option Nat)} (passed : plan.nodes.zipIdx.mapM (subRootAt plan) = .ok targets)
    (id : Nat) : id ∈ unnamedRoots plan targets ↔ plan.Parentless id ∧ ∀ apply, ¬ plan.Names apply id := by
  have named : (!(namedRoots plan targets).contains id) = true ↔ ∀ apply, ¬ plan.Names apply id := by
    rw [Bool.not_eq_true', ← Bool.not_eq_true, List.contains_iff_mem, mem_namedRoots passed, not_exists]
  rw [unnamedRoots, List.mem_filter, List.mem_range, Bool.and_eq_true, named]
  constructor
  · intro chosen
    exact ⟨(parents_isEmpty_iff chosen.1).mp chosen.2.1, chosen.2.2⟩
  · intro root
    exact ⟨root.1.lt_size, (parents_isEmpty_iff root.1.lt_size).mpr root.1, root.2⟩

def layOut (plan : PlanGraph) (workers servers : UInt32) (root : Nat) (subRoots : List Nat) : PhysicalPlan where
  workers := workers
  servers := servers
  root := Int32.ofNat root
  subRoots := subRoots.map Int32.ofNat
  nodes := plan.nodes.zipIdx.map fun (node, id) => ({
    id := Int32.ofNat id
    op := node.op.map Int32.ofInt
    children := (plan.children id).map Int32.ofNat
    shuffle := spread workers servers && node.op.needsLocality } : PhysicalNode)

/-- Lays a plan out once its applies have been followed. -/
def layOutFrom (plan : PlanGraph) (workers servers : UInt32) (targets : List (Option Nat)) :
    Except LayoutFault PhysicalPlan :=
  match unnamedRoots plan targets with
  | [] => .error .noEntry
  | [root] => .ok (layOut plan workers servers root (namedRoots plan targets))
  | roots => .error (.danglingRoots roots)

theorem layOutFrom_eq_ok {targets : List (Option Nat)} : layOutFrom plan workers servers targets = .ok physical ↔
    ∃ root, unnamedRoots plan targets = [root] ∧ physical = layOut plan workers servers root (namedRoots plan targets) := by
  unfold layOutFrom
  cases unnamedRoots plan targets with
  | nil => simp
  | cons root rest =>
    cases rest with
    | nil => simp [eq_comm]
    | cons => simp

/-! Layout goes through the ids, which 32 bits have to number. -/

theorem count_eq (few : plan.size < 2 ^ 31) : count plan.tables = plan.size := by
  have size : min plan.tables.size (UInt32.size - 1) = plan.size := by
    rw [size_tables]
    exact Nat.min_eq_left (Nat.le_pred_of_lt (PlanTables.lt_wordSize few))
  rw [count, size, PlanTables.asId_eq few]

/-- Where they cannot, there seem to be none. -/
theorem count_toNat_eq_zero (many : 2 ^ 31 ≤ plan.size) : (count plan.tables).toNat = 0 := by
  have words : UInt32.size = 2 ^ 32 := rfl
  have size : Int32.size = 2 ^ 32 := rfl
  rw [count, size_tables, PlanTables.asId, Int32.toInt_ofNat', Int.bmod_def, size]
  omega

theorem range_size : List.range plan.size = plan.nodes.zipIdx.map Prod.snd := by
  rw [List.zipIdx_map_snd, List.range_eq_range']
  rfl

theorem subRootOf_tables (few : plan.size < 2 ^ 31) {node : PlanNode} {id : Nat} (found : plan.nodes[id]? = some node) :
    subRootOf plan.tables id = subRootAt plan (node, id) := by
  unfold subRootOf subRootAt
  rw [node?_tables_found found]
  cases node.op with
  | apply join root tag =>
    simp only [count_eq few]
    cases there : plan.node? root with
    | none =>
      have outside : root < 0 ∨ (plan.size : Int) ≤ root := by
        by_contra inside
        rw [not_or, Int.not_lt, Int.not_le] at inside
        obtain ⟨place, rfl⟩ := Int.eq_ofNat_of_zero_le inside.1
        have member := List.getElem?_eq_getElem (show place < plan.nodes.length from Int.ofNat_lt.mp inside.2)
        cases there.symm.trans (node?_eq_some.mpr ⟨place, rfl, member⟩)
      rw [if_pos outside]
    | some entry =>
      obtain ⟨place, rfl, member⟩ := node?_eq_some.mp there
      have inside : place < plan.size := (List.getElem?_eq_some_iff.mp member).1
      have small := PlanTables.lt_wordSize (Nat.lt_trans inside few)
      have alone : (plan.tables.parents place).isEmpty = entry.parents.isEmpty := by
        rw [parents_tables_isEmpty small, parents_natCast, sorted_isEmpty, member]
        rfl
      rw [if_neg (by omega), alone]
  | _ => rfl

theorem physicalNode_tables (few : plan.size < 2 ^ 31) {node : PlanNode} {id : Nat} (found : plan.nodes[id]? = some node) :
    physicalNode plan.tables workers servers id = .ok {
      id := Int32.ofNat id
      op := node.op.map Int32.ofInt
      children := (plan.children id).map Int32.ofNat
      shuffle := spread workers servers && node.op.needsLocality } := by
  have inside : id < plan.size := (List.getElem?_eq_some_iff.mp found).1
  have small := PlanTables.lt_wordSize (Nat.lt_trans inside few)
  have children : (plan.tables.children id).map Int32.ofInt = (plan.children id).map Int32.ofNat := by
    rw [children_tables (Nat.le_of_lt few) small, List.map_map]
    exact List.map_congr_left fun child _ => Int32.ofInt_eq_ofNat
  unfold physicalNode
  rw [node?_tables_found found]
  simp only [children]

theorem mapM_subRootOf (few : plan.size < 2 ^ 31) :
    (List.range plan.size).mapM (subRootOf plan.tables) = plan.nodes.zipIdx.mapM (subRootAt plan) := by
  rw [range_size, List.mapM_map]
  exact mapM_congr fun (node, id) entry => subRootOf_tables few (List.mk_mem_zipIdx_iff_getElem?.mp entry)

theorem mapM_physicalNode (few : plan.size < 2 ^ 31) (root : Nat) (subRoots : List Nat) :
    (List.range plan.size).mapM (physicalNode plan.tables workers servers) =
      .ok (layOut plan workers servers root subRoots).nodes := by
  rw [range_size, List.mapM_map]
  refine (mapM_congr fun (node, id) entry => ?_).trans List.mapM_pure
  exact physicalNode_tables few (List.mk_mem_zipIdx_iff_getElem?.mp entry)

theorem unnamedRoots_tables (few : plan.size < 2 ^ 31) (targets : List (Option Nat)) :
    (List.range plan.size).filter (fun id : Nat =>
      (plan.tables.parents id).isEmpty && !(namedRoots plan targets).contains id) = unnamedRoots plan targets := by
  refine List.filter_congr fun id member => ?_
  rw [parents_tables_isEmpty (PlanTables.lt_wordSize (Nat.lt_trans (List.mem_range.mp member) few))]

theorem layOutNodes_tables (few : plan.size < 2 ^ 31) (targets : List (Option Nat)) :
    layOutNodes plan.tables workers servers (List.range plan.size) (targets.filterMap id) =
      layOutFrom plan workers servers targets := by
  have subRoots : (List.range plan.size).filter (targets.filterMap id).contains = namedRoots plan targets := rfl
  unfold layOutNodes layOutFrom
  simp only [subRoots, unnamedRoots_tables few]
  cases unnamedRoots plan targets with
  | nil => rfl
  | cons root rest =>
    cases rest with
    | nil =>
      simp only [mapM_physicalNode few root (namedRoots plan targets)]
      rfl
    | cons => rfl

theorem ofTables_eq (cyclic : List (Nat × Nat) → Bool) : ofTables cyclic plan.tables workers servers =
    if workers = 0 ∨ servers = 0 then .error (.noDeployment workers servers)
    else if plan.isEmpty = true then .error .noOperators
    else if cyclic plan.tables.edges = true then .error .cyclic
    else if plan.size < 2 ^ 31 then plan.nodes.zipIdx.mapM (subRootAt plan) >>= layOutFrom plan workers servers
    else .error .noEntry := by
  rw [ofTables, isEmpty_tables]
  by_cases undeployed : workers = 0 ∨ servers = 0
  · rw [if_pos undeployed, if_pos undeployed]
    rfl
  rw [if_neg undeployed, if_neg undeployed]
  by_cases empty : plan.isEmpty = true
  · rw [if_pos empty, if_pos empty]
    rfl
  rw [if_neg empty, if_neg empty]
  by_cases found : cyclic plan.tables.edges = true
  · rw [if_pos found, if_pos found]
    rfl
  rw [if_neg found, if_neg found]
  by_cases few : plan.size < 2 ^ 31
  · rw [if_pos few]
    simp only [count_eq few, Int.toNat_natCast, mapM_subRootOf few]
    cases plan.nodes.zipIdx.mapM (subRootAt plan) with
    | error fault => rfl
    | ok targets => exact layOutNodes_tables few targets
  · rw [if_neg few]
    simp only [count_toNat_eq_zero (Nat.le_of_not_lt few)]
    rfl

/-! What remains where layout is not kept from going through all nodes. -/

/-- The layout that the roots of a plan decide. -/
def layOutByRoots (plan : PlanGraph) (workers servers : UInt32) : Except LayoutFault PhysicalPlan :=
  if workers = 0 ∨ servers = 0 then .error (.noDeployment workers servers)
  else if plan.isEmpty = true then .error .noOperators
  else plan.nodes.zipIdx.mapM (subRootAt plan) >>= layOutFrom plan workers servers

theorem ofTables_eq_byRoots {cyclic : List (Nat × Nat) → Bool} (acyclic : cyclic plan.tables.edges = false)
    (few : plan.size < 2 ^ 31) : ofTables cyclic plan.tables workers servers = layOutByRoots plan workers servers := by
  rw [ofTables_eq, acyclic, if_neg Bool.false_ne_true, if_pos few]
  rfl

theorem ofTables_eq_ok {cyclic : List (Nat × Nat) → Bool} : ofTables cyclic plan.tables workers servers = .ok physical ↔
    cyclic plan.tables.edges = false ∧ plan.size < 2 ^ 31 ∧ layOutByRoots plan workers servers = .ok physical := by
  constructor
  · intro laid
    obtain ⟨acyclic, few⟩ : cyclic plan.tables.edges = false ∧ plan.size < 2 ^ 31 := by
      rw [ofTables_eq] at laid
      by_contra kept
      split at laid
      · cases laid
      split at laid
      · cases laid
      split at laid
      · cases laid
      next acyclic =>
      split at laid
      · next few => exact kept ⟨Bool.eq_false_of_not_eq_true acyclic, few⟩
      · cases laid
    exact ⟨acyclic, few, ofTables_eq_byRoots acyclic few ▸ laid⟩
  · intro laid
    rw [ofTables_eq_byRoots laid.1 laid.2.1]
    exact laid.2.2

/-- A plan is laid out by its roots when all applies name roots and just one root is named by none. -/
theorem byRoots_eq_ok : layOutByRoots plan workers servers = .ok physical ↔
    workers ≠ 0 ∧ servers ≠ 0 ∧ ∃ targets root, plan.nodes.zipIdx.mapM (subRootAt plan) = .ok targets ∧
      unnamedRoots plan targets = [root] ∧ physical = layOut plan workers servers root (namedRoots plan targets) := by
  unfold layOutByRoots
  by_cases undeployed : workers = 0 ∨ servers = 0
  · rw [if_pos undeployed]
    refine iff_of_false nofun fun deployed => ?_
    rcases undeployed with none | none
    · exact deployed.1 none
    · exact deployed.2.1 none
  · rw [if_neg undeployed]
    rw [not_or] at undeployed
    by_cases empty : plan.isEmpty = true
    · rw [if_pos empty]
      refine iff_of_false nofun fun deployed => ?_
      obtain ⟨_, root, _, sole, _⟩ := deployed.2.2
      have none : plan.size = 0 := by simpa [isEmpty, PlanGraph.size] using empty
      rw [unnamedRoots, none] at sole
      cases sole
    · rw [if_neg empty, bind_eq_ok, and_iff_right undeployed.1, and_iff_right undeployed.2]
      simp only [layOutFrom_eq_ok, exists_and_left]

theorem eq_singleton {ids : List Nat} {root : Nat} (apart : ids.Nodup) : ids = [root] ↔ ∀ id, id ∈ ids ↔ id = root := by
  rw [← List.perm_singleton, List.perm_ext_iff_of_nodup apart (List.nodup_singleton root)]
  simp only [List.mem_singleton]

theorem unnamedRoots_eq {targets : List (Option Nat)} (passed : plan.nodes.zipIdx.mapM (subRootAt plan) = .ok targets)
    (root : Nat) : unnamedRoots plan targets = [root] ↔ plan.Accepted root := by
  have apart : (unnamedRoots plan targets).Nodup := List.nodup_range.filter _
  simp only [eq_singleton apart, mem_unnamedRoots passed]
  constructor
  · intro each
    obtain ⟨parentless, unnamed⟩ := (each root).mpr rfl
    exact ⟨targets_of_passed passed, parentless, unnamed, fun id alone free => (each id).mp ⟨alone, free⟩⟩
  · intro accepted id
    refine ⟨fun alone => accepted.sole id alone.1 alone.2, fun same => ?_⟩
    rw [same]
    exact ⟨accepted.parentless, accepted.unnamed⟩

theorem isOk_byRoots_iff : (∃ physical, layOutByRoots plan workers servers = .ok physical) ↔
    workers ≠ 0 ∧ servers ≠ 0 ∧ ∃ root, plan.Accepted root := by
  simp only [byRoots_eq_ok]
  constructor
  · intro laid
    obtain ⟨_, deployed, running, targets, root, passed, sole, _⟩ := laid
    exact ⟨deployed, running, root, (unnamedRoots_eq passed root).mp sole⟩
  · intro accepted
    obtain ⟨deployed, running, root, accepted⟩ := accepted
    obtain ⟨targets, passed⟩ := passed_of_targets accepted.targets
    exact ⟨_, deployed, running, targets, root, passed, (unnamedRoots_eq passed root).mpr accepted, rfl⟩

theorem hasCycle_tables : PlanTables.hasCycle plan.tables.edges = false ↔ ∀ id, ¬ Relation.TransGen plan.Child id id := by
  have edges : PlanTables.Edge plan.tables.edges = plan.Child := funext₂ fun _ _ => propext edge_tables
  rw [← Bool.not_eq_true, PlanTables.hasCycle_iff, edges, not_exists]

theorem isOk_ofGraph_iff : (∃ physical, ofGraph plan workers servers = .ok physical) ↔
    (∀ id, ¬ Relation.TransGen plan.Child id id) ∧ plan.size < 2 ^ 31 ∧
      workers ≠ 0 ∧ servers ≠ 0 ∧ ∃ root, plan.Accepted root := by
  simp only [ofGraph, ofTables_eq_ok, exists_and_left, isOk_byRoots_iff, hasCycle_tables]

theorem layout_of_byRoots (laid : layOutByRoots plan workers servers = .ok physical) : ∃ root subRoots,
    plan.Accepted root ∧ subRoots.Pairwise (· < ·) ∧ (∀ id, id ∈ subRoots ↔ ∃ apply, plan.Names apply id) ∧
    physical = layOut plan workers servers root subRoots := by
  obtain ⟨_, _, targets, root, passed, sole, same⟩ := byRoots_eq_ok.mp laid
  exact ⟨root, namedRoots plan targets, (unnamedRoots_eq passed root).mp sole, List.pairwise_lt_range.filter _,
    mem_namedRoots passed, same⟩

/-- A plan that is laid out has no more nodes than 32 bits can number. -/
theorem layout_of_ok (laid : ofGraph plan workers servers = .ok physical) : plan.size < 2 ^ 31 ∧ ∃ root subRoots,
    plan.Accepted root ∧ subRoots.Pairwise (· < ·) ∧ (∀ id, id ∈ subRoots ↔ ∃ apply, plan.Names apply id) ∧
    physical = layOut plan workers servers root subRoots := by
  obtain ⟨_, few, laid⟩ := ofTables_eq_ok.mp laid
  exact ⟨few, layout_of_byRoots laid⟩

end PhysicalPlan

end TraversalPlanner
