import TraversalPlanner.Plan.Assembly
import TraversalPlanner.Proofs.PlanShape

/-! What holds of a plan whatever it has been asked, and however much of that it has refused. Its tables hold the nodes
that have been entered, by their numbers, and stay in step. So there is never a cycle, and once the plan is laid out a root
is above each of its nodes. -/

namespace TraversalPlanner

open Proofs Relation

namespace Accumulator

variable {σ : Type}

/-- A call that is to be made. -/
inductive Demand where
  | append (op : NodeOp Int) (parents : List Int)
  | appendRoot (op : NodeOp Int) (scope : Int)
  | release

namespace Call

def demand? : Call → Option Demand
  | .append op parents _ => some (.append op parents)
  | .appendRoot op scope _ => some (.appendRoot op scope)
  | .release => some .release
  | _ => none

/-- The id and the operation of the node that a call has entered. -/
def entered? : Call → Option (Int × NodeOp Int)
  | .append op _ (.ok id) => some (id, op)
  | .appendRoot op _ (.ok id) => some (id, op)
  | _ => none

/-- The call with its answer cut to 32 bits. -/
def cut : Call → Call
  | .append op parents answer => .append op parents (answer.map fun id => (Int32.ofInt id).toInt)
  | .appendRoot op scope answer => .appendRoot op scope (answer.map fun id => (Int32.ofInt id).toInt)
  | call => call

end Call

/-- Makes the call that is demanded, and takes it down. -/
def serve (accumulator : Accumulator σ) (history : σ × List Call) : Demand → σ × List Call
  | .append op parents => (accumulator.recorded.append op parents history).2
  | .appendRoot op scope => (accumulator.recorded.appendRoot op scope history).2
  | .release => accumulator.recorded.release history

def served (accumulator : Accumulator σ) (start : σ) (demands : List Demand) : σ × List Call :=
  demands.foldl accumulator.serve (start, [])

theorem served_snoc (accumulator : Accumulator σ) (start : σ) (demands : List Demand) (demand : Demand) :
    accumulator.served start (demands ++ [demand]) = accumulator.serve (accumulator.served start demands) demand := by
  rw [served, List.foldl_append]
  rfl

/-- The nodes that calls have entered, in the order of the calls. -/
def entered (calls : List Call) : List (Int × NodeOp Int) := calls.filterMap Call.entered?

theorem entered_snoc (calls : List Call) (call : Call) : entered (calls ++ [call]) = entered calls ++ call.entered?.toList := by
  rw [entered, List.filterMap_append]
  cases known : call.entered? <;> simp [entered, known]

theorem entered_vain {calls : List Call} {call : Call} (vain : call.entered? = none) :
    entered (calls ++ [call]) = entered calls := by
  rw [entered_snoc, vain, Option.toList_none, List.append_nil]

end Accumulator

namespace PlanTables

open Accumulator

variable {tables : PlanTables} {cyclic : List (Nat × Nat) → Bool} {demands : List Demand} {demand : Demand} {calls : List Call}

/-! What a call does. -/

/-- What can become of tables on demand, and the call that tells of it. -/
inductive Comes (tables : PlanTables) : Demand → PlanTables → Call → Prop
  | refused {demand call} (other : demand ≠ .release) (vain : call.entered? = none) : Comes tables demand tables call
  | grown {demand call op parents visible} (other : demand ≠ .release) (kept : tables.released = false)
      (ground : tables.Ground parents visible) (enters : call.entered? = some (asId tables.size, op)) :
      Comes tables demand (tables.grow op parents visible) call
  | released : Comes tables .release tables.release .release

/-- Calls that append tell what has become of the tables. -/
theorem settle_comes {op : NodeOp Int} {ground : Except Refusal (List Nat × List Identifier)} {answer : Except Refusal Int}
    {after : PlanTables} (call : Except Refusal Int → Call) (other : demand ≠ .release)
    (settled : (answer, after) = if tables.released then (.error .planReleased, tables)
      else tables.settle op (vetted tables.schema op ground))
    (known : ∀ parents visible, ground = .ok (parents, visible) → tables.Ground parents visible)
    (enters : ∀ id, (call (.ok id)).entered? = some (id, op))
    (vain : ∀ refusal, (call (.error refusal)).entered? = none) : tables.Comes demand after (call answer) := by
  split at settled
  · cases settled
    exact .refused other (vain _)
  · next kept =>
    cases admitted : vetted tables.schema op ground with
    | error refusal =>
      rw [admitted] at settled
      cases settled
      exact .refused other (vain _)
    | ok stands =>
      rw [admitted] at settled
      cases settled
      exact .grown other (by simpa using kept) (known _ _ (ground_of_vetted admitted)) (enters _)

theorem serve_comes (tables : PlanTables) (calls : List Call) (demand : Demand) :
    ∃ after call, (accumulator cyclic).serve (tables, calls) demand = (after, calls ++ [call]) ∧
      call.demand? = some demand ∧ tables.Comes demand after call := by
  cases demand with
  | append op asked =>
    have comes : tables.Comes (.append op asked) _ _ :=
      settle_comes (.append op asked) nofun (run_append asked) (fun _ _ => ground_of_ok) (fun _ => rfl) fun _ => rfl
    exact ⟨_, _, rfl, rfl, comes⟩
  | appendRoot op scope =>
    have comes : tables.Comes (.appendRoot op scope) _ _ :=
      settle_comes (.appendRoot op scope) nofun (run_appendRoot scope) (fun _ _ => groundRoot_of_ok) (fun _ => rfl) fun _ => rfl
    exact ⟨_, _, rfl, rfl, comes⟩
  | release => exact ⟨_, _, rfl, rfl, .released⟩

/-- Nothing is left in tables, and nothing comes in any more. -/
structure Spent (tables : PlanTables) : Prop where
  emptied : tables.ops = [] ∧ tables.edges = [] ∧ tables.tags = [] ∧ tables.scopes = []
  append : ∀ op parents, (append op parents).run tables = (.error .planReleased, tables)
  appendRoot : ∀ op scope, (appendRoot op scope).run tables = (.error .planReleased, tables)

theorem spent_release (tables : PlanTables) : tables.release.Spent :=
  ⟨⟨rfl, rfl, rfl, rfl⟩, fun _ _ => rfl, fun _ _ => rfl⟩

/-- The record of what has been entered, and the tables that came of it. -/
structure Documented (demands : List Demand) (history : PlanTables × List Call) : Prop where
  asked : history.2.map Call.demand? = demands.map some
  numbered : (entered history.2).map Prod.fst = (List.range (entered history.2).length).map asId
  released : history.1.released = true ↔ .release ∈ demands
  stored : .release ∉ demands → history.1.ops = (entered history.2).map Prod.snd
  spent : .release ∈ demands → history.1.Spent

private theorem release_mem_snoc (other : demand ≠ .release) : .release ∈ demands ++ [demand] ↔ .release ∈ demands := by
  rw [List.mem_append, List.mem_singleton, or_iff_left other.symm]

theorem documented_serve (documented : Documented demands (tables, calls)) (demand : Demand) :
    Documented (demands ++ [demand]) ((accumulator cyclic).serve (tables, calls) demand) := by
  obtain ⟨after, call, same, told, comes⟩ := serve_comes tables calls demand
  have asked : (calls ++ [call]).map Call.demand? = (demands ++ [demand]).map some := by
    rw [List.map_append, List.map_append, documented.asked, List.map_singleton, List.map_singleton, told]
  rw [same]
  cases comes with
  | refused other vain =>
    refine ⟨asked, ?_, ?_, ?_, ?_⟩
    · rw [entered_vain vain]
      exact documented.numbered
    · rw [release_mem_snoc other]
      exact documented.released
    · rw [release_mem_snoc other, entered_vain vain]
      exact documented.stored
    · rw [release_mem_snoc other]
      exact documented.spent
  | @grown _ _ op _ _ other kept ground enters =>
    have unreleased : .release ∉ demands := by
      intro before
      rw [documented.released.mpr before] at kept
      cases kept
    have stored := documented.stored unreleased
    have more : entered (calls ++ [call]) = entered calls ++ [(asId tables.size, op)] := by
      rw [entered_snoc, enters, Option.toList_some]
    -- As many nodes have been entered as there are, so the next number is theirs.
    have size : tables.size = (entered calls).length := by
      have lengths := congrArg List.length stored
      rwa [List.length_map] at lengths
    refine ⟨asked, ?_, ?_, ?_, ?_⟩
    · rw [more, List.map_append, documented.numbered, List.length_append, List.length_singleton, List.range_succ,
        List.map_append, size]
      rfl
    · rw [release_mem_snoc other]
      exact documented.released
    · intro _
      rw [more, List.map_append, ← stored]
      rfl
    · rw [release_mem_snoc other]
      exact fun before => absurd before unreleased
  | released =>
    have last : .release ∈ demands ++ [.release] := List.mem_append_right _ List.mem_cons_self
    refine ⟨asked, ?_, ?_, ?_, ?_⟩
    · rw [entered_vain rfl]
      exact documented.numbered
    · exact iff_of_true rfl last
    · exact fun unasked => absurd last unasked
    · exact fun _ => spent_release tables

theorem inStep_serve (inStep : tables.InStep) (calls : List Call) (demand : Demand) :
    ((accumulator cyclic).serve (tables, calls) demand).1.InStep := by
  obtain ⟨after, call, same, _, comes⟩ := serve_comes tables calls demand
  rw [same]
  cases comes with
  | refused => exact inStep
  | grown _ _ ground => exact inStep_grow inStep ground
  | released => exact inStep_of_nil rfl rfl rfl rfl

theorem served_documented (cyclic : List (Nat × Nat) → Bool) (schema : Option Schema) (demands : List Demand) :
    Documented demands ((accumulator cyclic).served (.empty schema) demands) := by
  induction demands using List.reverseRecOn with
  | nil => exact ⟨rfl, rfl, by simp [served, empty], fun _ => rfl, by simp⟩
  | append_singleton demands demand step =>
    rw [served_snoc]
    exact documented_serve step demand

theorem served_inStep (cyclic : List (Nat × Nat) → Bool) (schema : Option Schema) (demands : List Demand) :
    ((accumulator cyclic).served (.empty schema) demands).1.InStep := by
  induction demands using List.reverseRecOn with
  | nil => exact inStep_of_nil rfl rfl rfl rfl
  | append_singleton demands demand step =>
    rw [served_snoc]
    exact inStep_serve step _ demand

/-! Edges, from both of their ends. -/

theorem sorted_perm (ids : List Int) : (ids.foldr PlanGraph.insertSorted []).Perm ids := by
  have inserted (id : Int) (others : List Int) : (PlanGraph.insertSorted id others).Perm (id :: others) := by
    induction others with
    | nil => exact .refl _
    | cons head rest step =>
      unfold PlanGraph.insertSorted
      split
      · exact .refl _
      · exact (step.cons head).trans (.swap _ _ _)
  induction ids with
  | nil => exact .refl _
  | cons first rest step => exact (inserted first _).trans (step.cons first)

theorem asId_eq_iff {index : Nat} (inside : index < UInt32.size) (id : Int32) :
    asId index = id.toInt ↔ index = asIndex id.toInt := by
  have lower := id.le_toInt
  have upper := id.toInt_lt
  have words : UInt32.size = 2 ^ 32 := rfl
  have size : Int32.size = 2 ^ 32 := rfl
  rw [asId, Int32.toInt_ofNat', Int.bmod_def, size, asIndex, UInt32.ofInt, UInt32.toNat_ofNat_of_lt' (by omega)]
  omega

/-- A node is listed among the children of another one as often as that is listed among its parents. -/
theorem count_mirrored (inside : ∀ edge ∈ tables.edges, edge.1 < UInt32.size ∧ edge.2 < UInt32.size) (parent child : Int32) :
    (tables.children parent.toInt).count child.toInt = (tables.parents child.toInt).count parent.toInt := by
  unfold children parents
  rw [(sorted_perm _).count_eq, (sorted_perm _).count_eq]
  simp only [List.count_eq_countP, List.countP_map, List.countP_filter]
  refine List.countP_congr fun edge member => ?_
  obtain ⟨first, second⟩ := inside edge member
  simp only [Function.comp, Bool.and_eq_true, beq_iff_eq, decide_eq_true_eq, asId_eq_iff first, asId_eq_iff second]
  exact and_comm

theorem InStep.acyclic (inStep : tables.InStep) (index : Nat) : ¬ TransGen (Edge tables.edges) index index :=
  fun way => Nat.lt_irrefl index (lt_of_way (fun parent child edge => (inStep.forward parent child edge).1) way)

end PlanTables

namespace PlanGraph

open Accumulator PlanTables

variable {plan : PlanGraph} {cyclic : List (Nat × Nat) → Bool} {calls : List Call} {demand : Demand} {id : Nat}

/-! The same demands of a plan whose nodes hold all that belongs to them. -/

theorem serve_tables (plan : PlanGraph) (calls : List Call) (demand : Demand) :
    (PlanTables.accumulator cyclic).serve (plan.tables, calls.map Call.cut) demand =
      ((accumulator.serve (plan, calls) demand).1.tables, (accumulator.serve (plan, calls) demand).2.map Call.cut) := by
  have numbered (index : Nat) : (Int32.ofInt index).toInt = asId index := by
    rw [Int32.ofInt_eq_ofNat]
    rfl
  cases demand with
  | append op asked =>
    change (((PlanTables.append op asked).run plan.tables).2, calls.map Call.cut ++
      [Call.append op asked ((PlanTables.append op asked).run plan.tables).1]) =
        ((plan.answer (plan.append op asked)).2.tables,
          (calls ++ [Call.append op asked (plan.answer (plan.append op asked)).1]).map Call.cut)
    rw [append_tables, List.map_append]
    cases plan.append op asked with
    | error refusal => rfl
    | ok grown => simp [inTables, answer, Call.cut, Except.map, numbered]
  | appendRoot op scope =>
    change (((PlanTables.appendRoot op scope).run plan.tables).2, calls.map Call.cut ++
      [Call.appendRoot op scope ((PlanTables.appendRoot op scope).run plan.tables).1]) =
        ((plan.answer (plan.appendRoot op scope)).2.tables,
          (calls ++ [Call.appendRoot op scope (plan.answer (plan.appendRoot op scope)).1]).map Call.cut)
    rw [appendRoot_tables, List.map_append]
    cases plan.appendRoot op scope with
    | error refusal => rfl
    | ok grown => simp [inTables, answer, Call.cut, Except.map, numbered]
  | release =>
    change (plan.tables.release, calls.map Call.cut ++ [Call.release]) =
      (plan.release.tables, (calls ++ [Call.release]).map Call.cut)
    rw [release_tables, List.map_append]
    rfl

theorem served_tables (cyclic : List (Nat × Nat) → Bool) (schema : Option Schema) (demands : List Demand) :
    (PlanTables.accumulator cyclic).served (.empty schema) demands =
      ((accumulator.served (.empty schema) demands).1.tables, (accumulator.served (.empty schema) demands).2.map Call.cut) := by
  induction demands using List.reverseRecOn with
  | nil => rfl
  | append_singleton demands demand step =>
    rw [served_snoc, served_snoc, step]
    exact serve_tables _ _ demand

/-- Ids are below the number of nodes that have been entered. -/
structure Numbered (history : PlanGraph × List Call) : Prop where
  size : history.1.size ≤ (entered history.2).length
  below : ∀ entry ∈ entered history.2, ∃ index : Nat, entry.1 = index ∧ index < (entered history.2).length

theorem Numbered.refused (numbered : Numbered (plan, calls)) {call : Call} (vain : call.entered? = none) {after : PlanGraph}
    (less : after.size ≤ plan.size) : Numbered (after, calls ++ [call]) := by
  refine ⟨?_, ?_⟩
  · rw [entered_vain vain]
    exact Nat.le_trans less numbered.size
  · rw [entered_vain vain]
    exact numbered.below

theorem Numbered.grown (numbered : Numbered (plan, calls)) {call : Call} {op : NodeOp Int}
    (enters : call.entered? = some ((plan.size : Int), op)) {after : PlanGraph} (size : after.size = plan.size + 1) :
    Numbered (after, calls ++ [call]) := by
  have more : entered (calls ++ [call]) = entered calls ++ [((plan.size : Int), op)] := by
    rw [entered_snoc, enters, Option.toList_some]
  have before := numbered.size
  refine ⟨?_, ?_⟩
  · rw [more, List.length_append, List.length_singleton, size]
    exact Nat.succ_le_succ before
  · rw [more, List.length_append, List.length_singleton]
    intro entry member
    rcases List.mem_append.mp member with old | new
    · obtain ⟨index, same, below⟩ := numbered.below entry old
      exact ⟨index, same, Nat.lt_succ_of_lt below⟩
    · cases List.mem_singleton.mp new
      exact ⟨plan.size, rfl, Nat.lt_succ_of_le before⟩

theorem Numbered.answer (numbered : Numbered (plan, calls)) {op : NodeOp Int}
    {ground : Except Refusal (List Nat × List Identifier)} {result : Except Refusal (Nat × PlanGraph)}
    (call : Except Refusal Int → Call) (appends : plan.Appends op ground result)
    (enters : ∀ id, (call (.ok id)).entered? = some (id, op))
    (vain : ∀ refusal, (call (.error refusal)).entered? = none) :
    Numbered ((plan.answer result).2, calls ++ [call (plan.answer result).1]) := by
  cases appends with
  | grown => exact numbered.grown (enters _) (size_grow _ _)
  | _ => exact numbered.refused (vain _) (Nat.le_refl _)

theorem served_numbered (schema : Option Schema) (demands : List Demand) :
    Numbered (accumulator.served (.empty schema) demands) := by
  induction demands using List.reverseRecOn with
  | nil => exact ⟨Nat.le_refl 0, List.forall_mem_nil _⟩
  | append_singleton demands demand step =>
    rw [served_snoc]
    cases demand with
    | append op asked => exact step.answer (.append op asked) (append_appends asked) (fun _ => rfl) fun _ => rfl
    | appendRoot op scope =>
      exact step.answer (.appendRoot op scope) (appendRoot_appends scope) (fun _ => rfl) fun _ => rfl
    | release => exact step.refused rfl (Nat.zero_le _)

/-- Nothing is cut where 32 bits can hold all ids. -/
theorem Numbered.uncut {history : PlanGraph × List Call} (numbered : Numbered history)
    (few : (entered history.2).length ≤ 2 ^ 31) : history.2.map Call.cut = history.2 := by
  have same {call : Call} (member : call ∈ history.2) {id : Int} {op : NodeOp Int} (enters : call.entered? = some (id, op)) :
      (Int32.ofInt id).toInt = id := by
    obtain ⟨index, rfl, below⟩ := numbered.below (id, op) (List.mem_filterMap.mpr ⟨call, member, enters⟩)
    rw [Int32.ofInt_eq_ofNat]
    exact asId_eq (Nat.lt_of_lt_of_le below few)
  refine (List.map_congr_left fun call member => ?_).trans (List.map_id _)
  cases call with
  | append op asked answer =>
    cases answer with
    | error refusal => rfl
    | ok id => exact congrArg (fun id => Call.append op asked (.ok id)) (same member rfl)
  | appendRoot op scope answer =>
    cases answer with
    | error refusal => rfl
    | ok id => exact congrArg (fun id => Call.appendRoot op scope (.ok id)) (same member rfl)
  | _ => rfl

/-- The tables of a plan tell what the plan does, of nodes that 32 bits can number. -/
structure Agrees (tables : PlanTables) (plan : PlanGraph) : Prop where
  node : ∀ id, tables.node? id = (plan.node? id).map PlanNode.op
  children : ∀ id : Nat, id < UInt32.size → tables.children id = (plan.children id).map fun child : Nat => (child : Int)
  parents : ∀ id : Nat, id < UInt32.size → tables.parents id = (plan.parents id).map fun parent : Nat => (parent : Int)
  text : tables.text = plan.text

theorem agrees_tables (few : plan.size ≤ 2 ^ 31) (inStep : plan.tables.InStep) : Agrees plan.tables plan where
  node := node?_tables
  children _ small := children_tables few small
  parents _ small := parents_tables few (fun parent child edge => (inStep.forward parent child (edge_tables.mpr edge)).1) small
  text := text_tables few

/-! What all that means for layout. -/

/-- A node is below a node that nothing is above. -/
theorem Accepted.exists_top {root : Nat} (accepted : plan.Accepted root)
    (forward : ∀ {parent id}, plan.Child parent id → parent < id) (inside : id < plan.size) :
    ∃ top, (top = root ∨ ∃ apply, plan.Names apply top) ∧ plan.Descends top id := by
  induction id using Nat.strongRecOn with
  | _ id step =>
    by_cases tops : id = root ∨ ∃ apply, plan.Names apply id
    · exact ⟨id, tops, .refl⟩
    · rw [not_or] at tops
      obtain ⟨parent, edge⟩ := accepted.exists_child inside tops.1 tops.2
      have before := forward edge
      obtain ⟨top, tops, descends⟩ := step parent before (Nat.lt_trans before inside)
      exact ⟨top, tops, descends.tail edge⟩

/-- From the roots of a plan that has been laid out all its nodes are found along children. -/
def Reached (physical : PhysicalPlan) : Prop :=
  ∀ node ∈ physical.nodes, ∃ top ∈ physical.root :: physical.subRoots, physical.Descends top node.id

variable {workers servers : UInt32} {physical : PhysicalPlan}

theorem reached_of_byRoots (inStep : plan.tables.InStep)
    (laid : PhysicalPlan.layOutByRoots plan workers servers = .ok physical) : Reached physical := by
  obtain ⟨root, subRoots, accepted, _, named, rfl⟩ := PhysicalPlan.layout_of_byRoots laid
  intro node member
  obtain ⟨id, inside, same⟩ := PhysicalPlan.mem_layOut member
  have forward {parent id : Nat} (edge : plan.Child parent id) : parent < id :=
    (inStep.forward parent id (edge_tables.mpr edge)).1
  obtain ⟨top, tops, descends⟩ := accepted.exists_top forward inside
  refine ⟨Int32.ofNat top, ?_, same ▸ PhysicalPlan.descends_layOut forward descends⟩
  rcases tops with main | sub
  · exact main ▸ List.mem_cons_self
  · exact List.mem_cons_of_mem _ ((PhysicalPlan.mem_subRoots named).mpr ⟨top, sub, rfl⟩)

/-- A layout that fails for other reasons than its guards against broken plans. -/
theorem unguarded (acyclic : cyclic plan.tables.edges = false) (workers servers : UInt32) :
    Fails (PhysicalPlan.ofTables cyclic plan.tables workers servers) fun fault =>
      fault ≠ .cyclic ∧ ∀ node, fault ≠ .missingNode node := by
  rw [PhysicalPlan.ofTables_eq, acyclic, if_neg Bool.false_ne_true]
  split
  · exact .error ⟨nofun, nofun⟩
  split
  · exact .error ⟨nofun, nofun⟩
  split
  · refine .bind (.mapM fun entry _ => ?_) fun targets => ?_
    · unfold subRootAt
      split
      · split
        · exact .error ⟨nofun, nofun⟩
        · split
          · exact .ok _
          · exact .error ⟨nofun, nofun⟩
      · exact .ok _
    · unfold PhysicalPlan.layOutFrom
      split
      · exact .error ⟨nofun, nofun⟩
      · exact .ok _
      · exact .error ⟨nofun, nofun⟩
  · exact .error ⟨nofun, nofun⟩

end PlanGraph

namespace PlanTables

open Accumulator

/-- Tables and the calls that made them, beside a plan whose nodes hold all that belongs to them and the calls that made
that. Only where 32 bits cannot hold the ids do they differ. -/
structure Refines (history : PlanTables × List Call) (plain : PlanGraph × List Call) : Prop where
  tables : history.1 = plain.1.tables
  calls : history.2 = plain.2.map Call.cut
  uncut : (entered plain.2).length ≤ 2 ^ 31 → history.2 = plain.2
  agrees : plain.1.size ≤ 2 ^ 31 → PlanGraph.Agrees history.1 plain.1
  bytes : ∀ workers servers, history.1.bytes hasCycle workers servers = plain.1.bytes workers servers

/-- Tables and the record of the calls that made them, as they are at any time. -/
structure Consistent (cyclic : List (Nat × Nat) → Bool) (demands : List Demand) (history : PlanTables × List Call) : Prop where
  documented : Documented demands history
  inStep : history.1.InStep
  /-- There are never more nodes in a graph than words can count. -/
  mirrored : history.1.size ≤ UInt32.size → ∀ parent child : Int32,
    (history.1.children parent.toInt).count child.toInt = (history.1.parents child.toInt).count parent.toInt
  acyclic : ∀ index, ¬ TransGen (Edge history.1.edges) index index
  /-- Neither a cycle nor a missing node ever keeps the plan from being laid out. -/
  unguarded : ∀ workers servers, Fails (PhysicalPlan.ofTables cyclic history.1 workers servers) fun fault =>
    fault ≠ .cyclic ∧ ∀ node, fault ≠ .missingNode node
  reached : ∀ workers servers physical,
    PhysicalPlan.ofTables cyclic history.1 workers servers = .ok physical → PlanGraph.Reached physical

theorem served_refines (cyclic : List (Nat × Nat) → Bool) (schema : Option Schema) (demands : List Demand) :
    Refines ((accumulator cyclic).served (.empty schema) demands)
      (PlanGraph.accumulator.served (.empty schema) demands) := by
  have inStep := served_inStep cyclic schema demands
  rw [PlanGraph.served_tables] at inStep ⊢
  exact ⟨rfl, rfl, (PlanGraph.served_numbered schema demands).uncut, fun few => PlanGraph.agrees_tables few inStep,
    fun _ _ => rfl⟩

/-- Whatever is demanded of a plan, all its tables stay in step with what it has accepted, and tell what a plan tells whose
nodes hold all that belongs to them. -/
theorem histories_consistent (cyclic : List (Nat × Nat) → Bool)
    (finds : ∀ edges, cyclic edges = true → ∃ index, TransGen (Edge edges) index index) (schema : Option Schema)
    (demands : List Demand) : Consistent cyclic demands ((accumulator cyclic).served (.empty schema) demands) ∧
      Refines ((accumulator cyclic).served (.empty schema) demands)
        (PlanGraph.accumulator.served (.empty schema) demands) := by
  have refines := served_refines cyclic schema demands
  have documented := served_documented cyclic schema demands
  have inStep := served_inStep cyclic schema demands
  generalize (accumulator cyclic).served (.empty schema) demands = history at refines documented inStep ⊢
  have unfound : cyclic history.1.edges = false := by
    by_contra found
    obtain ⟨index, way⟩ := finds _ (Bool.not_eq_false _ ▸ found)
    exact inStep.acyclic index way
  refine ⟨⟨documented, inStep, fun few => count_mirrored fun edge member => ?_, inStep.acyclic, ?_, ?_⟩, refines⟩
  · have forward := inStep.forward edge.1 edge.2 member
    omega
  · rw [refines.tables] at unfound ⊢
    exact PlanGraph.unguarded unfound
  · rw [refines.tables] at inStep ⊢
    exact fun _ _ _ laid => PlanGraph.reached_of_byRoots inStep (PhysicalPlan.ofTables_eq_ok.mp laid).2.2

/-- A scan and a step from it, which bind the same tag, a reference to a tag that nothing binds, a root in the scope of the
step, an apply of the root's plan, and a node under a parent that is not there. -/
def hesitant : List Demand :=
  let read : TableRead := { tables := [], columns := [], limit := none, predicate := none }
  [.append (.scan .vertex (some (.name "a")) read none) [],
    .append (.edge .outgoing read false (some (.name "a"))) [0],
    .append (.dedup [.ofTag (.name "b")]) [1],
    .appendRoot (.vertex .start none) 1,
    .append (.apply .semi 2 none) [1],
    .append (.vertex .finish none) [7]]

theorem hesitant_consistent :
    let history := (accumulator hasCycle).served (.empty none) hesitant
    (∀ edges, hasCycle edges = true → ∃ index, TransGen (Edge edges) index index) ∧
    Consistent hasCycle hesitant history ∧ Refines history (PlanGraph.accumulator.served (.empty none) hesitant) ∧
    (entered history.2).map Prod.fst = [0, 1, 2, 3] ∧ history.1.edges = [(0, 1), (1, 3)] ∧
    history.1.scopes = List.replicate 4 [.name "a"] ∧ history.1.tagNode? (.name "a") = some 1 ∧
    ∃ physical, PhysicalPlan.ofTables hasCycle history.1 1 1 = .ok physical ∧
      physical.root = 0 ∧ physical.subRoots = [2] := by
  have finds (edges : List (Nat × Nat)) : hasCycle edges = true → _ := hasCycle_iff.mp
  obtain ⟨consistent, refines⟩ := histories_consistent hasCycle finds none hesitant
  exact ⟨finds, consistent, refines, rfl, rfl, rfl, rfl, _, rfl, rfl, rfl⟩

end PlanTables

end TraversalPlanner
