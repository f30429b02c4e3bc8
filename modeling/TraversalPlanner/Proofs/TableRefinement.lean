import TraversalPlanner.Proofs.TableGrowth

/-! Plans in tables and plans whose nodes hold all that belongs to them. As long as 32 bits can number the nodes, both tell
the same of them; and whatever is appended, tables that say the same before say the same afterwards. -/

namespace TraversalPlanner

namespace PlanTables

/-- Below this number ids are the indices themselves. -/
theorem asId_eq {index : Nat} (small : index < 2 ^ 31) : asId index = index := Int32.toInt_ofNat_of_lt small

theorem lt_wordSize {index : Nat} (small : index < 2 ^ 31) : index < UInt32.size :=
  Nat.lt_trans small (show 2 ^ 31 < UInt32.size by decide)

theorem asIndex_natCast {index : Nat} (small : index < UInt32.size) : asIndex index = index := by
  have words : UInt32.size = 2 ^ 32 := rfl
  rw [asIndex, UInt32.ofInt, UInt32.toNat_ofNat_of_lt'] <;> omega

end PlanTables

namespace PlanGraph

open PlanTables

variable {plan : PlanGraph} {op : NodeOp Int} {parents : List Nat} {visible : List Identifier} {id : Nat}

/-! Sorted lists. -/

section Sorted

variable {ι κ : Type} [LE ι] [DecidableLE ι] [LE κ] [DecidableLE κ]

theorem insertSorted_ne_nil (id : ι) (ids : List ι) : insertSorted id ids ≠ [] := by
  cases ids with
  | nil => simp [insertSorted]
  | cons head rest =>
    unfold insertSorted
    split <;> simp

theorem sorted_isEmpty (ids : List ι) : (ids.foldr insertSorted []).isEmpty = ids.isEmpty := by
  cases ids with
  | nil => rfl
  | cons first rest => exact List.isEmpty_eq_false_iff.mpr (insertSorted_ne_nil first _)

theorem sorted_eq {ids : List ι} (ascending : ids.Pairwise (· ≤ ·)) : ids.foldr insertSorted [] = ids := by
  induction ascending with
  | nil => rfl
  | @cons first rest before _ step =>
    rw [List.foldr_cons, step]
    cases rest with
    | nil => rfl
    | cons second rest => exact if_pos (before second List.mem_cons_self)

theorem map_sorted {f : ι → κ} (monotone : ∀ id other, f id ≤ f other ↔ id ≤ other) (ids : List ι) :
    (ids.foldr insertSorted []).map f = (ids.map f).foldr insertSorted [] := by
  have inserted (id : ι) (others : List ι) : (insertSorted id others).map f = insertSorted (f id) (others.map f) := by
    induction others with
    | nil => rfl
    | cons head rest step =>
      rw [insertSorted, List.map_cons, insertSorted]
      by_cases before : id ≤ head
      · rw [if_pos before, if_pos ((monotone id head).mpr before)]
        rfl
      · rw [if_neg before, if_neg fun again => before ((monotone id head).mp again), List.map_cons, step]
  induction ids with
  | nil => rfl
  | cons first rest step => rw [List.foldr_cons, inserted, step, List.map_cons, List.foldr_cons]

end Sorted

/-! What the tables of a plan tell. -/

@[simp] theorem size_tables : plan.tables.size = plan.size := List.length_map _

@[simp] theorem isEmpty_tables : plan.tables.isEmpty = plan.isEmpty := List.isEmpty_map

theorem node?_tables (id : Int) : plan.tables.node? id = (plan.node? id).map PlanNode.op := by
  unfold PlanTables.node? PlanGraph.node?
  split
  · rfl
  · exact List.getElem?_map

theorem edge_tables {parent child : Nat} : Edge plan.tables.edges parent child ↔ plan.Child parent child := by
  simp only [Edge, tables, List.mem_flatMap, List.mem_map, Prod.mk.injEq, Prod.exists]
  constructor
  · intro edge
    obtain ⟨node, place, entry, _, listed, rfl, rfl⟩ := edge
    exact ⟨node, List.mk_mem_zipIdx_iff_getElem?.mp entry, listed⟩
  · intro edge
    obtain ⟨node, found, listed⟩ := edge
    exact ⟨node, child, List.mk_mem_zipIdx_iff_getElem?.mpr found, parent, listed, rfl, rfl⟩

theorem children_ascending (id : Int) : (plan.children id).Pairwise (· ≤ ·) := by
  unfold children
  rw [List.pairwise_flatMap]
  refine ⟨fun entry _ => List.pairwise_replicate.mpr (.inr (Nat.le_refl _)), (zipIdx_pairwise plan.nodes).imp ?_⟩
  intro entry other apart child listed later again
  rw [List.eq_of_mem_replicate listed, List.eq_of_mem_replicate again]
  exact Nat.le_of_lt apart

theorem lt_size_of_mem_children {child : Nat} (listed : child ∈ plan.children id) : child < plan.size := by
  obtain ⟨_, found, _⟩ := mem_children.mp listed
  exact (List.getElem?_eq_some_iff.mp found).1

private theorem edges_from (id : Nat) : (plan.tables.edges.filter (·.1 = id)).map (fun edge => asId edge.2) =
    (plan.children id).map asId := by
  have each (node : PlanNode) (child : Nat) :
      ((node.parents.map fun parent => (parent, child)).filter fun edge => edge.1 = id).map (fun edge => asId edge.2) =
        (List.replicate (node.parents.countP fun parent : Nat => (parent : Int) = id) child).map asId := by
    rw [List.filter_map, List.map_map, List.map_replicate, List.countP_eq_length_filter]
    simp only [Int.natCast_inj, Function.comp_def, List.map_const']
  unfold tables children
  rw [List.filter_flatMap, List.map_flatMap, List.map_flatMap]
  exact congrArg (List.flatMap · _) (funext fun entry => each entry.1 entry.2)

theorem children_tables (few : plan.size ≤ 2 ^ 31) (small : id < UInt32.size) :
    plan.tables.children id = (plan.children id).map fun child : Nat => (child : Int) := by
  have ids : (plan.children id).map asId = (plan.children id).map fun child : Nat => (child : Int) :=
    List.map_congr_left fun child listed => asId_eq (Nat.lt_of_lt_of_le (lt_size_of_mem_children listed) few)
  rw [PlanTables.children, asIndex_natCast small, edges_from, ids]
  exact sorted_eq (List.pairwise_map.mpr ((children_ascending id).imp Int.ofNat_le.mpr))

private theorem flatMap_place {α β : Type} (f : α → List β) (items : List α) (place : Nat) :
    (items.zipIdx.flatMap fun entry => if entry.2 = place then f entry.1 else []) = (items[place]?.map f).getD [] := by
  induction items using List.reverseRecOn with
  | nil => rfl
  | append_singleton items item step =>
    rw [List.zipIdx_append, List.flatMap_append, step, List.getElem?_append]
    simp only [List.zipIdx_singleton, List.flatMap_singleton, Nat.zero_add, List.getElem?_singleton]
    by_cases inside : place < items.length
    · rw [if_neg (Nat.ne_of_gt inside), if_pos inside, List.append_nil]
    · have last : place - items.length = 0 ↔ items.length = place := by omega
      rw [List.getElem?_eq_none (Nat.le_of_not_lt inside), if_neg inside]
      simp only [last]
      split <;> rfl

private theorem edges_to (id : Nat) : (plan.tables.edges.filter (·.2 = id)).map (fun edge => asId edge.1) =
    ((plan.nodes[id]?.map PlanNode.parents).getD []).map asId := by
  have each (node : PlanNode) (child : Nat) :
      ((node.parents.map fun parent => (parent, child)).filter fun edge => edge.2 = id).map (fun edge => asId edge.1) =
        (if child = id then node.parents else []).map asId := by
    rw [List.filter_map, List.map_map]
    by_cases same : child = id
    · simp [same, Function.comp_def]
    · simp [same, Function.comp_def]
  rw [← flatMap_place]
  unfold tables
  rw [List.filter_flatMap, List.map_flatMap, List.map_flatMap]
  exact congrArg (List.flatMap · _) (funext fun entry => each entry.1 entry.2)

theorem parents_natCast (id : Nat) : plan.parents id =
    ((plan.nodes[id]?.map PlanNode.parents).getD []).foldr insertSorted [] := by
  unfold PlanGraph.parents PlanGraph.node?
  rw [if_neg (by omega), Int.toNat_natCast]
  cases plan.nodes[id]? <;> rfl

theorem parents_tables_isEmpty (small : id < UInt32.size) :
    (plan.tables.parents id).isEmpty = (plan.parents id).isEmpty := by
  rw [PlanTables.parents, asIndex_natCast small, edges_to, sorted_isEmpty, parents_natCast, sorted_isEmpty, List.isEmpty_map]

theorem parents_tables (few : plan.size ≤ 2 ^ 31) (forward : ∀ parent child, plan.Child parent child → parent < child)
    (small : id < UInt32.size) : plan.tables.parents id = (plan.parents id).map fun parent : Nat => (parent : Int) := by
  have ids : ((plan.nodes[id]?.map PlanNode.parents).getD []).map asId =
      ((plan.nodes[id]?.map PlanNode.parents).getD []).map fun parent : Nat => (parent : Int) := by
    refine List.map_congr_left fun parent listed => asId_eq ?_
    cases found : plan.nodes[id]? with
    | none => simp [found] at listed
    | some node =>
      have before := forward parent id ⟨node, found, by simpa [found] using listed⟩
      have inside : id < plan.size := (List.getElem?_eq_some_iff.mp found).1
      omega
  rw [PlanTables.parents, asIndex_natCast small, edges_to, ids, parents_natCast]
  exact (map_sorted (fun _ _ => Int.ofNat_le) _).symm

/-! Appending. -/

theorem resolve_tables (parent : Int) : plan.tables.resolve parent = plan.resolve parent := by
  unfold PlanTables.resolve PlanGraph.resolve
  rw [size_tables]
  split
  · rfl
  · rw [← ite_not]
    simp only [Nat.not_le]

theorem visibleUnder_tables (inside : ∀ parent ∈ parents, parent < plan.size) :
    plan.tables.visibleUnder parents = plan.visibleUnder parents := by
  have scopes : parents.filterMap (fun parent : Nat => plan.tables.scopes[parent]?) = parents.map plan.visibleAt := by
    rw [← List.filterMap_eq_map]
    refine List.filterMap_congr fun parent member => ?_
    obtain ⟨node, there⟩ : ∃ node, plan.nodes[parent]? = some node := ⟨_, List.getElem?_eq_getElem (inside parent member)⟩
    simp only [tables, List.getElem?_map, Function.comp, visibleAt, there, Option.map_some, Option.getD_some]
  unfold PlanTables.visibleUnder
  rw [scopes]
  cases parents with
  | nil => rfl
  | cons first rest => exact List.foldl_map

theorem ground_tables (asked : List Int) : plan.tables.ground asked = plan.ground asked := by
  have resolved : plan.tables.resolveAll asked = plan.resolveAll asked := by
    have each : plan.tables.resolve = plan.resolve := funext resolve_tables
    unfold PlanTables.resolveAll PlanGraph.resolveAll
    rw [isEmpty_tables, each]
  unfold PlanTables.ground PlanGraph.ground
  rw [resolved]
  cases found : plan.resolveAll asked with
  | error refusal => rfl
  | ok parents =>
    change Except.ok (parents, plan.tables.visibleUnder parents) = _
    rw [visibleUnder_tables (resolveAll_eq_ok found).1]
    rfl

theorem groundRoot_tables (scope : Int) : plan.tables.groundRoot scope = plan.groundRoot scope := by
  unfold PlanTables.groundRoot PlanGraph.groundRoot tables
  rw [List.getElem?_map]
  cases plan.nodes[scope.toNat]? <;> rfl

theorem grow_tables : plan.tables.grow op parents visible = (plan.grow op parents visible).tables := by
  have bound (tags : List Identifier) (binders : List (Identifier × Nat)) :
      tags.foldl (fun tags tag => (tag, asId plan.size) :: tags.filter fun entry => entry.1 ≠ tag)
          (binders.map fun entry => (entry.1, asId entry.2)) =
        (tags.foldl (fun binders tag => (tag, plan.size) :: binders.filter fun entry => entry.1 ≠ tag) binders).map
          fun entry => (entry.1, asId entry.2) := by
    induction tags generalizing binders with
    | nil => rfl
    | cons tag tags step =>
      rw [List.foldl_cons, List.foldl_cons, ← step, List.map_cons, List.filter_map]
      rfl
  unfold PlanTables.grow PlanGraph.grow
  rw [size_tables]
  simp only [tables, bindTags, List.map_append, List.map_singleton, List.zipIdx_append, List.flatMap_append, PlanTables.mk.injEq,
    true_and, and_true, List.append_cancel_left_eq]
  refine ⟨?_, bound op.bindings plan.binders⟩
  simp [size]

/-- What an append comes to, with the plan in tables and the node under its id. -/
def inTables (plan : PlanGraph) : Except Refusal (Nat × PlanGraph) → Except Refusal Int × PlanTables
  | .ok (index, after) => (.ok (asId index), after.tables)
  | .error refusal => (.error refusal, plan.tables)

private theorem insert_tables : plan.tables.settle op (vetted plan.schema op (.ok (parents, visible))) =
    plan.inTables (plan.insert op parents visible) := by
  have checked : vetted plan.schema op (.ok (parents, visible)) = (plan.checkSchema op >>= fun _ =>
    PlanGraph.checkTags visible op >>= fun _ => pure (parents, visible)) := rfl
  rw [checked, PlanGraph.insert]
  cases plan.checkSchema op with
  | error refusal => rfl
  | ok _ =>
    cases PlanGraph.checkTags visible op with
    | error refusal => rfl
    | ok _ =>
      change (Except.ok (asId plan.tables.size), plan.tables.grow op parents visible) = _
      rw [grow_tables, size_tables]
      rfl

theorem append_tables (asked : List Int) :
    (PlanTables.append op asked).run plan.tables = plan.inTables (plan.append op asked) := by
  rw [run_append, ground_tables, PlanGraph.append]
  change (if plan.released then _ else plan.tables.settle op (vetted plan.schema op _)) = _
  split
  · rfl
  · cases resolved : plan.resolveAll asked with
    | error refusal =>
      rw [ground_eq_error.mpr resolved]
      rfl
    | ok parents =>
      rw [ground_eq_ok.mpr ⟨resolved, rfl⟩]
      exact insert_tables

theorem appendRoot_tables (scope : Int) :
    (PlanTables.appendRoot op scope).run plan.tables = plan.inTables (plan.appendRoot op scope) := by
  rw [run_appendRoot, groundRoot_tables, PlanGraph.appendRoot, groundRoot]
  change (if plan.released then _ else plan.tables.settle op (vetted plan.schema op _)) = _
  split
  · rfl
  · by_cases outside : scope < 0
    · simp only [outside, if_true]
      exact insert_tables
    · simp only [outside, if_false]
      cases plan.nodes[scope.toNat]? with
      | none => rfl
      | some node => exact insert_tables

theorem release_tables : plan.tables.release = plan.release.tables := rfl

theorem text_tables (few : plan.size ≤ 2 ^ 31) : plan.tables.text = plan.text := by
  have same : plan.tables.toJson = plan.toJson := by
    unfold PlanTables.toJson PlanGraph.toJson Json.ofList
    change Json.object [("nodes", .array ((plan.nodes.map PlanNode.op).zipIdx.map _))] = _
    rw [List.zipIdx_map, List.map_map]
    refine congrArg (fun nodes => Json.object [("nodes", .array nodes)]) (List.map_congr_left fun (node, id) entry => ?_)
    have inside : id < plan.size := (List.getElem?_eq_some_iff.mp (List.mk_mem_zipIdx_iff_getElem?.mp entry)).1
    have small : id < 2 ^ 31 := Nat.lt_of_lt_of_le inside few
    simp only [Function.comp, Prod.map, id_eq, asId_eq small]
    rw [children_tables few (lt_wordSize small), List.map_map]
    rfl
  unfold PlanTables.text PlanGraph.text
  rw [same]
  rfl

end PlanGraph

end TraversalPlanner
