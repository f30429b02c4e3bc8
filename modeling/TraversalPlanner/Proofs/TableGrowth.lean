import Mathlib.Order.Bounds.Defs
import TraversalPlanner.Proofs.Cycles
import TraversalPlanner.Proofs.GraphGrowth

/-! How plans in tables grow. All tables get something with each node that is accepted and nothing with one that is
refused, and so they stay in step: to each node belongs one set of visible tags, edges lead from earlier nodes to later
ones, and the table of tags knows the last node that binds a tag. -/

namespace TraversalPlanner.PlanTables

open Relation

variable {tables : PlanTables} {op : NodeOp Int} {parents : List Nat} {visible : List Identifier} {tag : Identifier}
  {index : Nat}

/-- The tables with one more node, which sees the given tags before it binds its own. -/
def grow (tables : PlanTables) (op : NodeOp Int) (parents : List Nat) (visible : List Identifier) : PlanTables :=
  { tables with
    ops := tables.ops ++ [op]
    edges := tables.edges ++ parents.map fun parent => (parent, tables.size)
    tags := op.bindings.foldl (fun tags tag => (tag, asId tables.size) :: tags.filter fun entry => entry.1 ≠ tag)
      tables.tags
    scopes := tables.scopes ++ [op.bindings.foldl (fun seen tag => seen.insert tag) visible] }

@[simp] theorem size_grow : (tables.grow op parents visible).size = tables.size + 1 := List.length_append

/-! What the changes come to. -/

theorem run_addEdges (child : Nat) : (parents.forM fun parent => addEdge parent child).run tables =
    (.ok ⟨⟩, { tables with edges := tables.edges ++ parents.map fun parent => (parent, child) }) := by
  induction parents generalizing tables with
  | nil =>
    rw [List.map_nil, List.append_nil]
    rfl
  | cons parent parents later =>
    change (parents.forM fun parent => addEdge parent child).run
      { tables with edges := tables.edges ++ [(parent, child)] } = _
    rw [later, List.append_assoc]
    rfl

theorem run_bindTags (id : Int) (tags : List Identifier) : (tags.forM (bindTag id)).run tables =
    (.ok ⟨⟩, { tables with
      tags := tags.foldl (fun tags tag => (tag, id) :: tags.filter fun entry => entry.1 ≠ tag) tables.tags }) := by
  induction tags generalizing tables with
  | nil => rfl
  | cons tag tags later =>
    change (tags.forM (bindTag id)).run
      { tables with tags := (tag, id) :: tables.tags.filter fun entry => entry.1 ≠ tag } = _
    rw [later]
    rfl

theorem run_bind {α β : Type} (first : Growing α) (next : α → Growing β) : (first >>= next).run tables =
    match first.run tables with
    | (.ok value, after) => (next value).run after
    | (.error refusal, after) => (.error refusal, after) := by
  change ExceptT.bindCont next (first.run tables).1 (first.run tables).2 = _
  rcases first.run tables with ⟨refusal | value, after⟩ <;> rfl

/-- All the changes of an append, once it has passed the checks. -/
theorem run_changes : (do
      let index ← addNode op
      parents.forM fun parent => addEdge parent index
      op.bindings.forM (bindTag (asId index))
      addScope (op.bindings.foldl (fun seen tag => seen.insert tag) visible)
      return asId index : Growing Int).run tables =
    (.ok (asId tables.size), tables.grow op parents visible) := by
  rw [run_bind]
  change (do
    parents.forM fun parent => addEdge parent tables.size
    op.bindings.forM (bindTag (asId tables.size))
    addScope (op.bindings.foldl (fun seen tag => seen.insert tag) visible)
    return asId tables.size : Growing Int).run { tables with ops := tables.ops ++ [op] } = _
  rw [run_bind, run_addEdges]
  change (do
    op.bindings.forM (bindTag (asId tables.size))
    addScope (op.bindings.foldl (fun seen tag => seen.insert tag) visible)
    return asId tables.size : Growing Int).run _ = _
  rw [run_bind, run_bindTags]
  rfl

/-! What a node comes to stand on, and what is checked before it does. -/

def ground (tables : PlanTables) (asked : List Int) : Except Refusal (List Nat × List Identifier) :=
  (tables.resolveAll asked).map fun parents => (parents, tables.visibleUnder parents)

def groundRoot (tables : PlanTables) (scope : Int) : Except Refusal (List Nat × List Identifier) :=
  if scope < 0 then .ok ([], [])
  else match tables.scopes[scope.toNat]? with
    | some visible => .ok ([], visible)
    | none => .error .parentNotFound

/-- Passes the ground on if nothing speaks against a node on it. -/
def vetted (schema : Option Schema) (op : NodeOp Int) (ground : Except Refusal (List Nat × List Identifier)) :
    Except Refusal (List Nat × List Identifier) := do
  let (parents, visible) ← ground
  PlanGraph.checkAgainst schema op
  PlanGraph.checkTags visible op
  return (parents, visible)

/-- The answer to an append, and the tables behind it. -/
def settle (tables : PlanTables) (op : NodeOp Int) : Except Refusal (List Nat × List Identifier) →
    Except Refusal Int × PlanTables
  | .ok (parents, visible) => (.ok (asId tables.size), tables.grow op parents visible)
  | .error refusal => (.error refusal, tables)

theorem run_insert : (insert op parents visible).run tables =
    tables.settle op (vetted tables.schema op (.ok (parents, visible))) := by
  have checked : vetted tables.schema op (.ok (parents, visible)) = (PlanGraph.checkAgainst tables.schema op >>= fun _ =>
    PlanGraph.checkTags visible op >>= fun _ => pure (parents, visible)) := rfl
  have start : (insert op parents visible).run tables = (do
      PlanGraph.checkAgainst tables.schema op
      PlanGraph.checkTags visible op
      let index ← addNode op
      parents.forM fun parent => addEdge parent index
      op.bindings.forM (bindTag (asId index))
      addScope (op.bindings.foldl (fun seen tag => seen.insert tag) visible)
      return asId index : Growing Int).run tables := rfl
  rw [checked, start]
  cases PlanGraph.checkAgainst tables.schema op with
  | error refusal => rfl
  | ok _ =>
    cases PlanGraph.checkTags visible op with
    | error refusal => rfl
    | ok _ => exact @run_changes tables op parents visible

theorem run_append (asked : List Int) : (append op asked).run tables =
    if tables.released then (.error .planReleased, tables)
    else tables.settle op (vetted tables.schema op (tables.ground asked)) := by
  change (if tables.released then (throw .planReleased >>= fun _ : PUnit => _)
    else tables.resolveAll asked >>= fun parents => insert op parents (tables.visibleUnder parents) : Growing Int).run
      tables = _
  cases tables.released with
  | true => rfl
  | false =>
    rw [ground]
    cases tables.resolveAll asked with
    | error refusal => rfl
    | ok parents => exact @run_insert tables op parents _

theorem run_appendRoot (scope : Int) : (appendRoot op scope).run tables =
    if tables.released then (.error .planReleased, tables)
    else tables.settle op (vetted tables.schema op (tables.groundRoot scope)) := by
  unfold appendRoot groundRoot
  change (if tables.released then (throw .planReleased >>= fun _ : PUnit => _) else
    if scope < 0 then insert op [] [] else _ : Growing Int).run tables = _
  cases tables.released with
  | true => rfl
  | false =>
    by_cases outside : scope < 0
    · simp only [outside, if_true]
      exact @run_insert tables op [] []
    · simp only [outside, if_false]
      cases tables.scopes[scope.toNat]? with
      | none => rfl
      | some visible => exact @run_insert tables op [] visible

/-- Nothing, or some of the tags that one of the nodes sees. -/
def Narrowed (tables : PlanTables) (visible : List Identifier) : Prop :=
  visible = [] ∨ ∃ scope ∈ tables.scopes, visible.Sublist scope

theorem narrowing_sublist (scopes : List (List Identifier)) (seen : List Identifier) :
    (scopes.foldl (fun seen scope => seen.filter scope.contains) seen).Sublist seen := by
  induction scopes generalizing seen with
  | nil => exact .refl seen
  | cons scope scopes step => exact (step _).trans List.filter_sublist

theorem narrowed_visibleUnder (parents : List Nat) : tables.Narrowed (tables.visibleUnder parents) := by
  unfold visibleUnder
  cases found : parents.filterMap fun parent : Nat => tables.scopes[parent]? with
  | nil => exact .inl rfl
  | cons first rest =>
    have member : first ∈ parents.filterMap fun parent : Nat => tables.scopes[parent]? := found ▸ List.mem_cons_self
    obtain ⟨parent, _, there⟩ := List.mem_filterMap.mp member
    exact .inr ⟨first, List.mem_of_getElem? there, narrowing_sublist rest first⟩

/-- What a node can come to stand on: nodes that are there, and tags that they see. -/
structure Ground (tables : PlanTables) (parents : List Nat) (visible : List Identifier) : Prop where
  inside : ∀ parent ∈ parents, parent < tables.size
  narrowed : tables.Narrowed visible

theorem resolve_lt {asked : Int} (resolved : tables.resolve asked = .ok index) : index < tables.size := by
  unfold resolve at resolved
  split at resolved
  · cases resolved
  · split at resolved
    · cases resolved
    · next inside =>
      cases resolved
      exact Nat.lt_of_not_le inside

theorem ground_of_ok {asked : List Int} (stands : tables.ground asked = .ok (parents, visible)) :
    tables.Ground parents visible := by
  unfold ground at stands
  cases resolved : tables.resolveAll asked with
  | error refusal =>
    rw [resolved] at stands
    cases stands
  | ok found =>
    rw [resolved] at stands
    cases stands
    refine ⟨fun parent member => ?_, narrowed_visibleUnder parents⟩
    unfold resolveAll at resolved
    split at resolved
    · cases resolved
      exact absurd member List.not_mem_nil
    · obtain ⟨_, _, found⟩ := Proofs.mapM_source resolved member
      exact resolve_lt found

theorem groundRoot_of_ok {scope : Int} (stands : tables.groundRoot scope = .ok (parents, visible)) :
    tables.Ground parents visible := by
  unfold groundRoot at stands
  split at stands
  · cases stands
    exact ⟨List.forall_mem_nil _, .inl rfl⟩
  · split at stands
    · next scope there =>
      cases stands
      exact ⟨List.forall_mem_nil _, .inr ⟨_, List.mem_of_getElem? there, .refl _⟩⟩
    · cases stands

theorem ground_of_vetted {ground : Except Refusal (List Nat × List Identifier)} {schema : Option Schema}
    (admitted : vetted schema op ground = .ok (parents, visible)) : ground = .ok (parents, visible) := by
  obtain ⟨_, stands, checked⟩ := Proofs.bind_eq_ok.mp admitted
  obtain ⟨_, _, checked⟩ := Proofs.bind_eq_ok.mp checked
  obtain ⟨_, _, same⟩ := Proofs.bind_eq_ok.mp checked
  cases same
  exact stands

/-! Tables in step. -/

def BindsTag (tables : PlanTables) (index : Nat) (tag : Identifier) : Prop :=
  ∃ op, tables.ops[index]? = some op ∧ tag ∈ op.bindings

/-- The id of the last node that binds a tag, if there is one. -/
def Latest (tables : PlanTables) (tag : Identifier) : Option Int → Prop
  | some id => ∃ index, IsGreatest {index | tables.BindsTag index tag} index ∧ id = asId index
  | none => ∀ index, ¬ tables.BindsTag index tag

structure InStep (tables : PlanTables) : Prop where
  /-- To each node belongs a list of the tags that are visible there. -/
  paired : tables.scopes.length = tables.ops.length
  /-- The list is a set, and holds what the node binds itself. -/
  seen : ∀ (index : Nat) op visible, tables.ops[index]? = some op → tables.scopes[index]? = some visible →
    visible.Nodup ∧ op.bindings ⊆ visible
  forward : ∀ parent child, Edge tables.edges parent child → parent < child ∧ child < tables.size
  latest : ∀ tag, tables.Latest tag (tables.tagNode? tag)

theorem BindsTag.lt_size (binds : tables.BindsTag index tag) : index < tables.size := by
  obtain ⟨_, found, _⟩ := binds
  exact (List.getElem?_eq_some_iff.mp found).1

theorem bindsTag_grow : (tables.grow op parents visible).BindsTag index tag ↔
    index = tables.size ∧ tag ∈ op.bindings ∨ tables.BindsTag index tag := by
  have unbound : ¬ tables.BindsTag tables.size tag := fun binds => Nat.lt_irrefl _ binds.lt_size
  by_cases new : index = tables.size
  · subst new
    rw [or_iff_left unbound, and_iff_right rfl]
    simp [BindsTag, grow, size]
  · have old : (tables.grow op parents visible).ops[index]? = tables.ops[index]? := by
      simp only [grow, List.getElem?_append, List.getElem?_singleton]
      grind [size]
    simp [BindsTag, old, new]

theorem lookup_bindTags (id : Int) (bound : List Identifier) (tags : List (Identifier × Int)) :
    (bound.foldl (fun tags tag => (tag, id) :: tags.filter fun entry => entry.1 ≠ tag) tags).lookup tag =
      if tag ∈ bound then some id else tags.lookup tag := by
  induction bound generalizing tags with
  | nil => rfl
  | cons first rest step =>
    rw [List.foldl_cons, step]
    by_cases same : tag = first
    · simp [same]
    · have kept : (tags.filter fun entry => entry.1 ≠ first).lookup tag = tags.lookup tag :=
        Proofs.lookup_filter fun _ => decide_eq_true same
      rw [List.lookup_cons, beq_eq_false_iff_ne.mpr same, kept]
      simp only [List.mem_cons, same, false_or]

theorem tagNode?_grow : (tables.grow op parents visible).tagNode? tag =
    if tag ∈ op.bindings then some (asId tables.size) else tables.tagNode? tag :=
  lookup_bindTags (asId tables.size) op.bindings tables.tags

theorem latest_grow (tied : tables.Latest tag (tables.tagNode? tag)) :
    (tables.grow op parents visible).Latest tag ((tables.grow op parents visible).tagNode? tag) := by
  rw [tagNode?_grow]
  by_cases bound : tag ∈ op.bindings
  · rw [if_pos bound]
    refine ⟨tables.size, ⟨bindsTag_grow.mpr (.inl ⟨rfl, bound⟩), fun index binds => ?_⟩, rfl⟩
    rcases bindsTag_grow.mp binds with ⟨new, _⟩ | old
    · exact Nat.le_of_eq new
    · exact Nat.le_of_lt old.lt_size
  · rw [if_neg bound]
    have same (index : Nat) : (tables.grow op parents visible).BindsTag index tag ↔ tables.BindsTag index tag := by
      simp only [bindsTag_grow, bound, and_false, false_or]
    generalize tables.tagNode? tag = known at tied
    cases known with
    | some id =>
      obtain ⟨last, ⟨binds, greatest⟩, numbered⟩ := tied
      exact ⟨last, ⟨(same last).mpr binds, fun index binds => greatest ((same index).mp binds)⟩, numbered⟩
    | none => exact fun index binds => tied index ((same index).mp binds)

theorem Narrowed.nodup (narrowed : tables.Narrowed visible) (inStep : tables.InStep) : visible.Nodup := by
  rcases narrowed with rfl | ⟨scope, member, less⟩
  · exact .nil
  · obtain ⟨index, found⟩ := List.mem_iff_getElem?.mp member
    have inside : index < tables.ops.length := inStep.paired ▸ (List.getElem?_eq_some_iff.mp found).1
    exact less.nodup (inStep.seen index _ scope (List.getElem?_eq_getElem inside) found).1

theorem nodup_insertAll (tags : List Identifier) (distinct : visible.Nodup) :
    (tags.foldl (fun seen tag => seen.insert tag) visible).Nodup := by
  induction tags generalizing visible with
  | nil => exact distinct
  | cons first rest step => exact step distinct.insert

theorem inStep_of_nil (ops : tables.ops = []) (edges : tables.edges = []) (tags : tables.tags = [])
    (scopes : tables.scopes = []) : tables.InStep where
  paired := by simp [ops, scopes]
  seen := by simp [ops]
  forward := by simp [Edge, edges]
  latest := by
    intro tag
    rw [tagNode?, tags]
    intro index binds
    obtain ⟨_, found, _⟩ := binds
    simp [ops] at found

theorem inStep_grow (inStep : tables.InStep) (ground : tables.Ground parents visible) :
    (tables.grow op parents visible).InStep where
  paired := by
    rw [grow, List.length_append, List.length_append, inStep.paired]
    rfl
  seen := by
    intro index op' visible' node scope
    by_cases old : index < tables.ops.length
    · rw [grow, List.getElem?_append_left old] at node
      rw [grow, List.getElem?_append_left (inStep.paired ▸ old)] at scope
      exact inStep.seen index op' visible' node scope
    · -- Both lists have just one more entry.
      have beyond := Nat.le_of_not_lt old
      rw [grow, List.getElem?_append_right beyond] at node
      rw [grow, List.getElem?_append_right (inStep.paired ▸ beyond)] at scope
      cases List.mem_singleton.mp (List.mem_of_getElem? node)
      cases List.mem_singleton.mp (List.mem_of_getElem? scope)
      exact ⟨nodup_insertAll _ (ground.narrowed.nodup inStep), fun tag bound => PlanGraph.mem_insertAll.mpr (.inr bound)⟩
  forward := by
    intro parent child edge
    rw [size_grow]
    rcases List.mem_append.mp edge with old | new
    · have before := inStep.forward parent child old
      omega
    · obtain ⟨_, listed, same⟩ := List.mem_map.mp new
      cases same
      exact ⟨ground.inside parent listed, Nat.lt_succ_self _⟩
  latest := fun tag => latest_grow (inStep.latest tag)

end TraversalPlanner.PlanTables
