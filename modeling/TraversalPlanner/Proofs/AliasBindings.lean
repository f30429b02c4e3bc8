import TraversalPlanner.Proofs.NodeCounts

/-! What becomes of an operator's alias. The table of kinds that carry theirs, the checks of each kind and the tags
that a node binds have to agree: either the operator's own node binds the alias, or it binds nothing and one more node
behind it does. Kinds that name their own results take no alias. -/

namespace TraversalPlanner

/-- Arguments that leave an alias nothing to name. -/
inductive OperatorArguments.Nameless : OperatorArguments → Prop
  | groupBy (keys : Option (List (GroupKey Alias))) (values : Option (List (Aggregation Alias))) :
      Nameless (.groupBy keys values)
  | apply (sub : Option (List Operator)) (subRoot : Option Int32) (join : Option JoinKind) :
      Nameless (.apply sub subRoot join)
  | project {columns : List (Projected Alias)} (several : 2 ≤ columns.length ∨ ∃ column ∈ columns, column.tag ≠ none) :
      Nameless (.project (some columns))

namespace NodeOp

variable {op : NodeOp Int} {kind : OperatorKind}

/-- Kinds that do not carry their alias bind nothing. -/
theorem bindings_of_apart (stands : op.kind? = some kind) (apart : kind.carriesAlias = false) : op.bindings = [] := by
  cases op with
  | bind tag => cases stands
  | select _ | limit _ | orderBy _ _ | dedup _ | sink _ | union _ => rfl
  | scan _ _ _ _ | edge _ _ _ _ | project _ _ | groupBy _ _ | path _ _ _ _ _ | vertex _ _ | apply _ _ _ =>
    cases stands
    cases apart

theorem length_bindings_le (stands : op.kind? = some kind) (single : kind ≠ .project) (plain : kind ≠ .groupBy) :
    op.bindings.length ≤ 1 := by
  cases op with
  | bind tag => cases stands
  | project columns isAppend => cases stands; exact absurd rfl single
  | groupBy keys values => cases stands; exact absurd rfl plain
  | select _ | limit _ | orderBy _ _ | dedup _ | sink _ | union _ => exact Nat.zero_le 1
  | scan _ tag _ _ | edge _ _ _ tag | path _ _ _ _ tag | vertex _ tag | apply _ _ tag => cases tag <;> simp [bindings]

end NodeOp

namespace Operator

variable {operator : Operator} {links : Links} {op : NodeOp Int} {tag : Alias}

/-- A projection's alias goes to its only column, if that has none. -/
theorem projectNode_named {columns : Option (List (Projected Alias))} (lowered : projectNode columns (some tag) = .ok op) :
    ∃ expression, columns = some [{ expression, tag := none }] ∧
      op = .project [{ expression, tag := some tag.name }] true := by
  rcases columns with _ | _ | ⟨⟨expression, _ | own⟩, _ | ⟨second, rest⟩⟩
  · cases lowered
  · cases lowered
  · exact ⟨expression, rfl, (Except.ok.inj lowered).symm⟩
  all_goals cases lowered

theorem not_nameless_of_toNode (named : operator.tag = some tag) (lowered : operator.toNode links = .ok op) :
    ¬ operator.args.Nameless := by
  obtain ⟨args, _⟩ := operator
  cases named
  intro nameless
  cases nameless with
  | groupBy keys values => cases lowered
  | apply sub subRoot join => cases (toNode_apply lowered).1
  | project several =>
    obtain ⟨expression, only, _⟩ := projectNode_named lowered
    cases only
    rcases several with many | ⟨column, member, own⟩
    · exact absurd many (Nat.not_succ_le_self 1)
    · exact own (by rw [List.mem_singleton.mp member])

/-- The node of a named operator binds that name and no other, or none at all. -/
theorem bindings_of_toNode (named : operator.tag = some tag) (lowered : operator.toNode links = .ok op) :
    op.bindings = if operator.kind.carriesAlias then [tag.name] else [] := by
  have lowers := lowersTo_of_toNode lowered
  have nameable := not_nameless_of_toNode named lowered
  split
  · next carried =>
    have bound := lowers.carries carried tag named
    obtain ⟨args, _⟩ := operator
    cases named
    cases args with
    | project columns =>
      obtain ⟨_, _, rfl⟩ := projectNode_named lowered
      rfl
    | groupBy keys values => exact absurd (.groupBy keys values) nameable
    | _ =>
      -- All others bind one name at most, and the alias is among what they bind.
      have few := NodeOp.length_bindings_le lowers.kind (by simp [kind, OperatorArguments.kind])
        (by simp [kind, OperatorArguments.kind])
      obtain ⟨only, same⟩ := List.length_eq_one_iff.mp (Nat.le_antisymm few (List.length_pos_of_mem bound))
      rw [same, List.mem_singleton] at bound
      rw [same, bound]
  · next apart => exact NodeOp.bindings_of_apart lowers.kind (Bool.eq_false_iff.mpr apart)

end Operator

namespace PlanGraph

variable {plan after : PlanGraph} {op : NodeOp Int} {kind : OperatorKind} {tag : Identifier} {own : Nat}

/-- How a plan binds the name of an operator that has a node in it: in that node, or in the next one under it. -/
inductive Binds (plan : PlanGraph) (kind : OperatorKind) (tag : Identifier) (own : Nat) : Nat → Prop
  | within {node : PlanNode} (carried : kind.carriesAlias = true) (found : plan.nodes[own]? = some node)
      (stands : node.op.kind? = some kind) (binds : node.op.bindings = [tag]) : Binds plan kind tag own own
  | behind {node binder : PlanNode} (apart : kind.carriesAlias = false) (found : plan.nodes[own]? = some node)
      (stands : node.op.kind? = some kind) (silent : node.op.bindings = []) (next : plan.nodes[own + 1]? = some binder)
      (binds : binder.op = .bind tag) (under : binder.parents = [own]) : Binds plan kind tag own (own + 1)

/-- A plan once it has taken a named operator: the operator's node comes behind the nodes of the operators in it,
nothing but a node for the name comes behind that, and the name is visible at the newest node. -/
structure Takes (plan after : PlanGraph) (operator : Operator) (tag : Identifier) (own newest : Nat) : Prop where
  placed : own = plan.size + operator.innerCount
  size : after.size = newest + 1
  visible : tag ∈ after.visibleAt newest
  binds : after.Binds operator.kind tag own newest

/-- What the newest node binds is visible there. -/
theorem mem_visibleAt_grow {parents : List Nat} {visible : List Identifier} (bound : tag ∈ op.bindings) :
    tag ∈ (plan.grow op parents visible).visibleAt plan.size := by
  rw [visibleAt, newest_grow]
  exact mem_insertAll.mpr (.inr bound)

theorem binds_grow {parents : List Nat} {visible : List Identifier} (carried : kind.carriesAlias = true)
    (stands : op.kind? = some kind) (binds : op.bindings = [tag]) :
    (plan.grow op parents visible).Binds kind tag plan.size plan.size :=
  .within carried (newest_grow parents visible) stands binds

theorem binds_bindBehind {parents : List Nat} {visible : List Identifier} (apart : kind.carriesAlias = false)
    (stands : op.kind? = some kind) (silent : op.bindings = []) :
    ((plan.grow op parents visible).bindBehind plan.size (some tag)).2.Binds kind tag plan.size (plan.size + 1) := by
  have found : (plan.grow op parents visible).nodes[plan.size]? = some _ := newest_grow parents visible
  have next : (bindBehind _ plan.size (some tag)).2.nodes[(plan.grow op parents visible).size]? = some _ := newest_grow _ _
  rw [size_grow] at next
  exact .behind apart (extends_grow _ _ plan.size _ found) stands silent next rfl rfl

end PlanGraph

namespace Assembly

open Assembling

variable {parent scope : Int} {operator : Operator} {links : Links} {tag : Alias} {before : Assembly PlanGraph}

/-- A named operator's node is followed by one for the name unless it binds the name itself. -/
theorem takes_of_enter {plan middle : PlanGraph} {op : NodeOp Int} {inputs : List Int} {own : Nat}
    (named : operator.tag = some tag) (lowered : operator.toNode links = .ok op)
    (behind : middle.size = plan.size + operator.innerCount) {grown : PlanGraph}
    (entered : middle.enter op inputs scope = .ok (own, grown)) :
    plan.Takes (grown.bindBehind own operator.trailing).2 operator tag.name own
      (grown.bindBehind own operator.trailing).1 := by
  have stands := (Operator.lowersTo_of_toNode lowered).kind
  have binds := Operator.bindings_of_toNode named lowered
  obtain ⟨rfl, parents, visible, rfl⟩ := PlanGraph.grown_of_enter entered
  unfold Operator.trailing
  rw [named, Option.map_some]
  cases carried : operator.kind.carriesAlias with
  | true =>
    rw [carried, if_pos rfl] at binds
    rw [if_pos rfl]
    refine ⟨behind, PlanGraph.size_grow parents visible, PlanGraph.mem_visibleAt_grow ?_,
      PlanGraph.binds_grow carried stands binds⟩
    rw [binds]
    exact List.mem_singleton_self _
  | false =>
    rw [carried, if_neg Bool.false_ne_true] at binds
    rw [if_neg Bool.false_ne_true]
    have last : ((middle.grow op parents visible).bindBehind middle.size (some tag.name)).1 = middle.size + 1 :=
      PlanGraph.size_grow parents visible
    refine ⟨behind, PlanGraph.bindBehind_size (PlanGraph.size_grow parents visible) _,
      PlanGraph.mem_visibleAt_grow (List.mem_singleton_self _), ?_⟩
    rw [last]
    exact PlanGraph.binds_bindBehind carried stands binds

theorem placeLinked_takes {middle : Assembly PlanGraph} (named : operator.tag = some tag)
    (behind : middle.store.size = before.store.size + operator.innerCount) :
    (placeLinked PlanGraph.accumulator parent scope operator links).Ends middle
      (fun placed after => ¬ operator.args.Nameless ∧ ∃ own newest : Nat, placed = ((own : Int), (newest : Int)) ∧
        before.store.Takes after.store operator tag.name own newest) fun _ _ => True :=
  placeLinked_ends_of_checks (fun _ _ => trivial) (fun _ _ _ _ => trivial) fun _ own _ lowered entered =>
    ⟨Operator.not_nameless_of_toNode named lowered, own, _, rfl, takes_of_enter named lowered behind entered⟩

theorem place_takes (named : operator.tag = some tag) : (place PlanGraph.accumulator parent scope operator).Ends before
    (fun placed after => ¬ operator.args.Nameless ∧ ∃ own newest : Nat, placed = ((own : Int), (newest : Int)) ∧
      before.store.Takes after.store operator tag.name own newest) fun _ _ => True := by
  refine place_ends_behind fun _ middle houses => placeLinked_takes named ?_
  rw [houses.size, Operator.length_flatMap_occupants]
  rfl

/-- A named operator that is appended is visible under its name at the newest node, which is its own or binds just
that name behind it. One whose kind leaves the name nothing to name is never appended. -/
theorem append_binds (before : Assembly PlanGraph) (parent : Int) (operator : Operator) (tag : Alias)
    (named : operator.tag = some tag) :
    (∀ last after, (append PlanGraph.accumulator parent operator).run before = (.ok last, after) →
      ∃ own newest : Nat, last = newest ∧ before.store.Takes after.store operator tag.name own newest) ∧
    (operator.args.Nameless →
      ∃ error after, (append PlanGraph.accumulator parent operator).run before = (.error error, after)) := by
  have ends : (append PlanGraph.accumulator parent operator).Ends before
      (fun last after => ¬ operator.args.Nameless ∧ ∃ own newest : Nat, last = newest ∧
        before.store.Takes after.store operator tag.name own newest) fun _ _ => True := by
    refine (place_takes named).bind _ fun placed after held => .pure ?_
    obtain ⟨apart, own, newest, rfl, takes⟩ := held
    exact ⟨apart, own, newest, rfl, takes⟩
  refine ⟨fun last after ran => (ends.answer ran).2, fun nameless => ?_⟩
  obtain ⟨error, after, ran, _⟩ := (ends.weaken (fun _ _ held => held.1 nameless) fun _ _ => id).failed
  exact ⟨error, after, ran⟩

/-- The first three, under a name. -/
def fewFirst : Operator := ⟨.limit (some 0) (some 3), some (.written "few")⟩

/-- How many there are, under one more name besides that of the number. -/
def namedCount : Operator := ⟨Operator.countAll none, some (.written "few")⟩

theorem fewFirst_binds : ∃ own newest : Nat, ∃ after error later,
    (append PlanGraph.accumulator (-1) fewFirst).run (start (.empty none)) = (.ok newest, after) ∧
      PlanGraph.Takes (.empty none) after.store fewFirst (.name "few") own newest ∧
      (append PlanGraph.accumulator newest namedCount).run after = (.error error, later) := by
  have passes : ((append PlanGraph.accumulator (-1) fewFirst).run (start (.empty none))).1.isOk = true := by decide +kernel
  obtain ⟨last, after, ran⟩ := ran_of_isOk passes
  obtain ⟨own, newest, rfl, takes⟩ := (append_binds _ _ fewFirst _ rfl).1 last after ran
  obtain ⟨error, later, refused⟩ := (append_binds _ _ namedCount _ rfl).2 (.groupBy _ _)
  exact ⟨own, newest, after, error, later, ran, takes, refused⟩

end Assembly

end TraversalPlanner
