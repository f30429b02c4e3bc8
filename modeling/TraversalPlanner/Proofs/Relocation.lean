import TraversalPlanner.Proofs.BuiltOperators
import TraversalPlanner.Proofs.Planting
import TraversalPlanner.Proofs.TwinRuns
import TraversalPlanner.Traversal.Fluent

/-! Operators do the same wherever they are appended. Two plans may have nothing in common but their schema
and the tags that are visible at one node of each: operators that are appended under those nodes are refused
by both plans or enter both, and then the new nodes of the one are those of the other, renamed. Nothing of
what else is in a plan gets into what is appended to it, be it a number, a tag or that the plan was empty. -/

namespace TraversalPlanner

open Proofs

/-- Nodes that do the same, but for the nodes that they refer to. -/
inductive NodeOp.Matches {ι : Type} (related : ι → ι → Prop) : NodeOp ι → NodeOp ι → Prop
  | single {op : NodeOp ι} (apart : op.subRoot? = none) (single : op.isUnion = false) : Matches related op op
  | apply {root twin : ι} {join : JoinKind} {tag : Option Identifier} (roots : related root twin) :
      Matches related (.apply join root tag) (.apply join twin tag)
  | union {parents twins : List ι} (each : List.Forall₂ related parents twins) :
      Matches related (.union parents) (.union twins)

namespace NodeOp.Matches

variable {ι : Type} {related : ι → ι → Prop} {op twin : NodeOp ι}

theorem references (alike : op.Matches related twin) : op.references = twin.references := by cases alike <;> rfl

theorem bindings (alike : op.Matches related twin) : op.bindings = twin.bindings := by cases alike <;> rfl

theorem tables {related : Int → Int → Prop} {op twin : NodeOp Int} (alike : op.Matches related twin) :
    PlanGraph.tablesOf op = PlanGraph.tablesOf twin := by
  cases alike <;> rfl

theorem inputs {related : Int → Int → Prop} {op twin : NodeOp Int} {parent other : Int} (alike : op.Matches related twin)
    (parents : related parent other) : List.Forall₂ related (op.inputs parent) (twin.inputs other) := by
  cases alike with
  | single _ single =>
    rw [inputs_of_single single, inputs_of_single single]
    exact .cons parents .nil
  | apply => exact .cons parents .nil
  | union each => exact each

end NodeOp.Matches

/-- A node in each of two plans where the same tags are visible. The plans know the same schema and may still
grow; otherwise neither tells anything about the other. -/
structure Relocation where
  plan : PlanGraph
  other : PlanGraph
  source : Nat
  target : Nat
  kept : plan.released = false
  remaining : other.released = false
  schema : plan.schema = other.schema
  inside : source < plan.size
  within : target < other.size
  visible : ∀ tag, tag ∈ plan.visibleAt source ↔ tag ∈ other.visibleAt target

namespace Relocation

variable {move : Relocation}

/-- The one node is renamed to the other, and a new node to the new node that is as far from the first one. -/
inductive Renames (move : Relocation) : Nat → Nat → Prop
  | source : Renames move move.source move.target
  | fresh (count : Nat) : Renames move (move.plan.size + count) (move.other.size + count)

/-- Renamed nodes, as references; no node at all is called `-1` in both plans. -/
inductive Refers (move : Relocation) : Int → Int → Prop
  | nowhere : Refers move (-1) (-1)
  | node {id twin : Nat} (renames : move.Renames id twin) : Refers move id twin

structure Copies (move : Relocation) (node twin : PlanNode) : Prop where
  op : node.op.Matches move.Refers twin.op
  parents : List.Forall₂ move.Renames node.parents twin.parents
  visible : ∀ tag, tag ∈ node.visible ↔ tag ∈ twin.visible

/-- The plans have grown, each node of the one at the same time as its copy in the other. -/
structure InStep (move : Relocation) (first second : PlanGraph) : Prop where
  grown : ∃ new copies, first.nodes = move.plan.nodes ++ new ∧ second.nodes = move.other.nodes ++ copies ∧
    List.Forall₂ move.Copies new copies
  schema : first.schema = second.schema
  kept : first.released = false
  remaining : second.released = false

/-- What two new nodes stand on: their parents are renamed, and the same tags are seen. -/
def Level (move : Relocation) (ground twin : List Nat × List Identifier) : Prop :=
  List.Forall₂ move.Renames ground.1 twin.1 ∧ ∀ tag, tag ∈ ground.2 ↔ tag ∈ twin.2

/-- What two new nodes turn the plans into: they are renamed themselves, and the plans stay in step. -/
def Onward (move : Relocation) (grown twin : Nat × PlanGraph) : Prop :=
  move.Renames grown.1 twin.1 ∧ move.InStep grown.2 twin.2

namespace Refers

variable {reference twin : Int}

theorem eq_neg_one (refers : move.Refers reference twin) : reference = -1 ↔ twin = -1 := by
  cases refers <;> omega

theorem nonneg (refers : move.Refers reference twin) : 0 ≤ reference ↔ 0 ≤ twin := by
  cases refers <;> omega

theorem detached {inputs twins : List Int} (each : List.Forall₂ move.Refers inputs twins) :
    inputs = [-1] ↔ twins = [-1] := by
  cases each with
  | nil => simp
  | cons refers rest =>
    cases rest with
    | nil => simpa using refers.eq_neg_one
    | cons => simp

/-- What a sub-plan is put inside. -/
theorem enclosing {scope inside : Int} (refers : move.Refers reference twin) (scopes : move.Refers scope inside) :
    move.Refers (if 0 ≤ reference then reference else scope) (if 0 ≤ twin then twin else inside) := by
  by_cases named : 0 ≤ reference
  · rw [if_pos named, if_pos (refers.nonneg.mp named)]
    exact refers
  · rw [if_neg named, if_neg (mt refers.nonneg.mpr named)]
    exact scopes

end Refers

namespace InStep

variable {first second : PlanGraph} {id twin : Nat}

theorem start (move : Relocation) : move.InStep move.plan move.other where
  grown := ⟨[], [], by simp, by simp, .nil⟩
  schema := move.schema
  kept := move.kept
  remaining := move.remaining

theorem renames_size (step : move.InStep first second) : move.Renames first.size second.size := by
  obtain ⟨new, copies, left, right, each⟩ := step.grown
  rw [PlanGraph.size, PlanGraph.size, left, right, List.length_append, List.length_append, ← each.length_eq]
  exact .fresh new.length

/-- Renamed nodes are in both plans or in neither, and see the same tags. -/
theorem lookup (step : move.InStep first second) (renames : move.Renames id twin) :
    (first.nodes[id]? = none ∧ second.nodes[twin]? = none) ∨
      ∃ node copy, first.nodes[id]? = some node ∧ second.nodes[twin]? = some copy ∧
        ∀ tag, tag ∈ node.visible ↔ tag ∈ copy.visible := by
  obtain ⟨new, copies, left, right, each⟩ := step.grown
  rw [left, right]
  cases renames with
  | source =>
    have same := move.visible
    rw [List.getElem?_append_left move.inside, List.getElem?_append_left move.within]
    simp only [PlanGraph.visibleAt, List.getElem?_eq_getElem move.inside, List.getElem?_eq_getElem move.within] at same ⊢
    exact .inr ⟨_, _, rfl, rfl, same⟩
  | fresh count =>
    rw [PlanGraph.size, PlanGraph.size, List.getElem?_append_right (Nat.le_add_right ..),
      List.getElem?_append_right (Nat.le_add_right ..), Nat.add_sub_cancel_left, Nat.add_sub_cancel_left]
    by_cases there : count < new.length
    · have also : count < copies.length := each.length_eq ▸ there
      exact .inr ⟨_, _, List.getElem?_eq_getElem there, List.getElem?_eq_getElem also, (each.get there also).visible⟩
    · have neither : ¬ count < copies.length := each.length_eq ▸ there
      exact .inl ⟨List.getElem?_eq_none (Nat.not_lt.mp there), List.getElem?_eq_none (Nat.not_lt.mp neither)⟩

theorem inside (step : move.InStep first second) (renames : move.Renames id twin) :
    id < first.size ↔ twin < second.size := by
  rcases step.lookup renames with ⟨absent, missing⟩ | ⟨node, copy, found, met, _⟩
  · exact iff_of_false (Nat.not_lt.mpr (List.getElem?_eq_none_iff.mp absent))
      (Nat.not_lt.mpr (List.getElem?_eq_none_iff.mp missing))
  · exact iff_of_true (List.getElem?_eq_some_iff.mp found).1 (List.getElem?_eq_some_iff.mp met).1

theorem visibleAt (step : move.InStep first second) (renames : move.Renames id twin) (tag : Identifier) :
    tag ∈ first.visibleAt id ↔ tag ∈ second.visibleAt twin := by
  unfold PlanGraph.visibleAt
  rcases step.lookup renames with ⟨absent, missing⟩ | ⟨node, copy, found, met, same⟩
  · rw [absent, missing]
  · rw [found, met]
    exact same tag

/-! What a node stands on. -/

theorem resolve {parent other : Int} (step : move.InStep first second) (refers : move.Refers parent other) :
    Alike move.Renames (first.resolve parent) (second.resolve other) := by
  cases refers with
  | nowhere => exact .error _
  | @node id twin renames =>
    by_cases known : id < first.size
    · rw [PlanGraph.resolve_eq_ok.mpr ⟨rfl, known⟩, PlanGraph.resolve_eq_ok.mpr ⟨rfl, (step.inside renames).mp known⟩]
      exact .ok renames
    · have missing : ¬ twin < second.size := mt (step.inside renames).mpr known
      simp only [PlanGraph.resolve, Int.toNat_natCast, if_neg known, if_neg missing,
        if_neg (Int.not_lt.mpr (Int.natCast_nonneg _))]
      exact .error _

/-- Neither plan is empty, so neither takes the new node for its first one. -/
theorem resolveAll {inputs twins : List Int} (step : move.InStep first second)
    (each : List.Forall₂ move.Refers inputs twins) :
    Alike (List.Forall₂ move.Renames) (first.resolveAll inputs) (second.resolveAll twins) := by
  have filled : ¬ first.isEmpty ∧ ¬ second.isEmpty := by
    obtain ⟨new, copies, left, right, -⟩ := step.grown
    have inside := move.inside
    have within := move.within
    simp only [PlanGraph.isEmpty, PlanGraph.size, left, right, List.isEmpty_iff, List.append_eq_nil_iff] at inside within ⊢
    grind
  unfold PlanGraph.resolveAll
  simp only [filled, Bool.false_eq_true, false_or]
  by_cases root : inputs = [-1]
  · rw [if_pos root, if_pos ((Refers.detached each).mp root)]
    exact .ok .nil
  · rw [if_neg root, if_neg (mt (Refers.detached each).mpr root)]
    exact .mapM each fun _ _ refers => step.resolve refers

private theorem visibleAt_all {parents twins : List Nat} {tag : Identifier} (step : move.InStep first second)
    (each : List.Forall₂ move.Renames parents twins) :
    (∀ parent ∈ parents, tag ∈ first.visibleAt parent) ↔ ∀ twin ∈ twins, tag ∈ second.visibleAt twin := by
  induction each with
  | nil => simp
  | cons renames _ later => rw [List.forall_mem_cons, List.forall_mem_cons, step.visibleAt renames, later]

theorem visibleUnder {parents twins : List Nat} (step : move.InStep first second)
    (each : List.Forall₂ move.Renames parents twins) (tag : Identifier) :
    tag ∈ first.visibleUnder parents ↔ tag ∈ second.visibleUnder twins := by
  cases each with
  | nil => exact .rfl
  | cons here rest =>
    rw [PlanGraph.mem_visibleUnder, PlanGraph.mem_visibleUnder]
    exact step.visibleAt_all (.cons here rest)

theorem footing {inputs twins : List Int} {scope inside : Int} (step : move.InStep first second)
    (each : List.Forall₂ move.Refers inputs twins) (scopes : move.Refers scope inside) :
    Alike move.Level (first.footing inputs scope) (second.footing twins inside) := by
  unfold PlanGraph.footing
  by_cases root : inputs = [-1]
  · rw [if_pos root, if_pos ((Refers.detached each).mp root)]
    unfold PlanGraph.groundRoot
    cases scopes with
    | nowhere => exact .ok ⟨.nil, fun _ => .rfl⟩
    | @node id twin renames =>
      simp only [Int.toNat_natCast, if_neg (Int.not_lt.mpr (Int.natCast_nonneg _))]
      rcases step.lookup renames with ⟨absent, missing⟩ | ⟨node, copy, found, met, same⟩
      · rw [absent, missing]
        exact .error _
      · rw [found, met]
        exact .ok ⟨.nil, same⟩
  · rw [if_neg root, if_neg (mt (Refers.detached each).mpr root)]
    unfold PlanGraph.ground
    exact (step.resolveAll each).map fun _ _ renamed => ⟨renamed, step.visibleUnder renamed⟩

/-! A step of both plans. -/

theorem grow {op twin : NodeOp Int} {parents others : List Nat} {visible seen : List Identifier}
    (step : move.InStep first second) (alike : op.Matches move.Refers twin)
    (level : move.Level (parents, visible) (others, seen)) :
    move.InStep (first.grow op parents visible) (second.grow twin others seen) := by
  obtain ⟨new, copies, left, right, each⟩ := step.grown
  have copied : move.Copies
      { op, parents, visible := op.bindings.foldl (fun seen tag => seen.insert tag) visible }
      { op := twin, parents := others, visible := twin.bindings.foldl (fun seen tag => seen.insert tag) seen } := by
    refine ⟨alike, level.1, fun tag => ?_⟩
    rw [PlanGraph.mem_insertAll, PlanGraph.mem_insertAll, level.2, alike.bindings]
  refine ⟨⟨new ++ [_], copies ++ [_], ?_, ?_, List.rel_append each (.cons copied .nil)⟩, step.schema, step.kept,
    step.remaining⟩
  · rw [PlanGraph.grow, left, List.append_assoc]
  · rw [PlanGraph.grow, right, List.append_assoc]

theorem insert {op twin : NodeOp Int} {ground other : List Nat × List Identifier} (step : move.InStep first second)
    (alike : op.Matches move.Refers twin) (level : move.Level ground other) :
    Alike move.Onward (first.insert op ground.1 ground.2) (second.insert twin other.1 other.2) := by
  have known : first.checkSchema op = second.checkSchema twin := by
    unfold PlanGraph.checkSchema PlanGraph.checkAgainst
    rw [step.schema, alike.tables, alike.references]
  have seen : PlanGraph.checkTags ground.2 op = PlanGraph.checkTags other.2 twin := by
    have same : ground.2.contains = other.2.contains := by
      funext tag
      rw [Bool.eq_iff_iff, List.contains_iff_mem, List.contains_iff_mem, level.2]
    unfold PlanGraph.checkTags
    rw [alike.references, same]
  unfold PlanGraph.insert
  rw [known, seen]
  refine .bind_same fun _ => .bind_same fun _ => ?_
  exact .ok ⟨step.renames_size, step.grow alike level⟩

theorem enter {op twin : NodeOp Int} {inputs twins : List Int} {scope inside : Int} (step : move.InStep first second)
    (alike : op.Matches move.Refers twin) (each : List.Forall₂ move.Refers inputs twins)
    (scopes : move.Refers scope inside) :
    Alike move.Onward (first.enter op inputs scope) (second.enter twin twins inside) := by
  rw [PlanGraph.enter_eq step.kept, PlanGraph.enter_eq step.remaining]
  exact (step.footing each scopes).bind fun _ _ level => step.insert alike level

theorem bindBehind {own other : Nat} (trailing : Option Identifier) (step : move.InStep first second)
    (renames : move.Renames own other) :
    move.Onward (first.bindBehind own trailing) (second.bindBehind other trailing) := by
  cases trailing with
  | none => exact ⟨renames, step⟩
  | some tag =>
    exact ⟨step.renames_size, step.grow (.single rfl rfl) ⟨.cons renames .nil, step.visibleAt renames⟩⟩

end InStep

end Relocation

namespace Assembly

open Assembling Relocation

variable {move : Relocation} {parent twin scope inside : Int} {operator : Operator} {before beside : Assembly PlanGraph}

/-- Both assemblies are open, and their plans are in step. -/
structure Abreast (move : Relocation) (before beside : Assembly PlanGraph) : Prop where
  opened : before.state ≠ .closed
  opening : beside.state ≠ .closed
  plans : move.InStep before.store beside.store

/-- Two runs that answer with a first and a last node. -/
def Moves (move : Relocation) (placed : Int × Int) (after : Assembly PlanGraph) (other : Int × Int)
    (later : Assembly PlanGraph) : Prop :=
  (move.Refers placed.1 other.1 ∧ move.Refers placed.2 other.2) ∧ Abreast move after later

private theorem placeLinked_concurs {links others : Links} (abreast : Abreast move before beside)
    (parents : move.Refers parent twin) (scopes : move.Refers scope inside)
    (lowered : Alike (NodeOp.Matches move.Refers) (operator.toNode links) (operator.toNode others)) :
    (placeLinked PlanGraph.accumulator parent scope operator links).Concurs
      (placeLinked PlanGraph.accumulator twin inside operator others) before beside (Moves move) := by
  constructor
  rw [run_placeLinked, run_placeLinked]
  generalize operator.toNode links = op at lowered ⊢
  generalize operator.toNode others = other at lowered ⊢
  cases lowered with
  | error error => exact .error error
  | ok alike =>
    have entered := abreast.plans.enter alike (alike.inputs parents) scopes
    simp only
    generalize before.store.enter _ _ _ = grown at entered ⊢
    generalize beside.store.enter _ _ _ = risen at entered ⊢
    cases entered with
    | error refusal => exact .error _
    | ok onward =>
      obtain ⟨renames, step⟩ := onward
      obtain ⟨last, plans⟩ := step.bindBehind operator.trailing renames
      exact .ok ⟨⟨.node renames, .node last⟩, Lifecycle.begun_ne_closed abreast.opened,
        Lifecycle.begun_ne_closed abreast.opening, plans⟩

private theorem toNode_bare {links : Links} (apart : operator.kind ≠ .apply) (single : operator.kind ≠ .union) :
    Alike (NodeOp.Matches move.Refers) (operator.toNode links) (operator.toNode links) :=
  .of_eq fun _ lowered =>
    have bare := Operator.single_of_toNode lowered apart single
    .single bare.1 bare.2

private theorem toNode_apply {sub : Option (List Operator)} {subRoot : Option Int32} {join : Option JoinKind}
    {tag : Option Alias} {root other : Int} (roots : move.Refers root other) :
    Alike (NodeOp.Matches move.Refers)
      (Operator.toNode ⟨.apply sub subRoot join, tag⟩ { subRoot := some root, parents := none })
      (Operator.toNode ⟨.apply sub subRoot join, tag⟩ { subRoot := some other, parents := none }) := by
  refine .bind_same fun _ => .bind_same fun join => Alike.bind (.ok roots) fun root other roots => ?_
  by_cases named : 0 ≤ root
  · rw [if_neg (Int.not_lt.mpr named), if_neg (Int.not_lt.mpr (roots.nonneg.mp named))]
    exact .ok (.apply roots)
  · rw [if_pos (Int.not_le.mp named), if_pos (Int.not_le.mp (mt roots.nonneg.mpr named))]
    exact .error _

private theorem toNode_union {branches : Option (List (List Operator))} {parents : Option (List Int32)} {tag : Option Alias}
    {lasts ends : List Int} (each : List.Forall₂ move.Refers lasts ends) :
    Alike (NodeOp.Matches move.Refers)
      (Operator.toNode ⟨.union branches parents, tag⟩ { subRoot := none, parents := some lasts })
      (Operator.toNode ⟨.union branches parents, tag⟩ { subRoot := none, parents := some ends }) := by
  cases each with
  | nil => exact .error _
  | cons here rest => exact .ok (.union (.cons here rest))

/-- The other run has the renamed parent and the renamed scope. -/
private def MovesOperator (move : Relocation) (parent scope : Int) (operator : Operator) : Prop :=
  ∀ {twin inside : Int} {before beside : Assembly PlanGraph}, operator.Unlinked → move.Refers parent twin →
    move.Refers scope inside → Abreast move before beside →
    (place PlanGraph.accumulator parent scope operator).Concurs (place PlanGraph.accumulator twin inside operator)
      before beside (Moves move)

private def MovesBranches (move : Relocation) (parent scope : Int) (branches : List (List Operator)) : Prop :=
  ∀ {twin inside : Int} {before beside : Assembly PlanGraph}, Operator.UnlinkedBranches branches →
    move.Refers parent twin → move.Refers scope inside → Abreast move before beside →
    (placeBranches PlanGraph.accumulator parent scope branches).Concurs
      (placeBranches PlanGraph.accumulator twin inside branches) before beside
      fun lasts after ends later => List.Forall₂ move.Refers lasts ends ∧ Abreast move after later

private def MovesChain (move : Relocation) (first : Option Int) (parent scope : Int) (operators : List Operator) : Prop :=
  ∀ {given : Option Int} {twin inside : Int} {before beside : Assembly PlanGraph}, Operator.UnlinkedAll operators →
    Option.Rel move.Refers first given → move.Refers parent twin → move.Refers scope inside →
    Abreast move before beside →
    (placeFrom PlanGraph.accumulator first parent scope operators).Concurs
      (placeFrom PlanGraph.accumulator given twin inside operators) before beside (Moves move)

private theorem movesOperator_bare (bare : operator.Bare) : MovesOperator move parent scope operator := by
  intro twin inside before beside unlinked parents scopes abreast
  refine place_bare_concurs bare unlinked abreast.opened abreast.opening fun apart single => ?_
  exact placeLinked_concurs abreast parents scopes (toNode_bare apart single)

private theorem movesOperator_apply {sub : List Operator} {subRoot : Option Int32} {join : Option JoinKind}
    {tag : Option Alias} (inner : MovesChain move none (-1) (if 0 ≤ parent then parent else scope) sub) :
    MovesOperator move parent scope ⟨.apply (some sub) subRoot join, tag⟩ := by
  intro twin inside before beside unlinked parents scopes abreast
  -- The sub-plan is put inside the parent if that is a node, which both runs agree on.
  refine place_apply_concurs abreast.opened abreast.opening
    (inner unlinked.2 .none .nowhere (parents.enclosing scopes) abreast) fun first after other later moves => ?_
  exact placeLinked_concurs moves.2 parents scopes (toNode_apply moves.1.1)

private theorem movesOperator_union {branches : List (List Operator)} {parents : Option (List Int32)} {tag : Option Alias}
    (inner : MovesBranches move parent scope branches) :
    MovesOperator move parent scope ⟨.union (some branches) parents, tag⟩ := by
  intro twin inside before beside unlinked parents scopes abreast
  refine place_union_concurs abreast.opened abreast.opening (inner unlinked.2 parents scopes abreast)
    fun lasts after ends later moves => ?_
  exact placeLinked_concurs moves.2 parents scopes (toNode_union moves.1)

private theorem movesChain_nil {first : Option Int} : MovesChain move first parent scope [] := by
  intro given twin inside before beside _ found parents _ abreast
  refine .pure ⟨⟨?_, parents⟩, abreast⟩
  cases found with
  | none => exact parents
  | some refers => exact refers

private theorem movesChain_cons {first : Option Int} {rest : List Operator}
    (here : MovesOperator move parent scope operator)
    (later : ∀ own last, MovesChain move (first.or (some own)) last scope rest) :
    MovesChain move first parent scope (operator :: rest) := by
  intro given twin inside before beside unlinked found parents scopes abreast
  -- The next operator goes under the last node of this one; the scope stays what it was.
  rw [placeFrom.eq_2, placeFrom.eq_2]
  refine (here unlinked.1 parents scopes abreast).bind _ fun placed after other further moves => ?_
  refine later placed.1 placed.2 unlinked.2 ?_ moves.1.2 scopes moves.2
  cases found with
  | none => exact .some moves.1.1
  | some refers => exact .some refers

private theorem movesBranches_cons {branch : List Operator} {rest : List (List Operator)}
    (here : MovesChain move none parent scope branch) (later : MovesBranches move parent scope rest) :
    MovesBranches move parent scope (branch :: rest) := by
  intro twin inside before beside unlinked parents scopes abreast
  rw [placeBranches.eq_2, placeBranches.eq_2]
  refine (here unlinked.1 .none parents scopes abreast).bind _ fun placed after other further moves => ?_
  refine (later unlinked.2 parents scopes moves.2).bind _ fun lasts final ends last others => ?_
  exact .pure ⟨.cons moves.1.2 others.1, others.2⟩

private theorem movesChain (move : Relocation) (first : Option Int) (parent scope : Int) (operators : List Operator) :
    MovesChain move first parent scope operators := by
  refine (place.mutual_induct (MovesOperator move) (MovesBranches move) (MovesChain move)
    ?_ ?_ ?_ ?_ ?_ ?_ ?_).2.2 first parent scope operators
  · intro _ _ _ _ _ _ inner
    exact movesOperator_apply inner
  · intro _ _ _ _ _ inner
    exact movesOperator_union inner
  · intro _ _ _ noApply noUnion
    exact movesOperator_bare ⟨noApply, noUnion⟩
  · intro _ _ _
    exact movesChain_nil
  · intro _ _ _ _ _ here later
    exact movesChain_cons here later
  · intro _ _ _ _ _ _ _ _ _ abreast
    exact .pure ⟨.nil, abreast⟩
  · intro _ _ _ _ here later
    exact movesBranches_cons here later

/-- It makes no difference to a traversal's operators under which of the two nodes they are appended. Both
plans refuse them with the same error; or each grows by nodes that are copies of the other's, and the first
and the last node of the answer are renamed as well. -/
theorem appendAll_relocates {traversal : Traversal} {operators : List Operator} (built : traversal.build = .ok operators)
    (move : Relocation) {state other : Lifecycle} (opened : state ≠ .closed) (opening : other ≠ .closed) :
    (appendAll PlanGraph.accumulator move.source operators).Concurs
      (appendAll PlanGraph.accumulator move.target operators)
      { store := move.plan, state } { store := move.other, state := other }
      fun placed after twin later =>
        move.Refers placed.1 twin.1 ∧ move.Refers placed.2 twin.2 ∧ move.InStep after.store later.store := by
  have abreast : Abreast move { store := move.plan, state } { store := move.other, state := other } :=
    ⟨opened, opening, .start move⟩
  have unlinked := (Traversal.faithful traversal operators built).unlinked
  have moved := movesChain move none move.source (-1) operators unlinked .none (.node .source) .nowhere abreast
  exact moved.weaken fun _ _ _ _ moves => ⟨moves.1.1, moves.1.2, moves.2.plans⟩

/-- A vertex with two names, which another plan gave it in the other order before it went on. -/
def renamed : Relocation where
  plan := PlanGraph.empty none |>.grow (.vertex .start (some (.name "a"))) [] [] |>.grow (.bind (.name "b")) [0] [.name "a"]
  other := PlanGraph.empty none |>.grow (.vertex .finish none) [] [] |>.grow (.bind (.name "b")) [0] []
    |>.grow (.bind (.name "a")) [1] [.name "b"] |>.grow (.limit { lower := 0, upper := 5 }) [2] [.name "a", .name "b"]
  source := 1
  target := 2
  kept := rfl
  remaining := rfl
  schema := rfl
  inside := by decide
  within := by decide
  visible tag := by
    change tag ∈ [.name "b", .name "a"] ↔ tag ∈ [.name "a", .name "b"]
    simp only [List.mem_cons, List.not_mem_nil, or_false]
    exact or_comm

/-- Goes on two ways and keeps what has an outgoing edge. -/
def onward : Traversal :=
  (Traversal.add [] (.union [Traversal.out [] [], Traversal.into [] []])).add
    (.whereTraversal ((Traversal.out [] []).add (.dedup ["a"])))

theorem onward_relocates : ∃ operators, onward.build = .ok operators ∧
    ((appendAll PlanGraph.accumulator renamed.source operators).run { store := renamed.plan, state := .created }).1.isOk ∧
    (appendAll PlanGraph.accumulator renamed.source operators).Concurs
      (appendAll PlanGraph.accumulator renamed.target operators)
      { store := renamed.plan, state := .created } { store := renamed.other, state := .building }
      fun placed after twin later =>
        renamed.Refers placed.1 twin.1 ∧ renamed.Refers placed.2 twin.2 ∧ renamed.InStep after.store later.store := by
  have passes : (onward.build.bind fun operators => ((appendAll PlanGraph.accumulator renamed.source operators).run
      { store := renamed.plan, state := .created }).1).isOk := by decide +kernel
  cases built : onward.build with
  | error error =>
    rw [built] at passes
    cases passes
  | ok operators =>
    rw [built] at passes
    exact ⟨operators, rfl, passes, appendAll_relocates built renamed (by decide) (by decide)⟩

end Assembly

end TraversalPlanner
