import TraversalPlanner.Proofs.AssemblyLogic

/-! What assembling operators does to a plan, as a derivation. It leaves out what tags are visible, since no
shape depends on them, and only tells of operators that have been placed. -/

namespace TraversalPlanner

namespace NodeOp

variable {ι : Type}

/-- The root of the plan that an apply stands for. -/
def subRoot? : NodeOp ι → Option ι
  | .apply _ root _ => some root
  | _ => none

def isUnion : NodeOp ι → Bool
  | .union _ => true
  | _ => false

theorem inputs_of_single {op : NodeOp Int} {parent : Int} (single : op.isUnion = false) : op.inputs parent = [parent] := by
  cases op with
  | union => cases single
  | _ => rfl

end NodeOp

/-- An operator that does not branch has a node that refers to no others. -/
theorem Operator.single_of_toNode {operator : Operator} {links : Links} {op : NodeOp Int}
    (lowered : operator.toNode links = .ok op) (apart : operator.kind ≠ .apply) (single : operator.kind ≠ .union) :
    op.subRoot? = none ∧ op.isUnion = false := by
  have kind := (lowersTo_of_toNode lowered).kind
  cases op with
  | apply => exact absurd (Option.some.inj kind).symm apart
  | union => exact absurd (Option.some.inj kind).symm single
  | _ => exact ⟨rfl, rfl⟩

namespace PlanGraph

variable {plan middle after : PlanGraph} {op : NodeOp Int} {inputs : List Int} {own last : Nat}

/-- The parents that a node gets that asks for some. -/
structure Resolves (plan : PlanGraph) (inputs : List Int) (parents : List Nat) : Prop where
  inside : ∀ parent ∈ parents, parent < plan.size
  asked : parents = [] ∧ (plan.nodes = [] ∨ inputs = [-1]) ∨ inputs = parents.map fun id : Nat => (id : Int)

/-- A node is put on its inputs, and one more behind it if that takes its alias. -/
inductive Lands (plan : PlanGraph) (op : NodeOp Int) (inputs : List Int) : Nat → Nat → PlanGraph → Prop
  | alone {parents visible} (resolves : plan.Resolves inputs parents) :
      Lands plan op inputs plan.size plan.size (plan.grow op parents visible)
  | named {parents visible tag seen} (resolves : plan.Resolves inputs parents) :
      Lands plan op inputs plan.size (plan.size + 1)
        ((plan.grow op parents visible).grow (.bind tag) [plan.size] seen)

theorem lands_of_enter {scope : Int} (trailing : Option Identifier)
    (entered : plan.enter op inputs scope = .ok (own, middle)) :
    plan.Lands op inputs own (middle.bindBehind own trailing).1 (middle.bindBehind own trailing).2 := by
  have appends : plan.Appends op _ _ := enter_appends inputs scope
  rw [entered] at appends
  cases appends with
  | @grown parents visible _ stands _ _ =>
    have resolves : plan.Resolves inputs parents := by
      unfold footing at stands
      split at stands
      · next root =>
        obtain ⟨rfl, _⟩ := groundRoot_eq_ok.mp stands
        exact ⟨by simp, .inl ⟨rfl, .inr root⟩⟩
      · obtain ⟨inside, asked⟩ := resolveAll_eq_ok (ground_eq_ok.mp stands).1
        exact ⟨inside, asked⟩
    cases trailing with
    | none => exact .alone resolves
    | some tag =>
      have size : (plan.grow op parents visible).size = plan.size + 1 := size_grow parents visible
      simp only [bindBehind, size]
      exact .named resolves

end PlanGraph

/-- What is put into a plan at a time. -/
inductive Cargo where
  | operator (operator : Operator)
  | chain (operators : List Operator)
  | branches (branches : List (List Operator))

/-- The first operator's own node and the last node; or the last node of each branch. -/
inductive Yield where
  | ends (own last : Int)
  | lasts (nodes : List Int)

/-- Cargo under a parent turns one plan into another. -/
inductive Planted : PlanGraph → Int → Cargo → PlanGraph → Yield → Prop
  | bare {plan after : PlanGraph} {parent : Int} {operator : Operator} {op : NodeOp Int} {own last : Nat}
      (bare : operator.Bare) (apart : op.subRoot? = none) (single : op.isUnion = false)
      (lands : plan.Lands op [parent] own last after) :
      Planted plan parent (.operator operator) after (.ends own last)
  | apply {plan middle after : PlanGraph} {parent : Int} {sub : List Operator} {subRoot : Option Int32}
      {join : Option JoinKind} {tag : Option Alias} {kind : JoinKind} {first subLast : Int} {own last : Nat}
      (inner : Planted plan (-1) (.chain sub) middle (.ends first subLast)) (entered : 0 ≤ first)
      (lands : middle.Lands (.apply kind first none) [parent] own last after) :
      Planted plan parent (.operator ⟨.apply (some sub) subRoot join, tag⟩) after (.ends own last)
  | union {plan middle after : PlanGraph} {parent : Int} {branches : List (List Operator)}
      {parents : Option (List Int32)} {tag : Option Alias} {lasts : List Int} {own last : Nat}
      (inner : Planted plan parent (.branches branches) middle (.lasts lasts)) (joined : lasts ≠ [])
      (lands : middle.Lands (.union lasts) lasts own last after) :
      Planted plan parent (.operator ⟨.union (some branches) parents, tag⟩) after (.ends own last)
  | done {plan : PlanGraph} {parent : Int} : Planted plan parent (.chain []) plan (.ends parent parent)
  | next {plan middle after : PlanGraph} {parent own link first last : Int} {operator : Operator} {rest : List Operator}
      (here : Planted plan parent (.operator operator) middle (.ends own link))
      (later : Planted middle link (.chain rest) after (.ends first last)) :
      Planted plan parent (.chain (operator :: rest)) after (.ends own last)
  | unbranched {plan : PlanGraph} {parent : Int} : Planted plan parent (.branches []) plan (.lasts [])
  | branch {plan middle after : PlanGraph} {parent first last : Int} {lasts : List Int} {branch : List Operator}
      {rest : List (List Operator)}
      (here : Planted plan parent (.chain branch) middle (.ends first last))
      (later : Planted middle parent (.branches rest) after (.lasts lasts)) :
      Planted plan parent (.branches (branch :: rest)) after (.lasts (last :: lasts))

namespace Assembly

open Assembling

variable {parent scope : Int} {operator : Operator} {before : Assembly PlanGraph}

/-- The plan has become another one, and still is to be built. -/
structure Plants (before : Assembly PlanGraph) (parent : Int) (cargo : Cargo) (after : Assembly PlanGraph)
    (yield : Yield) : Prop where
  planted : Planted before.store parent cargo after.store yield
  opened : before.state ≠ .closed → after.state ≠ .closed

private def PlantsOperator (parent scope : Int) (operator : Operator) : Prop :=
  ∀ {before : Assembly PlanGraph}, operator.Unlinked →
    (place PlanGraph.accumulator parent scope operator).Ends before
      (fun placed after => Plants before parent (.operator operator) after (.ends placed.1 placed.2)) fun _ _ => True

private def PlantsBranches (parent scope : Int) (branches : List (List Operator)) : Prop :=
  ∀ {before : Assembly PlanGraph}, Operator.UnlinkedBranches branches →
    (placeBranches PlanGraph.accumulator parent scope branches).Ends before
      (fun lasts after => Plants before parent (.branches branches) after (.lasts lasts)) fun _ _ => True

/-- The node of the first operator is only found if it was not given. -/
private def PlantsChain (first : Option Int) (parent scope : Int) (operators : List Operator) : Prop :=
  ∀ {before : Assembly PlanGraph}, Operator.UnlinkedAll operators →
    (placeFrom PlanGraph.accumulator first parent scope operators).Ends before
      (fun placed after => ∃ own, placed.1 = first.getD own ∧
        Plants before parent (.chain operators) after (.ends own placed.2)) fun _ _ => True

private theorem plantsOperator_bare (bare : operator.Bare) : PlantsOperator parent scope operator := by
  intro before unlinked
  refine place_bare_ends bare unlinked (fun _ => trivial) (fun _ _ => trivial) fun apart single => ?_
  refine placeLinked_ends (fun _ _ => trivial) (fun _ _ _ _ => trivial) fun op own plan lowered entered => ?_
  obtain ⟨rootless, joinless⟩ := Operator.single_of_toNode lowered apart single
  rw [NodeOp.inputs_of_single joinless] at entered
  exact ⟨.bare bare rootless joinless (PlanGraph.lands_of_enter _ entered), Lifecycle.begun_ne_closed⟩

private theorem plantsOperator_apply {sub : List Operator} {subRoot : Option Int32} {join : Option JoinKind}
    {tag : Option Alias} (inner : PlantsChain none (-1) (if 0 ≤ parent then parent else scope) sub) :
    PlantsOperator parent scope ⟨.apply (some sub) subRoot join, tag⟩ := by
  intro before unlinked
  refine place_apply_ends (fun _ => trivial) (fun _ _ => trivial) (inner unlinked.2) fun first middle planted => ?_
  obtain ⟨own, found, planted⟩ := planted
  refine placeLinked_ends (fun _ _ => trivial) (fun _ _ _ _ => trivial) fun op own plan lowered entered => ?_
  obtain ⟨_, kind, root, given, entry, same⟩ := Operator.toNode_apply lowered
  subst same
  have named : root = first.1 := (Option.some.inj given).symm
  rw [named, found] at entry
  rw [named, found] at entered
  exact ⟨.apply planted.planted entry (PlanGraph.lands_of_enter _ entered),
    fun opened => Lifecycle.begun_ne_closed (planted.opened opened)⟩

private theorem plantsOperator_union {branches : List (List Operator)} {parents : Option (List Int32)} {tag : Option Alias}
    (inner : PlantsBranches parent scope branches) : PlantsOperator parent scope ⟨.union (some branches) parents, tag⟩ := by
  intro before unlinked
  refine place_union_ends (fun _ => trivial) (fun _ _ => trivial) (inner unlinked.2) fun lasts middle planted => ?_
  refine placeLinked_ends (fun _ _ => trivial) (fun _ _ _ _ => trivial) fun op own plan lowered entered => ?_
  obtain ⟨first, rest, given, same⟩ := Operator.toNode_union lowered
  have joined := Option.some.inj given
  subst same
  subst joined
  exact ⟨.union planted.planted (by simp) (PlanGraph.lands_of_enter _ entered),
    fun opened => Lifecycle.begun_ne_closed (planted.opened opened)⟩

private theorem plantsChain_cons {first : Option Int} {rest : List Operator} (here : PlantsOperator parent scope operator)
    (later : ∀ own last, PlantsChain (first.or (some own)) last scope rest) :
    PlantsChain first parent scope (operator :: rest) := by
  intro before unlinked
  refine placeFrom_cons_ends (here unlinked.1) fun own link middle planted => ?_
  refine ((later own link) unlinked.2).weaken ?_ fun _ _ _ => trivial
  intro placed after ended
  obtain ⟨_, found, further⟩ := ended
  refine ⟨own, ?_, .next planted.planted further.planted, fun opened => further.opened (planted.opened opened)⟩
  cases first with
  | none => exact found
  | some given => exact found

private theorem plantsBranches_cons {branch : List Operator} {rest : List (List Operator)}
    (here : PlantsChain none parent scope branch) (later : PlantsBranches parent scope rest) :
    PlantsBranches parent scope (branch :: rest) := by
  intro before unlinked
  refine placeBranches_cons_ends (here unlinked.1) fun first last middle planted => ?_
  obtain ⟨own, _, planted⟩ := planted
  refine (later unlinked.2).weaken ?_ fun _ _ _ => trivial
  intro lasts after further
  exact ⟨.branch planted.planted further.planted, fun opened => further.opened (planted.opened opened)⟩

private theorem plants : (∀ parent scope operator, PlantsOperator parent scope operator) ∧
    (∀ parent scope branches, PlantsBranches parent scope branches) ∧
    ∀ first parent scope operators, PlantsChain first parent scope operators := by
  refine place.mutual_induct PlantsOperator PlantsBranches PlantsChain ?_ ?_ ?_ ?_ ?_ ?_ ?_
  · intro _ _ _ _ _ _ inner
    exact plantsOperator_apply inner
  · intro _ _ _ _ _ inner
    exact plantsOperator_union inner
  · intro _ _ _ noApply noUnion
    exact plantsOperator_bare ⟨noApply, noUnion⟩
  · intro _ _ _ _ _
    exact .pure ⟨_, rfl, .done, id⟩
  · intro _ _ _ _ _ here later
    exact plantsChain_cons here later
  · intro _ _ _ _
    exact .pure ⟨.unbranched, id⟩
  · intro _ _ _ _ here later
    exact plantsBranches_cons here later

theorem place_plants (unlinked : operator.Unlinked) : (place PlanGraph.accumulator parent scope operator).Ends before
    (fun placed after => Plants before parent (.operator operator) after (.ends placed.1 placed.2)) fun _ _ => True :=
  plants.1 parent scope operator unlinked

theorem placeBranches_plants {branches : List (List Operator)} (unlinked : Operator.UnlinkedBranches branches) :
    (placeBranches PlanGraph.accumulator parent scope branches).Ends before
      (fun lasts after => Plants before parent (.branches branches) after (.lasts lasts)) fun _ _ => True :=
  plants.2.1 parent scope branches unlinked

theorem placeFrom_plants {first : Option Int} {operators : List Operator} (unlinked : Operator.UnlinkedAll operators) :
    (placeFrom PlanGraph.accumulator first parent scope operators).Ends before
      (fun placed after => ∃ own, placed.1 = first.getD own ∧
        Plants before parent (.chain operators) after (.ends own placed.2)) fun _ _ => True :=
  plants.2.2 first parent scope operators unlinked

/-- Operators that are appended to a plan are planted there. -/
theorem appendAll_plants {operators : List Operator} {placed : Int × Int} {after : Assembly PlanGraph}
    (unlinked : Operator.UnlinkedAll operators)
    (assembled : (appendAll PlanGraph.accumulator (-1) operators).run before = (.ok placed, after)) :
    Plants before (-1) (.chain operators) after (.ends placed.1 placed.2) := by
  have ends : (appendAll PlanGraph.accumulator (-1) operators).Ends before _ _ := placeFrom_plants unlinked
  obtain ⟨own, found, planted⟩ := ends.answer assembled
  rw [found]
  exact planted

end Assembly

end TraversalPlanner
