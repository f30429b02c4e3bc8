import TraversalPlanner.Proofs.NodeCounts

/-! Where operators end up in a plan. From the operators, the size of the plan and the node that they are put under,
one can tell in advance which nodes there will be, in what order, which other nodes each of them refers to and what
its parents are. Operators that are appended do become the nodes of that blueprint. -/

namespace TraversalPlanner

/-- A place for a node: that of an operator with its links and its parents, or that of a name behind a node. -/
inductive Berth where
  | operator (operator : Operator) (links : Links) (parents : List Nat)
  | name (tag : Identifier) (own : Nat)

namespace Berth

variable {berth : Berth} {node : PlanNode}

def occupant : Berth → Occupant
  | .operator given _ _ => .operator given
  | .name tag _ => .name tag

def parents : Berth → List Nat
  | .operator _ _ parents => parents
  | .name _ own => [own]

/-- The node is in its place. -/
inductive Fits : Berth → PlanNode → Prop
  | operator {operator : Operator} {links : Links} {parents : List Nat} {node : PlanNode}
      (lowered : operator.toNode links = .ok node.op) (under : node.parents = parents) :
      Fits (.operator operator links parents) node
  | name {tag : Identifier} {own : Nat} {node : PlanNode} (binds : node.op = .bind tag) (under : node.parents = [own]) :
      Fits (.name tag own) node

theorem Fits.parents_eq (fits : berth.Fits node) : node.parents = berth.parents := by
  cases fits with
  | operator _ under => exact under
  | name _ under => exact under

theorem Fits.becomes (fits : berth.Fits node) : berth.occupant.Becomes node.op := by
  cases fits with
  | operator lowered _ => exact .operator lowered
  | name binds _ =>
    rw [binds]
    exact .name _

end Berth

namespace Operator

variable {operator : Operator} {start : Nat} {parent : Int}

/-- The own node of the first operator, when the next node gets the number `start`. -/
def firstNode (start : Nat) (parent : Int) : List Operator → Int
  | [] => parent
  | first :: _ => (start + first.innerCount : Nat)

/-- The last node of all, or what there was before. -/
def lastNode (start : Nat) (parent : Int) : List Operator → Int
  | [] => parent
  | first :: rest => ((start + nodeCountAll (first :: rest) : Nat) : Int) - 1

/-- The last node of each branch. -/
def lastNodes (start : Nat) (parent : Int) : List (List Operator) → List Int
  | [] => []
  | branch :: rest => lastNode start parent branch :: lastNodes (start + nodeCountAll branch) parent rest

/-- A sub-plan has its own beginning, branches go on where the union would have. -/
def innerParent (operator : Operator) (parent : Int) : Int :=
  match operator.args with
  | .union .. => parent
  | _ => -1

def linksAt (operator : Operator) (start : Nat) (parent : Int) : Links :=
  match operator.args with
  | .apply (some sub) _ _ => { subRoot := some (firstNode start (-1) sub), parents := none }
  | .union (some branches) _ => { subRoot := none, parents := some (lastNodes start parent branches) }
  | _ => operator.links

/-- A union is under the nodes that it joins, everything else under what comes before it. -/
def parentsAt (operator : Operator) (links : Links) (parent : Int) : List Nat :=
  match operator.args with
  | .union .. => (links.parents.getD []).filterMap Int.toNat?
  | _ => parent.toNat?.toList

/-- The places that an operator takes besides those of the operators in it. -/
def berths (operator : Operator) (links : Links) (parent : Int) (own : Nat) : List Berth :=
  .operator operator links (operator.parentsAt links parent) :: operator.trailing.toList.map fun tag => .name tag own

def ownBerths (operator : Operator) (start : Nat) (parent : Int) : List Berth :=
  operator.berths (operator.linksAt start parent) parent (start + operator.innerCount)

mutual
/-- The places that operators take under a parent when the next node gets the number `start`. -/
def blueprint (start : Nat) (parent : Int) : List Operator → List Berth
  | [] => []
  | operator :: rest =>
    blueprintOf start parent operator ++
      blueprint (start + operator.nodeCount) (((start + operator.nodeCount : Nat) : Int) - 1) rest
termination_by structural operators => operators

def blueprintOf (start : Nat) (parent : Int) : Operator → List Berth
  | ⟨.apply (some sub) subRoot join, tag⟩ =>
    blueprint start (-1) sub ++ ownBerths ⟨.apply (some sub) subRoot join, tag⟩ start parent
  | ⟨.union (some branches) parents, tag⟩ =>
    blueprintEach start parent branches ++ ownBerths ⟨.union (some branches) parents, tag⟩ start parent
  | operator => ownBerths operator start parent
termination_by structural operator => operator

def blueprintEach (start : Nat) (parent : Int) : List (List Operator) → List Berth
  | [] => []
  | branch :: rest => blueprint start parent branch ++ blueprintEach (start + nodeCountAll branch) parent rest
termination_by structural branches => branches
end

theorem blueprintOf_eq (operator : Operator) (start : Nat) (parent : Int) : blueprintOf start parent operator =
    blueprintEach start (operator.innerParent parent) operator.inner ++ ownBerths operator start parent := by
  rcases operator.bare_or_branching with bare | ⟨sub, subRoot, join, tag, rfl⟩ | ⟨branches, parents, tag, rfl⟩
  · rw [blueprintOf.eq_3 _ _ operator bare.1 bare.2, inner_of_bare bare, blueprintEach, List.nil_append]
  · rw [blueprintOf, inner, blueprintEach, blueprintEach, List.append_nil]
    rfl
  · rw [blueprintOf, inner]
    rfl

theorem ownBerths_occupants (operator : Operator) (start : Nat) (parent : Int) :
    (ownBerths operator start parent).map Berth.occupant = own operator := by
  rw [ownBerths, berths, List.map_cons, List.map_map]
  rfl

/-- What holds of all that operators take, if it does when it holds of what is in each of them. -/
theorem blueprint_induction (chain : Nat → Int → List Operator → Prop) (each : Nat → Int → List (List Operator) → Prop)
    (done : ∀ start parent, chain start parent [])
    (next : ∀ start parent (operator : Operator) rest, each start (operator.innerParent parent) operator.inner →
      chain (start + operator.nodeCount) (((start + operator.nodeCount : Nat) : Int) - 1) rest →
      chain start parent (operator :: rest))
    (unbranched : ∀ start parent, each start parent [])
    (branch : ∀ start parent branch rest, chain start parent branch →
      each (start + nodeCountAll branch) parent rest → each start parent (branch :: rest)) :
    (∀ start parent operators, chain start parent operators) ∧ ∀ start parent branches, each start parent branches := by
  have all := blueprint.mutual_induct chain
    (fun start parent operator => each start (operator.innerParent parent) operator.inner) each
    (fun start _ sub _ _ _ inner => branch start (-1) sub [] inner (unbranched _ _)) (fun _ _ _ _ _ inner => inner)
    (fun start parent operator noApply noUnion => inner_of_bare ⟨noApply, noUnion⟩ ▸ unbranched start _)
    done next unbranched branch
  exact ⟨all.1, all.2.2⟩

theorem blueprints_occupants :
    (∀ start parent operators, (blueprint start parent operators).map Berth.occupant = occupants operators) ∧
    ∀ start parent branches, (blueprintEach start parent branches).map Berth.occupant = branches.flatMap occupants := by
  refine blueprint_induction _ _ (fun _ _ => rfl) (fun start parent operator rest inside later => ?_) (fun _ _ => rfl)
    fun start parent branch rest here later => ?_
  · rw [blueprint, List.map_append, later, blueprintOf_eq, List.map_append, inside, ownBerths_occupants, occupants,
      occupantsOf_eq]
  · rw [blueprintEach, List.map_append, here, later, List.flatMap_cons]

theorem blueprintOf_occupants (start : Nat) (parent : Int) (operator : Operator) :
    (blueprintOf start parent operator).map Berth.occupant = occupantsOf operator := by
  rw [blueprintOf_eq, List.map_append, blueprints_occupants.2, ownBerths_occupants, occupantsOf_eq]

theorem length_blueprint (start : Nat) (parent : Int) (operators : List Operator) :
    (blueprint start parent operators).length = nodeCountAll operators := by
  rw [← length_occupants, ← blueprints_occupants.1 start parent operators, List.length_map]

theorem length_blueprintEach (start : Nat) (parent : Int) (branches : List (List Operator)) :
    (blueprintEach start parent branches).length = nodeCountEach branches := by
  rw [← length_flatMap_occupants, ← blueprints_occupants.2 start parent branches, List.length_map]

theorem length_ownBerths (operator : Operator) (start : Nat) (parent : Int) :
    (ownBerths operator start parent).length = ownCount operator := by
  rw [← length_own, ← ownBerths_occupants operator start parent, List.length_map]

theorem length_blueprintOf (start : Nat) (parent : Int) (operator : Operator) :
    (blueprintOf start parent operator).length = nodeCount operator := by
  rw [blueprintOf_eq, List.length_append, length_blueprintEach, length_ownBerths, nodeCount_eq]
  rfl

theorem linksAt_of_bare (bare : operator.Bare) : operator.linksAt start parent = operator.links := by
  obtain ⟨args, tag⟩ := operator
  unfold linksAt
  split
  · next sub subRoot join same => exact absurd (congrArg (Operator.mk · tag) same) (bare.1 sub subRoot join tag)
  · next branches parents same => exact absurd (congrArg (Operator.mk · tag) same) (bare.2 branches parents tag)
  · rfl

theorem lastNode_next (operator : Operator) (rest : List Operator) (start : Nat) (parent : Int) :
    lastNode (start + operator.nodeCount) (((start + operator.nodeCount : Nat) : Int) - 1) rest =
      lastNode start parent (operator :: rest) := by
  cases rest with
  | nil => rfl
  | cons next others => rw [lastNode, lastNode, Nat.add_assoc, nodeCountAll.eq_2 operator]

/-- What a node asks for is where its place is. -/
theorem inputs_of_toNode {links : Links} {op : NodeOp Int} (lowered : operator.toNode links = .ok op) (parent : Int) :
    (op.inputs parent).filterMap Int.toNat? = operator.parentsAt links parent := by
  have kind := (lowersTo_of_toNode lowered).kind
  obtain ⟨args, tag⟩ := operator
  by_cases joins : args.kind = .union
  · cases args with
    | union branches parents =>
      obtain ⟨first, rest, given, rfl⟩ := toNode_union lowered
      rw [parentsAt, given]
      rfl
    | _ => cases joins
  · have single : op.isUnion = false := by
      cases op with
      | union parents => exact absurd (Option.some.inj kind).symm joins
      | _ => rfl
    rw [NodeOp.inputs_of_single single]
    cases args with
    | union branches parents => exact absurd rfl joins
    | _ => cases parent <;> rfl

end Operator

namespace PlanGraph

variable {plan middle after : PlanGraph} {first second : List Berth} {op : NodeOp Int} {own : Nat}

/-- The plan has grown by a node in each of the places. -/
def Fills (plan after : PlanGraph) (berths : List Berth) : Prop :=
  ∃ nodes, after.nodes = plan.nodes ++ nodes ∧ List.Forall₂ Berth.Fits berths nodes

theorem Fills.none (plan : PlanGraph) : plan.Fills plan [] := ⟨[], (List.append_nil _).symm, .nil⟩

theorem Fills.append (one : plan.Fills middle first) (two : middle.Fills after second) :
    plan.Fills after (first ++ second) := by
  obtain ⟨nodes, same, each⟩ := one
  obtain ⟨others, further, rest⟩ := two
  exact ⟨nodes ++ others, by rw [further, same, List.append_assoc], List.rel_append each rest⟩

theorem Fills.size {berths : List Berth} (fills : plan.Fills after berths) : after.size = plan.size + berths.length := by
  obtain ⟨nodes, grown, each⟩ := fills
  rw [each.length_eq, PlanGraph.size, grown, List.length_append]
  rfl

theorem fills_grow {berth : Berth} {parents : List Nat} {visible : List Identifier}
    (fits : ∀ node : PlanNode, node.op = op → node.parents = parents → berth.Fits node) :
    plan.Fills (plan.grow op parents visible) [berth] :=
  ⟨[_], rfl, .cons (fits _ rfl rfl) .nil⟩

/-- In a plan that has a node already, a node gets the parents that it asks for. -/
theorem asked_of_enter {inputs : List Int} {scope : Int} (some : plan.nodes ≠ [])
    (entered : plan.enter op inputs scope = .ok (own, after)) :
    own = plan.size ∧ ∃ visible, after = plan.grow op (inputs.filterMap Int.toNat?) visible := by
  obtain ⟨parents, _, resolves, found, _⟩ := (lands_of_enter none entered).nodes
  obtain ⟨rfl, others, visible, rfl⟩ := grown_of_enter entered
  have same : parents = others := by
    rw [bindBehind, newest_grow] at found
    exact (congrArg PlanNode.parents (Option.some.inj found)).symm
  refine ⟨rfl, visible, ?_⟩
  subst same
  rcases resolves.asked with ⟨rfl, none | rfl⟩ | rfl
  · exact absurd none some
  · rfl
  · rw [List.filterMap_map]
    exact congrArg (grow plan op · visible) (List.filterMap_some).symm

end PlanGraph

namespace Assembly

open Assembling

variable {parent scope : Int} {operator : Operator} {before : Assembly PlanGraph}

theorem fills_of_enter {plan middle : PlanGraph} {links : Links} {op : NodeOp Int} {own : Nat} (some : plan.nodes ≠ [])
    (lowered : operator.toNode links = .ok op) (entered : plan.enter op (op.inputs parent) scope = .ok (own, middle)) :
    own = plan.size ∧ (middle.bindBehind own operator.trailing).1 = own + operator.trailing.toList.length ∧
      plan.Fills (middle.bindBehind own operator.trailing).2 (operator.berths links parent own) := by
  obtain ⟨rfl, visible, rfl⟩ := PlanGraph.asked_of_enter some entered
  rw [Operator.inputs_of_toNode lowered]
  have here : plan.Fills (plan.grow op (operator.parentsAt links parent) visible)
      [.operator operator links (operator.parentsAt links parent)] :=
    PlanGraph.fills_grow fun node same under => .operator (same ▸ lowered) under
  unfold Operator.berths
  cases operator.trailing with
  | none => exact ⟨rfl, rfl, here⟩
  | some tag =>
    exact ⟨rfl, PlanGraph.size_grow _ _, here.append (PlanGraph.fills_grow fun node same under => .name same under)⟩

private def FillsOperator (parent scope : Int) (operator : Operator) : Prop :=
  ∀ {before : Assembly PlanGraph}, before.store.nodes ≠ [] → (place PlanGraph.accumulator parent scope operator).Ends before
    (fun placed after => placed.1 = (before.store.size + operator.innerCount : Nat) ∧
      placed.2 = ((before.store.size + operator.nodeCount : Nat) : Int) - 1 ∧
      before.store.Fills after.store (Operator.blueprintOf before.store.size parent operator)) fun _ _ => True

private def FillsBranches (parent scope : Int) (branches : List (List Operator)) : Prop :=
  ∀ {before : Assembly PlanGraph}, before.store.nodes ≠ [] →
    (placeBranches PlanGraph.accumulator parent scope branches).Ends before
      (fun lasts after => lasts = Operator.lastNodes before.store.size parent branches ∧
        before.store.Fills after.store (Operator.blueprintEach before.store.size parent branches)) fun _ _ => True

private def FillsChain (first : Option Int) (parent scope : Int) (operators : List Operator) : Prop :=
  ∀ {before : Assembly PlanGraph}, before.store.nodes ≠ [] →
    (placeFrom PlanGraph.accumulator first parent scope operators).Ends before
      (fun placed after => placed.1 = first.getD (Operator.firstNode before.store.size parent operators) ∧
        placed.2 = Operator.lastNode before.store.size parent operators ∧
        before.store.Fills after.store (Operator.blueprint before.store.size parent operators)) fun _ _ => True

theorem nonempty_of_fills {plan after : PlanGraph} {berths : List Berth} (fills : plan.Fills after berths)
    (some : plan.nodes ≠ []) : after.nodes ≠ [] := by
  obtain ⟨nodes, grown, _⟩ := fills
  rw [grown]
  exact List.append_ne_nil_of_left_ne_nil some nodes

/-- What has been placed before are the operators inside; now the operator's own places are filled. -/
private theorem placeLinked_fills {middle : Assembly PlanGraph} {inside : List Berth} {links : Links}
    (some : before.store.nodes ≠ []) (held : before.store.Fills middle.store inside)
    (count : inside.length = operator.innerCount) (linked : links = operator.linksAt before.store.size parent)
    (whole : Operator.blueprintOf before.store.size parent operator =
      inside ++ operator.ownBerths before.store.size parent) :
    (placeLinked PlanGraph.accumulator parent scope operator links).Ends middle
      (fun placed after => placed.1 = (before.store.size + operator.innerCount : Nat) ∧
        placed.2 = ((before.store.size + operator.nodeCount : Nat) : Int) - 1 ∧
        before.store.Fills after.store (Operator.blueprintOf before.store.size parent operator)) fun _ _ => True := by
  have size : middle.store.size = before.store.size + operator.innerCount := by rw [held.size, count]
  refine placeLinked_ends_of_checks (fun _ _ => trivial) (fun _ _ _ _ => trivial) fun op own plan lowered entered => ?_
  obtain ⟨rfl, last, fills⟩ := fills_of_enter (nonempty_of_fills held some) lowered entered
  refine ⟨congrArg Nat.cast size, ?_, ?_⟩
  · have total := operator.nodeCount_eq
    have own := operator.ownCount_eq
    rw [last]
    omega
  · rw [whole, Operator.ownBerths, ← linked, ← size]
    exact held.append fills

private theorem fillsOperator_bare (bare : operator.Bare) : FillsOperator parent scope operator := by
  intro before some
  refine place_bare_ends_of_checks bare (fun _ => trivial) (fun _ _ => trivial) fun _ => ?_
  refine placeLinked_fills some (.none before.store) ?_ (Operator.linksAt_of_bare bare).symm ?_
  · rw [Operator.innerCount, Operator.inner_of_bare bare]
    rfl
  · rw [Operator.blueprintOf.eq_3 _ _ operator bare.1 bare.2, List.nil_append]

private theorem fillsOperator_apply {sub : List Operator} {subRoot : Option Int32} {join : Option JoinKind}
    {tag : Option Alias} (inner : FillsChain none (-1) (if 0 ≤ parent then parent else scope) sub) :
    FillsOperator parent scope ⟨.apply (some sub) subRoot join, tag⟩ := by
  intro before some
  refine place_apply_ends_of_checks (fun _ => trivial) (fun _ _ => trivial) (inner some) fun first middle held => ?_
  obtain ⟨found, _, held⟩ := held
  refine placeLinked_fills some held ?_ (by rw [found]; rfl) (by rw [Operator.blueprintOf])
  rw [Operator.length_blueprint]
  rfl

private theorem fillsOperator_union {branches : List (List Operator)} {parents : Option (List Int32)} {tag : Option Alias}
    (inner : FillsBranches parent scope branches) : FillsOperator parent scope ⟨.union (some branches) parents, tag⟩ := by
  intro before some
  refine place_union_ends_of_checks (fun _ => trivial) (fun _ _ => trivial) (inner some) fun lasts middle held => ?_
  obtain ⟨found, held⟩ := held
  refine placeLinked_fills some held ?_ (by rw [found]; rfl) (by rw [Operator.blueprintOf])
  rw [Operator.length_blueprintEach]
  rfl

private theorem fillsChain_cons {first : Option Int} {rest : List Operator} (here : FillsOperator parent scope operator)
    (later : ∀ own last, FillsChain (first.or (some own)) last scope rest) :
    FillsChain first parent scope (operator :: rest) := by
  intro before some
  refine placeFrom_cons_ends (here some) fun own last middle held => ?_
  obtain ⟨rfl, rfl, held⟩ := held
  have size : middle.store.size = before.store.size + operator.nodeCount := by rw [held.size, Operator.length_blueprintOf]
  refine (later _ _ (nonempty_of_fills held some)).weaken (fun placed after further => ?_) fun _ _ _ => trivial
  obtain ⟨found, ended, further⟩ := further
  rw [size] at further ended
  refine ⟨?_, ?_, held.append further⟩
  · rw [found]
    cases first <;> rfl
  · rw [ended]
    exact Operator.lastNode_next operator rest before.store.size parent

private theorem fillsBranches_cons {branch : List Operator} {rest : List (List Operator)}
    (here : FillsChain none parent scope branch) (later : FillsBranches parent scope rest) :
    FillsBranches parent scope (branch :: rest) := by
  intro before some
  refine placeBranches_cons_ends (here some) fun first last middle held => ?_
  obtain ⟨_, rfl, held⟩ := held
  have size : middle.store.size = before.store.size + Operator.nodeCountAll branch := by
    rw [held.size, Operator.length_blueprint]
  refine (later (nonempty_of_fills held some)).weaken (fun lasts after further => ?_) fun _ _ _ => trivial
  obtain ⟨rfl, further⟩ := further
  rw [size] at further
  refine ⟨?_, held.append further⟩
  rw [size]
  rfl

private theorem fillsChain (first : Option Int) (parent scope : Int) (operators : List Operator) :
    FillsChain first parent scope operators := by
  refine (place.mutual_induct FillsOperator FillsBranches FillsChain ?_ ?_ ?_ ?_ ?_ ?_ ?_).2.2 first parent scope operators
  · intro _ _ _ _ _ _ inner
    exact fillsOperator_apply inner
  · intro _ _ _ _ _ inner
    exact fillsOperator_union inner
  · intro _ _ _ noApply noUnion
    exact fillsOperator_bare ⟨noApply, noUnion⟩
  · intro _ _ _ before _
    exact .pure ⟨rfl, rfl, .none before.store⟩
  · intro _ _ _ _ _ here later
    exact fillsChain_cons here later
  · intro _ _ before _
    exact .pure ⟨rfl, .none before.store⟩
  · intro _ _ _ _ here later
    exact fillsBranches_cons here later

/-- Operators that are appended to a plan with nodes become the nodes of their blueprint. -/
theorem appendAll_fills {operators : List Operator} {placed : Int × Int} {after : Assembly PlanGraph}
    (some : before.store.nodes ≠ [])
    (appended : (appendAll PlanGraph.accumulator parent operators).run before = (.ok placed, after)) :
    before.store.Fills after.store (Operator.blueprint before.store.size parent operators) := by
  have ends : (appendAll PlanGraph.accumulator parent operators).Ends before _ _ := fillsChain none parent (-1) operators some
  exact (ends.answer appended).2.2

end Assembly

end TraversalPlanner
