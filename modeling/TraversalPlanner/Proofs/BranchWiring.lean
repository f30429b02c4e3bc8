import TraversalPlanner.Proofs.BlueprintPieces
import TraversalPlanner.Proofs.BuiltOperators
import TraversalPlanner.Proofs.TagWalks

/-! How the branches of unions and the sub-plans of applies are tied in. Where an operator is put there are the nodes of
its own blueprint, so the blueprint tells what a union lists, what its branches go on from and which node an apply
names; and since the places of a sub-plan are closed, so are its nodes. -/

namespace TraversalPlanner

open Proofs

namespace PlanGraph

variable {plan after : PlanGraph} {berths ahead behind : List Berth} {operators : List Operator} {operator : Operator}
  {place index : Nat} {under parent : Int} {node : PlanNode}

/-- From a number on, the plan has a node in each of the places. -/
def Seats (plan : PlanGraph) (place : Nat) (berths : List Berth) : Prop :=
  ∀ (index : Nat) berth, berths[index]? = some berth → ∃ node, plan.nodes[place + index]? = some node ∧ berth.Fits node

/-- From a number on, the plan has a node for each of the occupants. -/
def HousesAt (plan : PlanGraph) (place : Nat) (occupants : List Occupant) : Prop :=
  ∀ (index : Nat) occupant, occupants[index]? = some occupant →
    ∃ node, plan.nodes[place + index]? = some node ∧ occupant.Becomes node.op

theorem Fills.berth (fills : plan.Fills after berths) (found : after.nodes[plan.size + index]? = some node) :
    ∃ berth, berths[index]? = some berth ∧ berth.Fits node := by
  obtain ⟨nodes, grown, each⟩ := fills
  rw [grown, PlanGraph.size, List.getElem?_append_right (Nat.le_add_right _ _), Nat.add_sub_cancel_left] at found
  exact related_at each found

theorem Fills.seats (fills : plan.Fills after berths) : after.Seats plan.size berths := by
  intro index berth found
  obtain ⟨nodes, grown, each⟩ := fills
  rw [grown, PlanGraph.size, List.getElem?_append_right (Nat.le_add_right _ _), Nat.add_sub_cancel_left]
  exact related_at each.flip found

theorem Fills.older (fills : plan.Fills after berths) (old : index < plan.size) :
    after.nodes[index]? = plan.nodes[index]? := by
  obtain ⟨nodes, grown, _⟩ := fills
  rw [grown]
  exact List.getElem?_append_left old

theorem Seats.middle (seats : plan.Seats place (ahead ++ berths ++ behind)) : plan.Seats (place + ahead.length) berths := by
  intro index berth found
  have inside : index < berths.length := (List.getElem?_eq_some_iff.mp found).1
  rw [Nat.add_assoc]
  refine seats (ahead.length + index) berth ?_
  rw [List.append_assoc, List.getElem?_append_right (Nat.le_add_right _ _), Nat.add_sub_cancel_left,
    List.getElem?_append_left inside]
  exact found

theorem Seats.houses (seats : plan.Seats place (Operator.blueprintOf place under operator)) :
    plan.HousesAt place (Operator.occupantsOf operator) := by
  intro index occupant found
  rw [← Operator.blueprintOf_occupants place under operator, List.getElem?_map] at found
  obtain ⟨berth, there, rfl⟩ := Option.map_eq_some_iff.mp found
  obtain ⟨node, found, fits⟩ := seats index berth there
  exact ⟨node, found, fits.becomes⟩

theorem Seats.own (seats : plan.Seats place (Operator.blueprintOf place under operator)) :
    ∃ node, plan.nodes[place + operator.innerCount]? = some node ∧
      operator.toNode (operator.linksAt place under) = .ok node.op ∧
      node.parents = operator.parentsAt (operator.linksAt place under) under := by
  rw [Operator.blueprintOf_eq, ← List.append_nil (_ ++ _)] at seats
  have own := seats.middle 0 _ rfl
  rw [Operator.length_blueprintEach] at own
  obtain ⟨node, found, fits⟩ := own
  cases fits with
  | operator lowered under => exact ⟨node, found, lowered, under⟩

/-- Where an operator has been put there are the nodes of its own blueprint. -/
theorem Fills.seats_of_puts {start : PlanGraph} (fills : start.Fills after (Operator.blueprint start.size parent operators))
    (unlinked : Operator.UnlinkedAll operators) (before : parent < start.size)
    (puts : Operator.Puts operators start.size parent operator place under) :
    after.Seats place (Operator.blueprintOf place under operator) := by
  obtain ⟨ahead, behind, piece⟩ := puts.piece unlinked before
  have seats := fills.seats
  rw [piece.split] at seats
  rw [piece.begins] at seats ⊢
  exact seats.middle

/-- Every node comes behind its parents. -/
def Ordered (plan : PlanGraph) : Prop :=
  ∀ (id : Nat) node, plan.nodes[id]? = some node → ∀ parent ∈ node.parents, parent < id

/-- A union whose branches go on from a node: it lists the last node of each branch, in their order, and has these as
its parents; an operator that begins a branch has that node as its only parent, unless it is itself a union. -/
structure Unites (plan : PlanGraph) (place source : Nat) (union : Operator) : Prop where
  own : ∃ node, plan.nodes[place + union.innerCount]? = some node ∧
    node.op = .union (Operator.lastNodes place source union.inner) ∧
    node.parents.map (fun id : Nat => (id : Int)) = Operator.lastNodes place source union.inner
  heads : ∀ front first rest back, union.inner = front ++ (first :: rest) :: back → first.kind ≠ .union →
    ∃ node, plan.nodes[place + Operator.nodeCountEach front + first.innerCount]? = some node ∧
      node.op.kind? = some first.kind ∧ node.parents = [source]

/-- An apply behind the nodes of its sub-plan: it names the node of the first operator there, and all edges are between
two nodes of the sub-plan or between two other nodes. -/
structure Encloses (plan : PlanGraph) (place : Nat) (apply : Operator) : Prop where
  own : ∃ node join first rest, apply.inner = [first :: rest] ∧ plan.nodes[place + apply.innerCount]? = some node ∧
    node.op = .apply join (place + first.innerCount : Nat) none
  apart : ∀ parent child, plan.Child parent child →
    (place ≤ parent ∧ parent < place + apply.innerCount ↔ place ≤ child ∧ child < place + apply.innerCount)

theorem map_toNat? {nodes : List Int} (positive : ∀ node ∈ nodes, 0 ≤ node) :
    (nodes.filterMap Int.toNat?).map (fun id : Nat => (id : Int)) = nodes := by
  induction nodes with
  | nil => rfl
  | cons node rest step =>
    obtain ⟨id, rfl⟩ := Int.eq_ofNat_of_zero_le (positive node List.mem_cons_self)
    exact congrArg (List.cons (id : Int)) (step fun node member => positive node (List.mem_cons_of_mem _ member))

theorem Seats.union {source : Nat} (seats : plan.Seats place (Operator.blueprintOf place source operator))
    (unlinked : operator.Unlinked) (union : operator.kind = .union) :
    ∃ node, plan.nodes[place + operator.innerCount]? = some node ∧
      node.op = .union (Operator.lastNodes place source operator.inner) ∧
      node.parents.map (fun id : Nat => (id : Int)) = Operator.lastNodes place source operator.inner := by
  obtain ⟨node, found, lowered, under⟩ := seats.own
  refine ⟨node, found, ?_⟩
  obtain ⟨args, tag⟩ := operator
  cases args with
  | union branches parents =>
    obtain ⟨first, rest, given, op⟩ := Operator.toNode_union lowered
    cases branches with
    | none =>
      cases unlinked
      cases given
    | some branches =>
      have joined : Operator.lastNodes place source branches = first :: rest := Option.some.inj given
      refine ⟨op.trans (congrArg NodeOp.union joined.symm), ?_⟩
      rw [under]
      refine map_toNat? fun node listed => ?_
      have within := Operator.lastNodes_within listed
      omega
  | _ => cases union

theorem Seats.apply (seats : plan.Seats place (Operator.blueprintOf place under operator))
    (unlinked : operator.Unlinked) (apply : operator.kind = .apply) :
    ∃ node join first rest, operator.inner = [first :: rest] ∧ plan.nodes[place + operator.innerCount]? = some node ∧
      node.op = .apply join (place + first.innerCount : Nat) none := by
  obtain ⟨node, found, lowered, _⟩ := seats.own
  obtain ⟨args, tag⟩ := operator
  cases args with
  | apply sub subRoot join =>
    obtain ⟨_, kind, root, given, positive, op⟩ := Operator.toNode_apply lowered
    cases sub with
    | none =>
      cases unlinked
      cases given
    | some sub =>
      obtain rfl : Operator.firstNode place (-1) sub = root := Option.some.inj given
      cases sub with
      | nil => exact absurd positive (Int.not_le.mpr (Int.negSucc_lt_zero 0))
      | cons first rest => exact ⟨node, kind, first, rest, rfl, found, op⟩
  | _ => cases apply

/-- Operators that are not unions go on from the one node that they are put under. -/
theorem Seats.single (seats : plan.Seats place (Operator.blueprintOf place under operator))
    (single : operator.kind ≠ .union) : ∃ node, plan.nodes[place + operator.innerCount]? = some node ∧
      node.op.kind? = some operator.kind ∧ node.parents = under.toNat?.toList := by
  obtain ⟨node, found, lowered, under⟩ := seats.own
  refine ⟨node, found, (Operator.lowersTo_of_toNode lowered).kind, ?_⟩
  rw [under]
  obtain ⟨args, tag⟩ := operator
  cases args with
  | union => exact absurd rfl single
  | _ => rfl

section Wired

variable {start : PlanGraph} (fills : start.Fills after (Operator.blueprint start.size parent operators))
  (unlinked : Operator.UnlinkedAll operators) (before : parent < start.size)

include fills unlinked before

theorem unites_of_puts {source : Nat} (puts : Operator.Puts operators start.size parent operator place source)
    (union : operator.kind = .union) : after.Unites place source operator where
  own := by
    obtain ⟨_, _, piece⟩ := puts.piece unlinked before
    exact (fills.seats_of_puts unlinked before puts).union piece.unlinked union
  heads := by
    intro front first rest back inside single
    have here : Operator.Puts (first :: rest) (place + Operator.nodeCountEach front) (operator.innerParent source)
        first (place + Operator.nodeCountEach front) source := by
      rw [Operator.innerParent_of_union union]
      exact .here
    have further := puts.trans inside here
    exact (fills.seats_of_puts unlinked before further).single single

theorem encloses_of_puts (ordered : start.Ordered) (puts : Operator.Puts operators start.size parent operator place under)
    (apply : operator.kind = .apply) : after.Encloses place operator where
  own := by
    obtain ⟨_, _, piece⟩ := puts.piece unlinked before
    exact (fills.seats_of_puts unlinked before puts).apply piece.unlinked apply
  apart := by
    intro source child edge
    obtain ⟨node, found, member⟩ := edge
    obtain ⟨_, _, piece⟩ := puts.piece unlinked before
    -- An edge that was there before is between old nodes; any other is that of a place in the blueprint.
    rcases Nat.lt_or_ge child start.size with old | new
    · rw [fills.older old] at found
      have earlier := ordered child node found source member
      have begins := piece.begins
      omega
    · obtain ⟨index, rfl⟩ := Nat.exists_eq_add_of_le new
      obtain ⟨berth, there, fits⟩ := fills.berth found
      rw [fits.parents_eq] at member
      exact piece.closed (Operator.grounded_blueprint unlinked _ _) before (by rw [apply]; decide) there member

end Wired

end PlanGraph

/-- Parents come before their children in every plan that calls let grow. -/
theorem Grown.run_ordered (schema : Option Schema) (calls : List Growth) : (Grown.run schema calls).plan.Ordered := by
  intro id node found parent member
  refine (Grown.sound_run schema calls).earlier id parent (List.mem_append_left _ ?_)
  rw [found]
  exact member

namespace Assembly

/-- Parents come before their children in every plan. When the operators of a traversal are appended under a node of such
a plan, each of them, however deep it is nested, is put somewhere. From there on are the nodes of the operators in it and
its own node, which is under nothing but what the operator is put under, unless it is a union. Unions that are put under
a node unite their branches, and applies enclose their sub-plans. -/
theorem branches_wired :
    (∀ schema calls, (Grown.run schema calls).plan.Ordered) ∧
    ∀ (traversal : Traversal) (operators : List Operator) (before after : Assembly PlanGraph) (parent : Nat)
      (placed : Int × Int), traversal.build = .ok operators → before.store.Ordered → parent < before.store.size →
      (appendAll PlanGraph.accumulator parent operators).run before = (.ok placed, after) →
        (∀ operator : Operator, operator.Among operators →
          ∃ place under, Operator.Puts operators before.store.size parent operator place under) ∧
        ∀ operator place under, Operator.Puts operators before.store.size parent operator place under →
          after.store.HousesAt place (Operator.occupantsOf operator) ∧
          (operator.kind ≠ .union → ∃ node, after.store.nodes[place + operator.innerCount]? = some node ∧
            node.op.kind? = some operator.kind ∧ node.parents = under.toNat?.toList) ∧
          (operator.kind = .union → ∀ source : Nat, under = source → after.store.Unites place source operator) ∧
          (operator.kind = .apply → after.store.Encloses place operator) := by
  refine ⟨Grown.run_ordered, fun traversal operators before after parent placed built ordered inside appended => ?_⟩
  have unlinked := (Traversal.faithful traversal operators built).unlinked
  have some : before.store.nodes ≠ [] := List.ne_nil_of_length_pos (Nat.zero_lt_of_lt inside)
  have fills := appendAll_fills some appended
  have earlier : (parent : Int) < before.store.size := Int.ofNat_lt.mpr inside
  refine ⟨fun operator among => Operator.exists_puts among _ _, fun operator place under puts => ?_⟩
  have seats := fills.seats_of_puts unlinked earlier puts
  refine ⟨seats.houses, seats.single, fun union source same => ?_, fun apply => ?_⟩
  · subst same
    exact PlanGraph.unites_of_puts fills unlinked earlier puts union
  · exact PlanGraph.encloses_of_puts fills unlinked earlier ordered puts apply

/-- A plan of all vertices. -/
def vertexPlan : Assembly PlanGraph where
  store := (Grown.run none [.append (.scan .vertex none ⟨[], [], none, none⟩ none) [-1]]).plan
  state := .building

/-- Goes to a few neighbours or stays, and keeps what has a neighbour, however that is reached. -/
def detour : Traversal :=
  (Traversal.add [] (.union [((Traversal.out [] []).add (.limit 3)).named "few", []])).add
    (.whereTraversal ((Traversal.out [] []).add (.union [Traversal.into [] [], []])))

def along (direction : Direction) : Operator := ⟨.expand (Operator.expandArgs direction false []), none⟩

def fewOrHere : Operator :=
  ⟨.union (some [[along .outgoing, ⟨.limit (some 0) (some 3), some (.written "few")⟩], []]) none, none⟩

def backOrThere : Operator := ⟨.union (some [[along .incoming], []]) none, none⟩

def reachable : Operator := ⟨.apply (some [along .outgoing, backOrThere]) none (some .semi), none⟩

theorem detour_build : detour.build = .ok [fewOrHere, reachable] := by
  with_unfolding_all rfl

theorem detour_wired : ∃ placed after,
    (appendAll PlanGraph.accumulator (0 : Nat) [fewOrHere, reachable]).run vertexPlan = (.ok placed, after) ∧
      after.store.Unites 1 0 fewOrHere ∧ after.store.Unites 6 5 backOrThere ∧ after.store.Encloses 5 reachable := by
  obtain ⟨ordered, wired⟩ := branches_wired
  have passes : ((appendAll PlanGraph.accumulator (0 : Nat) [fewOrHere, reachable]).run vertexPlan).1.isOk = true := by
    decide +kernel
  obtain ⟨placed, after, ran⟩ := Assembling.ran_of_isOk passes
  have each := (wired detour _ vertexPlan after 0 placed detour_build (ordered none _) (by decide +kernel) ran).2
  have sub : reachable.inner = [] ++ [along .outgoing, backOrThere] :: [] := rfl
  have first : Operator.Puts [fewOrHere, reachable] 1 0 fewOrHere 1 0 := .here
  have second : Operator.Puts [fewOrHere, reachable] 1 0 reachable 5 4 := .later .here
  have nested : Operator.Puts [fewOrHere, reachable] 1 0 backOrThere 6 5 := second.trans sub (.later .here)
  exact ⟨placed, after, ran, (each _ _ _ first).2.2.1 rfl 0 rfl, (each _ _ _ nested).2.2.1 rfl 5 rfl,
    (each _ _ _ second).2.2.2 rfl⟩

end Assembly

end TraversalPlanner
