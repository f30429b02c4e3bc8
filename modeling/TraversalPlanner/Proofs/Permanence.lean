import TraversalPlanner.Proofs.Release
import TraversalPlanner.Proofs.WellFormedNodes

/-! What appending leaves alone. An operator without operators of its own is appended as a whole or not at all: when
its node has entered, nothing can keep its name out. An operator with branches may fail when some of them have been
appended; even so the nodes that were there before are still the same, and only newer ones have come under them. -/

namespace TraversalPlanner

namespace PlanGraph

variable {plan after : PlanGraph}

/-- All that was there is still there, and what came under it is newer than all of it. -/
structure Keeps (plan after : PlanGraph) : Prop where
  nodes : plan.Extends after
  children : ∀ id : Nat, id < plan.size → ∃ added, after.children id = plan.children id ++ added ∧
    ∀ child ∈ added, plan.size ≤ child

/-- Children are listed in the order of the nodes. -/
theorem children_of_append {added : List PlanNode} (grown : after.nodes = plan.nodes ++ added) (id : Int) :
    ∃ others, after.children id = plan.children id ++ others ∧ ∀ child ∈ others, plan.size ≤ child := by
  unfold children
  rw [grown, List.zipIdx_append, List.flatMap_append]
  refine ⟨_, rfl, fun child listed => ?_⟩
  obtain ⟨⟨node, place⟩, entry, repeated⟩ := List.mem_flatMap.mp listed
  have behind := List.le_snd_of_mem_zipIdx entry
  rw [Nat.zero_add] at behind
  rw [List.eq_of_mem_replicate repeated]
  exact behind

theorem keeps_of_longer (grown : plan.nodes <+: after.nodes) : plan.Keeps after where
  nodes := by
    intro id node found
    obtain ⟨inside, same⟩ := List.getElem?_eq_some_iff.mp found
    rw [List.prefix_iff_getElem?.mp grown id inside, same]
  children := by
    intro id _
    obtain ⟨added, same⟩ := grown
    exact children_of_append same.symm id

theorem prefix_answer {op : NodeOp Int} {ground : Except Refusal (List Nat × List Identifier)}
    {result : Except Refusal (Nat × PlanGraph)} (appends : plan.Appends op ground result) :
    plan.nodes <+: (plan.answer result).2.nodes := by
  rcases nodes_answer appends with same | ⟨node, _, more⟩
  · exact same ▸ List.prefix_rfl
  · rw [more]
    exact List.prefix_append plan.nodes [node]

end PlanGraph

namespace Assembly

open Assembling

variable {parent scope : Int} {operator : Operator} {before : Assembly PlanGraph}

/-- An operator that holds no others leaves nothing behind when it cannot be placed. -/
theorem place_bare_whole (bare : operator.Bare) : (place PlanGraph.accumulator parent scope operator).Ends before
    (fun _ _ => True) fun _ after => after = before :=
  place_bare_ends_of_checks bare (fun _ => rfl) (fun _ _ => rfl) fun _ =>
    placeLinked_ends_of_checks (fun _ _ => rfl) (fun _ _ _ _ => rfl) fun _ _ _ _ _ => trivial

theorem append_whole (bare : operator.Bare) {error : Error} {after : Assembly PlanGraph}
    (failed : (append PlanGraph.accumulator parent operator).run before = (.error error, after)) : after = before := by
  have ends : (append PlanGraph.accumulator parent operator).Ends before (fun _ _ => True) fun _ after => after = before :=
    (place_bare_whole bare).bind _ fun _ _ _ => .pure trivial
  exact ends.fault failed

/-- The nodes come first in every plan that calls make of theirs. -/
theorem first_kept (nodes : List PlanNode) :
    KeptByCalls PlanGraph.accumulator (fun _ => True) fun assembly => nodes <+: assembly.store.nodes where
  append _ parents _ _ first := first.trans (PlanGraph.prefix_answer (PlanGraph.append_appends parents))
  appendRoot _ scope _ _ first := first.trans (PlanGraph.prefix_answer (PlanGraph.appendRoot_appends scope))
  text _ first := first
  bytes _ _ _ first := first
  begin _ first := first
  serialize _ first := first

theorem session_longer {requests : List Request} (more : .close ∉ requests) :
    before.store.nodes <+: (session PlanGraph.accumulator before requests).store.nodes := by
  -- Each request keeps the nodes that there are before it, so every step of the induction has its own property to keep.
  induction requests generalizing before with
  | nil => exact List.prefix_rfl
  | cons request rest later =>
    rw [List.mem_cons, not_or] at more
    have first := perform_keeps includes_all (first_kept before.store.nodes) List.prefix_rfl (Ne.symm more.1)
    exact first.trans (later more.2)

/-- An operator that is neither an apply nor a union changes nothing if it is not appended. Whatever is asked of an
assembly until it is closed, and whatever comes of it, the nodes that were there keep all that they had. -/
theorem appended_stays :
    (∀ (before after : Assembly PlanGraph) (parent : Int) (operator : Operator) (error : Error),
      operator.kind ≠ .apply → operator.kind ≠ .union →
        (append PlanGraph.accumulator parent operator).run before = (.error error, after) → after = before) ∧
    ∀ (before : Assembly PlanGraph) (requests : List Request), .close ∉ requests →
      before.store.Keeps (session PlanGraph.accumulator before requests).store := by
  refine ⟨fun before after parent operator error apart single failed => ?_, fun before requests more => ?_⟩
  · refine append_whole ⟨fun sub subRoot join tag same => ?_, fun branches parents tag same => ?_⟩ failed
    · exact apart (same ▸ rfl)
    · exact single (same ▸ rfl)
  · exact PlanGraph.keeps_of_longer (session_longer more)

/-- A window that ends before it begins. -/
def crossedLimit : Operator := ⟨.limit (some 3) (some 1), none⟩

/-- Two ways on, the second of which is refused when the first has been gone. -/
def halfWay : Operator :=
  let neighbours : Operator := ⟨.expand { ExpandArguments.empty with direction := some .both, isEdge := some false }, none⟩
  ⟨.union (some [[neighbours], [crossedLimit]]) none, none⟩

theorem halfWay_stays :
    let before := session PlanGraph.accumulator (start (.empty none))
      [.append (-1) ⟨.scan { ScanArguments.empty with target := some .vertex }, none⟩]
    (∃ error, (append PlanGraph.accumulator 0 crossedLimit).run before = (.error error, before)) ∧
      ((append PlanGraph.accumulator 0 halfWay).run before).1.isOk = false ∧
      ∃ after, after = session PlanGraph.accumulator before [.append 0 halfWay] ∧
        before.store.size = 1 ∧ after.store.size = 2 ∧ before.store.Keeps after.store := by
  intro before
  obtain ⟨whole, keeps⟩ := appended_stays
  have refused : ((append PlanGraph.accumulator 0 crossedLimit).run before).1.isOk = false := by decide +kernel
  refine ⟨?_, by decide +kernel, _, rfl, by decide +kernel, by decide +kernel, keeps before _ (by simp)⟩
  cases ran : (append PlanGraph.accumulator 0 crossedLimit).run before with
  | mk outcome after =>
    rw [ran] at refused
    cases outcome with
    | ok last => cases refused
    | error error =>
      obtain rfl := whole before after 0 crossedLimit error (by decide) (by decide) ran
      exact ⟨error, rfl⟩

end Assembly

end TraversalPlanner
