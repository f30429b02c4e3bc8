import Mathlib.Data.Finite.Prod
import Mathlib.Data.Set.Finite.List
import Mathlib.Logic.Relation
import Mathlib.Order.WellFounded
import TraversalPlanner.Plan.Tables

/-! Closed ways in a graph. Round after round those nodes are dropped that nothing among the others is above, and on a way
that comes back to where it began no node is ever dropped. A round that drops nothing ends it all, and then every node that
is left has one above it, so some way has to come back. -/

namespace TraversalPlanner

open Relation

theorem Proofs.lt_of_way {step : Nat → Nat → Prop} (forward : ∀ node next, step node next → node < next) {start goal : Nat}
    (way : TransGen step start goal) : start < goal := by
  have upward : TransGen (· < ·) start goal := TransGen.mono forward _ _ way
  rwa [transGen_eq_self] at upward

namespace PlanTables

/-- There is an edge from one node to the other. -/
def Edge (edges : List (Nat × Nat)) (parent child : Nat) : Prop := (parent, child) ∈ edges

variable {edges : List (Nat × Nat)} {nodes : List Nat} {node : Nat}

theorem mem_peel : node ∈ peel edges nodes ↔ node ∈ nodes ∧ ∃ parent ∈ nodes, Edge edges parent node := by
  rw [peel, List.mem_filter, List.any_eq_true]
  refine and_congr_right fun _ => ?_
  simp only [Prod.exists, Bool.and_eq_true, decide_eq_true_eq, List.contains_iff_mem]
  constructor
  · intro above
    obtain ⟨parent, _, edge, rfl, member⟩ := above
    exact ⟨parent, member, edge⟩
  · intro above
    obtain ⟨parent, member, edge⟩ := above
    exact ⟨parent, node, edge, rfl, member⟩

/-- What is left after some rounds. -/
def rest (edges : List (Nat × Nat)) (rounds : Nat) : List Nat := Nat.repeat (peel edges) rounds (edges.map Prod.snd)

/-- Nodes on a way that comes back stay on. -/
theorem mem_rest (way : TransGen (Edge edges) node node) (rounds : Nat) : node ∈ rest edges rounds := by
  induction rounds generalizing node with
  | zero =>
    obtain ⟨parent, _, edge⟩ := TransGen.tail'_iff.mp way
    exact List.mem_map_of_mem edge
  | succ rounds stays =>
    obtain ⟨parent, upto, edge⟩ := TransGen.tail'_iff.mp way
    exact mem_peel.mpr ⟨stays way, parent, stays (.head' edge upto), edge⟩

/-- As long as rounds drop nodes, fewer are left with each of them. -/
theorem rest_settled (edges : List (Nat × Nat)) (rounds : Nat) : peel edges (rest edges rounds) = rest edges rounds ∨
    (rest edges rounds).length + rounds ≤ edges.length := by
  induction rounds with
  | zero => exact .inr (Nat.le_of_eq (List.length_map _))
  | succ rounds step =>
    change peel edges (peel edges (rest edges rounds)) = peel edges (rest edges rounds) ∨
      (peel edges (rest edges rounds)).length + (rounds + 1) ≤ edges.length
    by_cases settled : peel edges (rest edges rounds) = rest edges rounds
    · exact .inl (congrArg (peel edges) settled)
    · have fewer : (peel edges (rest edges rounds)).length < (rest edges rounds).length := by
        refine Nat.lt_of_le_of_ne (List.length_filter_le _ _) fun same => settled ?_
        exact List.filter_eq_self.mpr (List.length_filter_eq_length_iff.mp same)
      have before := step.resolve_left settled
      exact .inr (by omega)

/-- Where everything has something above it, some way comes back. -/
theorem exists_closed (some : nodes ≠ []) (settled : peel edges nodes = nodes) :
    ∃ node, TransGen (Edge edges) node node := by
  by_contra open_
  rw [not_exists] at open_
  let before (first second : {node // node ∈ nodes}) : Prop := TransGen (Edge edges) first.1 second.1
  have : Finite {node // node ∈ nodes} := (List.finite_toSet nodes).to_subtype
  have : IsTrans _ before := ⟨fun _ _ _ => .trans⟩
  have : Std.Irrefl before := ⟨fun node => open_ node.1⟩
  have founded : WellFounded before := Finite.wellFounded_of_trans_of_irrefl before
  obtain ⟨first, member⟩ := List.exists_mem_of_ne_nil nodes some
  obtain ⟨least, _, none⟩ := founded.has_min Set.univ ⟨⟨first, member⟩, trivial⟩
  have kept : least.1 ∈ peel edges nodes := by
    rw [settled]
    exact least.2
  obtain ⟨_, parent, above, edge⟩ := mem_peel.mp kept
  exact none ⟨parent, above⟩ trivial (.single edge)

/-- A cycle is found exactly where there is one. -/
theorem hasCycle_iff : hasCycle edges = true ↔ ∃ node, TransGen (Edge edges) node node := by
  rw [hasCycle, Bool.and_eq_true, Bool.not_eq_true', Bool.not_eq_true', List.isEmpty_eq_false_iff]
  constructor
  · intro found
    refine exists_closed found.2 ((rest_settled edges edges.length).resolve_right fun few => ?_)
    have none : (rest edges edges.length).length = 0 := by omega
    exact found.2 (List.eq_nil_of_length_eq_zero none)
  · intro closed
    obtain ⟨node, way⟩ := closed
    refine ⟨?_, List.ne_nil_of_mem (mem_rest way edges.length)⟩
    by_contra forward
    rw [Bool.not_eq_false, List.all_eq_true] at forward
    exact Nat.lt_irrefl node (Proofs.lt_of_way (fun parent child edge => of_decide_eq_true (forward (parent, child) edge)) way)

end PlanTables

end TraversalPlanner
