import TraversalPlanner.Proofs.Blame
import TraversalPlanner.Proofs.SubPlanRoots

/-! Operators that stand where no operator comes before them. An operator is placed without a parent only there,
and a union there gets no node from a branch that is empty. -/

namespace TraversalPlanner

open Proofs

namespace Operator

/-- It comes first in all of the operators or in a sub-plan, or in a branch of a union that is at such a place. -/
inductive AtHead (operators : List Operator) : Operator → Prop
  | whole {first : Operator} {rest : List Operator} (given : operators = first :: rest) : AtHead operators first
  | sub {first : Operator} {rest : List Operator} {subRoot : Option Int32} {join : Option JoinKind} {tag : Option Alias}
      (among : Among ⟨.apply (some (first :: rest)) subRoot join, tag⟩ operators) : AtHead operators first
  | branch {first : Operator} {rest : List Operator} {branches : List (List Operator)} {parents : Option (List Int32)}
      {tag : Option Alias} (host : AtHead operators ⟨.union (some branches) parents, tag⟩)
      (member : first :: rest ∈ branches) : AtHead operators first

/-- At one of those places stands a union with an empty branch. -/
def HeadGap (operators : List Operator) : Prop :=
  ∃ branches parents tag, AtHead operators ⟨.union (some branches) parents, tag⟩ ∧ [] ∈ branches

end Operator

namespace Cargo

def Among (operator : Operator) : Cargo → Prop
  | .operator single => operator.Among [single]
  | .chain operators => operator.Among operators
  | .branches each => ∃ branch ∈ each, operator.Among branch

def First (operator : Operator) : Cargo → Prop
  | .operator single => operator = single
  | .chain operators => ∃ rest, operators = operator :: rest
  | .branches each => ∃ rest, operator :: rest ∈ each

/-- It is part of the operators, and without a parent nothing in them comes before it. -/
structure Under (operators : List Operator) (parent : Int) (cargo : Cargo) : Prop where
  among : ∀ operator, cargo.Among operator → operator.Among operators
  head : parent = -1 → ∀ operator, cargo.First operator → operator.AtHead operators

namespace Under

variable {operators rest sub branch : List Operator} {operator : Operator} {branches each : List (List Operator)}
  {parent link : Int} {subRoot : Option Int32} {join : Option JoinKind} {parents : Option (List Int32)} {tag : Option Alias}

theorem whole (operators : List Operator) (parent : Int) : Under operators parent (.chain operators) where
  among := fun _ => id
  head := fun _ _ first => .whole first.choose_spec

theorem toSub (under : Under operators parent (.operator ⟨.apply (some sub) subRoot join, tag⟩)) :
    Under operators (-1) (.chain sub) where
  among := fun _ among => under.among _ (Operator.among_of_inner List.mem_cons_self List.mem_cons_self among)
  head := by
    intro _ operator first
    obtain ⟨rest, same⟩ := first
    subst same
    exact .sub (under.among _ (Operator.among_of_mem List.mem_cons_self))

theorem toBranches (under : Under operators parent (.operator ⟨.union (some branches) parents, tag⟩)) :
    Under operators parent (.branches branches) where
  among := by
    intro operator found
    obtain ⟨branch, member, among⟩ := found
    exact under.among operator (Operator.among_of_inner member List.mem_cons_self among)
  head := by
    intro detached operator first
    obtain ⟨rest, member⟩ := first
    exact .branch (under.head detached _ rfl) member

theorem toFirst (under : Under operators parent (.chain (operator :: rest))) : Under operators parent (.operator operator) where
  among := fun _ among => under.among _ (Operator.among_of_single among)
  head := fun detached _ same => under.head detached _ ⟨rest, same ▸ rfl⟩

theorem toRest (under : Under operators parent (.chain (operator :: rest))) (linked : link ≠ -1) :
    Under operators link (.chain rest) where
  among := fun _ among => under.among _ (Operator.among_cons among)
  head := fun detached => absurd detached linked

theorem toBranch (under : Under operators parent (.branches (branch :: each))) : Under operators parent (.chain branch) where
  among := fun _ among => under.among _ ⟨branch, List.mem_cons_self, among⟩
  head := by
    intro detached operator first
    obtain ⟨rest, same⟩ := first
    exact under.head detached operator ⟨rest, same ▸ List.mem_cons_self⟩

theorem toOthers (under : Under operators parent (.branches (branch :: each))) : Under operators parent (.branches each) where
  among := by
    intro operator found
    obtain ⟨other, member, among⟩ := found
    exact under.among operator ⟨other, List.mem_cons_of_mem _ member, among⟩
  head := by
    intro detached operator first
    obtain ⟨rest, member⟩ := first
    exact under.head detached operator ⟨rest, List.mem_cons_of_mem _ member⟩

theorem gap (under : Under operators (-1) (.operator ⟨.union (some branches) parents, tag⟩)) (empty : [] ∈ branches) :
    Operator.HeadGap operators :=
  ⟨branches, parents, tag, under.head rfl _ rfl, empty⟩

end Under

end Cargo

namespace PlanGraph

variable {plan : PlanGraph}

/-- The parent is there, or there is none. -/
def Knows (plan : PlanGraph) (parent : Int) : Prop := parent = -1 ∨ ∃ id : Nat, parent = id ∧ id < plan.size

theorem Knows.mono {parent : Int} {after : PlanGraph} (knows : plan.Knows parent) (grown : plan.size ≤ after.size) :
    after.Knows parent := by
  rcases knows with detached | ⟨id, same, inside⟩
  · exact .inl detached
  · exact .inr ⟨id, same, Nat.lt_of_lt_of_le inside grown⟩

theorem knows_of_inside {parent : Int} (positive : 0 ≤ parent) (inside : parent < plan.size) : plan.Knows parent := by
  obtain ⟨id, same⟩ := Int.eq_ofNat_of_zero_le positive
  subst same
  exact .inr ⟨id, rfl, Int.ofNat_lt.mp inside⟩

end PlanGraph

namespace Planted

open PlanGraph

variable {plan after : PlanGraph} {parent : Int} {cargo : Cargo} {yield : Yield} {operator : Operator}

/-- Each of the operators has been planted on its own at some time. -/
theorem exists_of_among (planted : Planted plan parent cargo after yield) (among : cargo.Among operator) :
    ∃ before link grown placed, Planted before link (.operator operator) grown placed ∧ grown.Extends after := by
  have planted' := planted
  induction planted with
  | bare bare =>
    rcases Operator.among_cases among with rfl | ⟨inner, nested, _⟩ | nothing
    · exact ⟨_, _, _, _, planted', .refl _⟩
    · rw [Operator.inner_of_bare bare] at nested
      cases nested
    · exact absurd nothing (Operator.not_among_nil _)
  | apply inner _ lands step =>
    rcases Operator.among_cases among with rfl | ⟨nested, member, among⟩ | nothing
    · exact ⟨_, _, _, _, planted', .refl _⟩
    · cases List.mem_singleton.mp member
      obtain ⟨_, _, _, _, single, grown⟩ := step among inner
      exact ⟨_, _, _, _, single, grown.trans lands.extends⟩
    · exact absurd nothing (Operator.not_among_nil _)
  | union inner _ lands step =>
    rcases Operator.among_cases among with rfl | ⟨branch, member, among⟩ | nothing
    · exact ⟨_, _, _, _, planted', .refl _⟩
    · obtain ⟨_, _, _, _, single, grown⟩ := step ⟨branch, member, among⟩ inner
      exact ⟨_, _, _, _, single, grown.trans lands.extends⟩
    · exact absurd nothing (Operator.not_among_nil _)
  | done => exact absurd among (Operator.not_among_nil _)
  | next here later first others =>
    rcases Operator.among_cases among with rfl | ⟨inner, nested, among⟩ | among
    · exact ⟨_, _, _, _, here, later.grows⟩
    · obtain ⟨_, _, _, _, single, grown⟩ := first (Operator.among_of_inner nested List.mem_cons_self among) here
      exact ⟨_, _, _, _, single, grown.trans later.grows⟩
    · exact others among later
  | unbranched =>
    obtain ⟨_, member, _⟩ := among
    cases member
  | branch here later first others =>
    obtain ⟨branch, member, among⟩ := among
    rcases List.mem_cons.mp member with rfl | other
    · obtain ⟨_, _, _, _, single, grown⟩ := first among here
      exact ⟨_, _, _, _, single, grown.trans later.grows⟩
    · exact others ⟨branch, other, among⟩ later

theorem first_of_chain {rest : List Operator} (planted : Planted plan parent (.chain (operator :: rest)) after yield) :
    ∃ grown placed, Planted plan parent (.operator operator) grown placed ∧ grown.Extends after := by
  cases planted with
  | next here later => exact ⟨_, _, here, later.grows⟩

theorem exists_of_branch {branches : List (List Operator)} {branch : List Operator}
    (planted : Planted plan parent (.branches branches) after yield) (member : branch ∈ branches) :
    ∃ before grown placed, Planted before parent (.chain branch) grown placed ∧ grown.Extends after := by
  induction branches generalizing plan yield with
  | nil => cases member
  | cons first rest step =>
    cases planted with
    | branch here later =>
      rcases List.mem_cons.mp member with rfl | other
      · exact ⟨_, _, _, here, later.grows⟩
      · exact step later other

/-- Where nothing comes before an operator, it has been planted without a parent. -/
theorem exists_of_atHead {operators : List Operator} (planted : Planted plan (-1) (.chain operators) after yield)
    (head : operator.AtHead operators) :
    ∃ before grown placed, Planted before (-1) (.operator operator) grown placed ∧ grown.Extends after := by
  induction head with
  | whole given =>
    subst given
    exact ⟨_, planted.first_of_chain⟩
  | sub among =>
    obtain ⟨_, _, _, _, single, grown⟩ := planted.exists_of_among among
    cases single with
    | bare bare => exact absurd rfl (bare.1 _ _ _ _)
    | apply inner _ lands =>
      obtain ⟨_, _, single, further⟩ := inner.first_of_chain
      exact ⟨_, _, _, single, further.trans (lands.extends.trans grown)⟩
  | branch _ member step =>
    obtain ⟨_, _, _, single, grown⟩ := step
    cases single with
    | bare bare => exact absurd rfl (bare.2 _ _ _)
    | union inner _ lands =>
      obtain ⟨_, _, _, chain, further⟩ := inner.exists_of_branch member
      obtain ⟨_, _, single, latest⟩ := chain.first_of_chain
      exact ⟨_, _, _, single, latest.trans (further.trans (lands.extends.trans grown))⟩

/-- A branch whose last node is not there is empty, and so is what comes before the union. -/
theorem empty_of_negative {branches : List (List Operator)} {lasts : List Int} {last : Int}
    (planted : Planted plan parent (.branches branches) after (.lasts lasts)) (member : last ∈ lasts) (negative : last < 0) :
    [] ∈ branches ∧ last = parent := by
  have inside : List.Forall₂ _ branches lasts := planted.inside
  obtain ⟨branch, found, cases⟩ := related_left inside member
  rcases cases with ⟨none, same⟩ | ⟨_, _, _⟩
  · exact ⟨none ▸ found, same⟩
  · omega

end Planted

end TraversalPlanner
