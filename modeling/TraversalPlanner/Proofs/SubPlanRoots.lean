import TraversalPlanner.Proofs.Planting

/-! Which nodes have no parents, and which of them the applies name. An apply names a node of its own
sub-plan, that sub-plan's first node; no node is named twice. -/

namespace TraversalPlanner

namespace PlanGraph

variable {plan middle after : PlanGraph} {op : NodeOp Int} {inputs : List Int} {own last id root other : Nat}
  {parents : List Nat} {visible : List Identifier}

/-- An apply stands for the plan with the given root. -/
def Names (plan : PlanGraph) (id root : Nat) : Prop :=
  ∃ node, plan.nodes[id]? = some node ∧ node.op.subRoot? = some (root : Int)

def Parentless (plan : PlanGraph) (id : Nat) : Prop := ∃ node, plan.nodes[id]? = some node ∧ node.parents = []

theorem Extends.size_le (grown : plan.Extends after) : plan.size ≤ after.size := by
  by_contra shrunk
  have there := List.getElem?_eq_getElem (Nat.lt_of_not_le shrunk)
  have kept := grown _ _ there
  simp [size] at kept

theorem Extends.names (grown : plan.Extends after) (names : plan.Names id root) : after.Names id root := by
  obtain ⟨node, found, named⟩ := names
  exact ⟨node, grown id node found, named⟩

theorem Extends.parentless (grown : plan.Extends after) (alone : plan.Parentless id) : after.Parentless id := by
  obtain ⟨node, found, none⟩ := alone
  exact ⟨node, grown id node found, none⟩

theorem Extends.node (grown : plan.Extends after) {node : PlanNode} (found : after.nodes[id]? = some node)
    (old : id < plan.size) : plan.nodes[id]? = some node := by
  have there := List.getElem?_eq_getElem old
  have kept := grown id _ there
  rw [found] at kept
  rw [there, kept]

theorem Extends.named (grown : plan.Extends after) (names : after.Names id root) (old : id < plan.size) :
    plan.Names id root := by
  obtain ⟨node, found, named⟩ := names
  exact ⟨node, grown.node found old, named⟩

theorem Names.lt_size (names : plan.Names id root) : id < plan.size := by
  obtain ⟨_, found, _⟩ := names
  exact (List.getElem?_eq_some_iff.mp found).1

theorem Parentless.lt_size (alone : plan.Parentless id) : id < plan.size := by
  obtain ⟨_, found, _⟩ := alone
  exact (List.getElem?_eq_some_iff.mp found).1

/-! Nodes that land. -/

theorem Lands.own_eq (lands : plan.Lands op inputs own last after) : own = plan.size := by
  cases lands <;> rfl

theorem Lands.size (lands : plan.Lands op inputs own last after) : own ≤ last ∧ after.size = last + 1 := by
  cases lands with
  | alone => simp
  | named => simp

theorem Lands.extends (lands : plan.Lands op inputs own last after) : plan.Extends after := by
  cases lands with
  | alone => exact extends_grow _ _
  | named => exact (extends_grow _ _).trans (extends_grow _ _)

/-- The node itself, and one that binds its alias. -/
theorem Lands.nodes (lands : plan.Lands op inputs own last after) :
    ∃ parents visible, plan.Resolves inputs parents ∧ after.nodes[own]? = some { op, parents, visible } ∧
      ∀ id node, after.nodes[id]? = some node → plan.size ≤ id →
        id = own ∧ node.op = op ∧ node.parents = parents ∨
        id = last ∧ own < last ∧ (∃ tag, node.op = .bind tag) ∧ node.parents = [own] := by
  cases lands with
  | @alone parents visible resolves =>
    refine ⟨parents, _, resolves, by rw [getElem?_grow, if_pos rfl], fun id node found new => ?_⟩
    rw [getElem?_grow] at found
    split at found
    · next same => cases found; exact .inl ⟨same, rfl, rfl⟩
    · exact absurd (List.getElem?_eq_some_iff.mp found).1 (Nat.not_lt.mpr new)
  | @named parents visible tag seen resolves =>
    refine ⟨parents, op.bindings.foldl (fun seen tag => seen.insert tag) visible, resolves, ?_, fun id node found new => ?_⟩
    · rw [getElem?_grow, size_grow, if_neg (by omega), getElem?_grow, if_pos rfl]
    · rw [getElem?_grow, size_grow] at found
      split at found
      · next same => cases found; exact .inr ⟨same, by omega, ⟨tag, rfl⟩, rfl⟩
      · rw [getElem?_grow] at found
        split at found
        · next same => cases found; exact .inl ⟨same, rfl, rfl⟩
        · exact absurd (List.getElem?_eq_some_iff.mp found).1 (Nat.not_lt.mpr new)

theorem Lands.names (lands : plan.Lands op inputs own last after) (names : after.Names id root) (new : plan.size ≤ id) :
    id = own ∧ op.subRoot? = some (root : Int) := by
  obtain ⟨node, found, named⟩ := names
  obtain ⟨parents, visible, _, _, each⟩ := lands.nodes
  rcases each id node found new with ⟨same, rfl, _⟩ | ⟨_, _, ⟨tag, bound⟩, _⟩
  · exact ⟨same, named⟩
  · rw [bound] at named
    cases named

/-- Behind the node there is no apply. -/
theorem Lands.names_le (lands : plan.Lands op inputs own last after) (names : after.Names id root) : id ≤ own := by
  by_contra behind
  have own_eq := lands.own_eq
  have same := (lands.names names (by omega)).1
  omega

end PlanGraph

/-- Where the nodes of a yield lie. -/
def Yield.Inside (plan after : PlanGraph) (parent : Int) : Cargo → Yield → Prop
  | .operator _, .ends own last => plan.size ≤ own ∧ own ≤ last ∧ last < after.size
  | .chain operators, .ends own last =>
    operators = [] ∧ own = parent ∧ last = parent ∨ operators ≠ [] ∧ plan.size ≤ own ∧ own ≤ last ∧ last < after.size
  | .branches branches, .lasts nodes =>
    List.Forall₂ (fun branch last => branch = [] ∧ last = parent ∨ branch ≠ [] ∧ plan.size ≤ last ∧ last < after.size)
      branches nodes
  | _, _ => False

namespace Planted

open PlanGraph

variable {plan after : PlanGraph} {parent : Int} {cargo : Cargo} {yield : Yield}

theorem grows (planted : Planted plan parent cargo after yield) : plan.Extends after := by
  induction planted with
  | bare _ _ _ lands => exact lands.extends
  | apply _ _ lands inner => exact inner.trans lands.extends
  | union _ _ lands inner => exact inner.trans lands.extends
  | done => exact .refl _
  | next _ _ here later => exact here.trans later
  | unbranched => exact .refl _
  | branch _ _ here later => exact here.trans later

private theorem inside_of_lands {middle : PlanGraph} {op : NodeOp Int} {inputs : List Int} {own last : Nat}
    (grown : plan.Extends middle) (lands : middle.Lands op inputs own last after) :
    (plan.size : Int) ≤ own ∧ (own : Int) ≤ last ∧ (last : Int) < after.size := by
  have here := lands.own_eq
  have behind := lands.size
  have older := grown.size_le
  omega

theorem inside (planted : Planted plan parent cargo after yield) : yield.Inside plan after parent cargo := by
  induction planted with
  | bare _ _ _ lands => exact inside_of_lands (.refl _) lands
  | apply inner _ lands => exact inside_of_lands inner.grows lands
  | union inner _ lands => exact inside_of_lands inner.grows lands
  | done => exact .inl ⟨rfl, rfl, rfl⟩
  | next here later first rest =>
    refine .inr ⟨by simp, ?_⟩
    have grown := here.grows.size_le
    have further := later.grows.size_le
    obtain ⟨_, _, _⟩ := first
    rcases rest with ⟨_, _, _⟩ | ⟨_, _, _, _⟩ <;> omega
  | unbranched => exact .nil
  | branch here later first rest =>
    have grown := here.grows.size_le
    have further := later.grows.size_le
    refine .cons ?_ (rest.imp fun branch last inside => ?_)
    · rcases first with ⟨none, _, same⟩ | ⟨some, _, _, _⟩
      · exact .inl ⟨none, same⟩
      · exact .inr ⟨some, by omega, by omega⟩
    · rcases inside with ⟨none, same⟩ | ⟨some, _, _⟩
      · exact .inl ⟨none, same⟩
      · exact .inr ⟨some, by omega, by omega⟩

theorem names_within (planted : Planted plan parent cargo after yield) (id root : Nat) (names : after.Names id root)
    (new : plan.size ≤ id) : plan.size ≤ root ∧ root < id := by
  induction planted with
  | bare _ apart _ lands =>
    have named := (lands.names names new).2
    rw [apart] at named
    cases named
  | @apply plan middle after _ sub _ _ _ _ first _ own _ inner entered lands step =>
    by_cases older : id < middle.size
    · exact step (lands.extends.named names older) new
    · obtain ⟨same, named⟩ := lands.names names (Nat.le_of_not_lt older)
      have own_eq := lands.own_eq
      have first_eq : first = root := Option.some.inj named
      rcases inner.inside with ⟨_, _, _⟩ | ⟨_, _, _, _⟩ <;> omega
  | @union plan middle after _ _ _ _ _ _ _ inner _ lands step =>
    by_cases older : id < middle.size
    · exact step (lands.extends.named names older) new
    · have named := (lands.names names (Nat.le_of_not_lt older)).2
      cases named
  | done => exact absurd names.lt_size (Nat.not_lt.mpr new)
  | @next plan middle after _ _ _ _ _ _ _ here later first rest =>
    by_cases older : id < middle.size
    · exact first (later.grows.named names older) new
    · have behind := rest names (Nat.le_of_not_lt older)
      have grown := here.grows.size_le
      omega
  | unbranched => exact absurd names.lt_size (Nat.not_lt.mpr new)
  | @branch plan middle after _ _ _ _ _ _ here later first rest =>
    by_cases older : id < middle.size
    · exact first (later.grows.named names older) new
    · have behind := rest names (Nat.le_of_not_lt older)
      have grown := here.grows.size_le
      omega

private theorem once_of_parts {middle : PlanGraph} {link : Int} {first rest : Cargo} {firstYield restYield : Yield}
    {root : Nat}
    (here : Planted plan parent first middle firstYield) (later : Planted middle link rest after restYield)
    (one : ∀ id other, middle.Names id root → middle.Names other root → plan.size ≤ id → plan.size ≤ other → id = other)
    (two : ∀ id other, after.Names id root → after.Names other root → middle.size ≤ id → middle.size ≤ other → id = other)
    (id other : Nat) (names : after.Names id root) (again : after.Names other root) (new : plan.size ≤ id)
    (fresh : plan.size ≤ other) : id = other := by
  have before : ∀ id, after.Names id root → plan.size ≤ id → id < middle.size → root < middle.size := by
    intro id names new older
    have within := here.names_within id root (later.grows.named names older) new
    omega
  have behind : ∀ id, after.Names id root → middle.size ≤ id → middle.size ≤ root := fun id names new =>
    (later.names_within id root names new).1
  rcases Nat.lt_or_ge id middle.size with older | younger
  · rcases Nat.lt_or_ge other middle.size with old | young
    · exact one id other (later.grows.named names older) (later.grows.named again old) new fresh
    · exact absurd (before id names new older) (Nat.not_lt.mpr (behind other again young))
  · rcases Nat.lt_or_ge other middle.size with old | young
    · exact absurd (before other again fresh old) (Nat.not_lt.mpr (behind id names younger))
    · exact two id other names again younger young

/-- No apply that comes with some operators names the node of the first of them. -/
theorem own_unnamed (planted : Planted plan parent cargo after yield) {own last : Int} (ends : yield = .ends own last)
    (id root : Nat) (names : after.Names id root) (new : plan.size ≤ id) : (root : Int) ≠ own := by
  have within := planted.names_within id root names new
  induction planted generalizing own last with
  | bare _ _ _ lands =>
    cases ends
    have before := lands.names_le names
    omega
  | apply _ _ lands _ =>
    cases ends
    have before := lands.names_le names
    omega
  | union _ _ lands _ =>
    cases ends
    have before := lands.names_le names
    omega
  | done => exact absurd names.lt_size (Nat.not_lt.mpr new)
  | @next plan middle after _ _ _ _ _ _ _ here later first _ =>
    cases ends
    by_cases older : id < middle.size
    · exact first rfl (later.grows.named names older) new within
    · have behind := later.names_within id root names (Nat.le_of_not_lt older)
      obtain ⟨_, _, _⟩ := here.inside
      omega
  | unbranched => cases ends
  | branch => cases ends

theorem names_once (planted : Planted plan parent cargo after yield) (id other root : Nat) (names : after.Names id root)
    (again : after.Names other root) (new : plan.size ≤ id) (fresh : plan.size ≤ other) : id = other := by
  induction planted generalizing id other with
  | bare _ _ _ lands => exact (lands.names names new).1.trans (lands.names again fresh).1.symm
  | @apply plan middle after _ sub _ _ _ _ first subLast own last inner entered lands step =>
    -- The root of the sub-plan is named by the apply itself, so by none inside the sub-plan.
    have apart : ∀ id, after.Names id root → plan.size ≤ id → id < middle.size → (root : Int) ≠ first :=
      fun id names new older => inner.own_unnamed rfl id root (lands.extends.named names older) new
    have named : ∀ id, after.Names id root → middle.size ≤ id → id = own ∧ first = root := by
      intro id names new
      obtain ⟨same, named⟩ := lands.names names new
      exact ⟨same, Option.some.inj named⟩
    rcases Nat.lt_or_ge id middle.size with older | younger
    · rcases Nat.lt_or_ge other middle.size with old | young
      · exact step id other (lands.extends.named names older) (lands.extends.named again old) new fresh
      · exact absurd (named other again young).2.symm (apart id names new older)
    · rcases Nat.lt_or_ge other middle.size with old | young
      · exact absurd (named id names younger).2.symm (apart other again fresh old)
      · exact (named id names younger).1.trans (named other again young).1.symm
  | @union plan middle after _ _ _ _ _ _ _ _ _ lands step =>
    have older : ∀ id, after.Names id root → id < middle.size := by
      intro id names
      by_contra younger
      have named := (lands.names names (Nat.le_of_not_lt younger)).2
      cases named
    have named := lands.extends.named names (older id names)
    exact step id other named (lands.extends.named again (older other again)) new fresh
  | done => exact absurd names.lt_size (Nat.not_lt.mpr new)
  | next here later first rest => exact once_of_parts here later first rest id other names again new fresh
  | unbranched => exact absurd names.lt_size (Nat.not_lt.mpr new)
  | branch here later first rest => exact once_of_parts here later first rest id other names again new fresh

end Planted

end TraversalPlanner
