import Mathlib.Data.Set.Finite.Basic
import TraversalPlanner.Proofs.PlanForest
import TraversalPlanner.Proofs.TagWalks

/-! Ways through a plan that has been laid out, along children and from applies to the roots of their plans.
Each apply is looked at on its own there, so a sub-plan may hold an apply of itself. Where none does, no way
comes back to where it began, and all nodes are on ways from the root of the main plan. -/

namespace TraversalPlanner

open Relation

namespace PlanGraph

variable {plan : PlanGraph} {root id start : Nat}

/-- The root of an apply's plan leads back to the apply. -/
def SelfApplied (plan : PlanGraph) (sub : Nat) : Prop := ∃ apply, plan.Names apply sub ∧ plan.Follows sub apply

structure Founded (plan : PlanGraph) (root : Nat) : Prop where
  inside : root < plan.size
  descending : ∀ id, ¬ TransGen plan.Child id id
  /-- Nothing but a sub-plan that applies itself closes a way. -/
  closed : (∃ id, TransGen plan.Leads id id) ↔ ∃ sub, plan.SelfApplied sub
  reached : ∀ id, id < plan.size → plan.Follows root id ∨ ∃ sub, plan.SelfApplied sub ∧ plan.Follows sub id

theorem SelfApplied.closes {sub : Nat} (self : plan.SelfApplied sub) : TransGen plan.Leads sub sub := by
  obtain ⟨apply, names, follows⟩ := self
  exact .tail' follows (.link names)

section Forward

variable (forward : ∀ {parent id}, plan.Child parent id → parent < id)

include forward in
/-- A way goes forward, or it leads through the apply of a sub-plan. -/
theorem lt_or_linked (way : TransGen plan.Leads start id) :
    start < id ∨ ∃ apply sub, plan.Follows start apply ∧ plan.Names apply sub ∧ plan.Follows sub id := by
  induction way with
  | single leads =>
    cases leads with
    | child edge => exact .inl (forward edge)
    | link names => exact .inr ⟨_, _, .refl, names, .refl⟩
  | tail way leads step =>
    cases leads with
    | link names => exact .inr ⟨_, _, way.to_reflTransGen, names, .refl⟩
    | child edge =>
      rcases step with before | ⟨apply, sub, upto, names, onward⟩
      · exact .inl (before.trans (forward edge))
      · exact .inr ⟨apply, sub, upto, names, onward.tail (.child edge)⟩

include forward in
/-- On a way that comes back to where it began lies a sub-plan that applies itself. -/
theorem selfApplied_of_closed (way : TransGen plan.Leads id id) : ∃ sub, plan.SelfApplied sub ∧ plan.Follows sub id := by
  rcases lt_or_linked forward way with before | ⟨apply, sub, upto, names, onward⟩
  · exact absurd before (Nat.lt_irrefl id)
  · exact ⟨sub, ⟨apply, names, onward.trans upto⟩, onward⟩

variable (accepted : plan.Accepted root)

include forward accepted in
/-- Only the root of the main plan has nothing before it. -/
theorem exists_leads (inside : id < plan.size) (other : id ≠ root) :
    ∃ previous, previous < plan.size ∧ plan.Leads previous id := by
  by_cases named : ∃ apply, plan.Names apply id
  · obtain ⟨apply, names⟩ := named
    exact ⟨apply, names.lt_size, .link names⟩
  · obtain ⟨parent, edge⟩ := accepted.exists_child inside other named
    exact ⟨parent, (forward edge).trans inside, .child edge⟩

include forward accepted in
theorem follows_or_selfApplied (inside : id < plan.size) :
    plan.Follows root id ∨ ∃ sub, plan.SelfApplied sub ∧ plan.Follows sub id := by
  by_cases touched : ∃ sub, plan.SelfApplied sub ∧ plan.Follows sub id
  · exact .inr touched
  · -- No way among the nodes that lead here comes back, so one of them has nothing before it.
    let Above := { above : Nat // above < plan.size ∧ plan.Follows above id }
    let before (first second : Above) : Prop := TransGen plan.Leads first.1 second.1
    have : Finite Above := ((Set.finite_lt_nat plan.size).subset fun _ above => above.1).to_subtype
    have : IsTrans Above before := ⟨fun _ _ _ => .trans⟩
    have : Std.Irrefl before := by
      refine ⟨fun above way => ?_⟩
      obtain ⟨sub, self, follows⟩ := selfApplied_of_closed forward way
      exact touched ⟨sub, self, follows.trans above.2.2⟩
    have founded : WellFounded before := Finite.wellFounded_of_trans_of_irrefl before
    have reached (above : Above) : plan.Follows root above.1 := by
      induction above using founded.induction with
      | _ above step =>
        by_cases same : above.1 = root
        · rw [same]
          exact .refl
        · obtain ⟨previous, known, leads⟩ := exists_leads forward accepted above.2.1 same
          exact (step ⟨previous, known, .head leads above.2.2⟩ (.single leads)).tail leads
    exact .inl (reached ⟨id, inside, .refl⟩)

include forward accepted in
theorem founded_of_accepted : plan.Founded root where
  inside := accepted.parentless.lt_size
  descending := fun id way => Nat.lt_irrefl id (Proofs.lt_of_way (fun _ _ => forward) way)
  closed := by
    constructor
    · intro closed
      obtain ⟨id, way⟩ := closed
      obtain ⟨sub, self, _⟩ := selfApplied_of_closed forward way
      exact ⟨sub, self⟩
    · intro applied
      obtain ⟨sub, self⟩ := applied
      exact ⟨sub, self.closes⟩
  reached := fun _ inside => follows_or_selfApplied forward accepted inside

end Forward

end PlanGraph

namespace Grown

variable {workers servers : UInt32} {physical : PhysicalPlan}

theorem Sound.forward {grown : Grown} (sound : grown.Sound) {parent id : Nat} (edge : grown.plan.Child parent id) :
    parent < id := by
  obtain ⟨node, found, member⟩ := edge
  refine sound.earlier id parent (List.mem_append_left _ ?_)
  rw [found]
  exact member

/-- However a plan has grown, once it is laid out there are only ways that come back, or nodes that are on no
way from the root, because a sub-plan applies itself. -/
theorem laidOut_founded (schema : Option Schema) (calls : List Growth)
    (laid : PhysicalPlan.ofGraph (run schema calls).plan workers servers = .ok physical) :
    ∃ root : Nat, physical.root = Int32.ofNat root ∧ (run schema calls).plan.Founded root := by
  obtain ⟨_, root, _, accepted, _, _, same⟩ := PhysicalPlan.layout_of_ok laid
  exact ⟨root, congrArg PhysicalPlan.root same, PlanGraph.founded_of_accepted (sound_run schema calls).forward accepted⟩

/-- A scan, a detached root in its scope, and an apply of the detached root's plan behind another node. -/
def appliedBehind (asked : Int) : List Growth :=
  let read : TableRead := { tables := [], columns := [], limit := none, predicate := none }
  [.append (.scan .vertex none read none) [], .appendRoot (.vertex .start none) 0, .append (.apply .semi 1 none) [asked]]

theorem laidOut_appliedBehind (asked : Int) (known : asked = 0 ∨ asked = 1) :
    ∃ physical, PhysicalPlan.ofGraph (run none (appliedBehind asked)).plan 1 1 = .ok physical ∧ physical.root = 0 := by
  rcases known with rfl | rfl
  · exact ⟨_, rfl, rfl⟩
  · exact ⟨_, rfl, rfl⟩

theorem appliedBehind_scan_founded :
    ∃ physical, PhysicalPlan.ofGraph (run none (appliedBehind 0)).plan 1 1 = .ok physical ∧
      ∃ root : Nat, physical.root = Int32.ofNat root ∧ (run none (appliedBehind 0)).plan.Founded root := by
  obtain ⟨physical, laid, _⟩ := laidOut_appliedBehind 0 (.inl rfl)
  exact ⟨physical, laid, laidOut_founded none (appliedBehind 0) laid⟩

/-- Behind its own root the apply comes back to itself, and no way from the scan leads to the two. -/
theorem appliedBehind_itself_cut_off :
    ∃ physical, PhysicalPlan.ofGraph (run none (appliedBehind 1)).plan 1 1 = .ok physical ∧ physical.root = 0 ∧
      TransGen (run none (appliedBehind 1)).plan.Leads 1 1 ∧
      (run none (appliedBehind 1)).plan.size = 3 ∧ ∀ id, (run none (appliedBehind 1)).plan.Follows 0 id → id = 0 := by
  obtain ⟨physical, laid, first⟩ := laidOut_appliedBehind 1 (.inr rfl)
  have edge : (run none (appliedBehind 1)).plan.Child 1 2 := ⟨_, rfl, List.mem_singleton_self 1⟩
  have names : (run none (appliedBehind 1)).plan.Names 2 1 := ⟨_, rfl, rfl⟩
  have childless (id : Nat) : ¬ (run none (appliedBehind 1)).plan.Child 0 id := by
    intro child
    obtain ⟨_, found, member⟩ := child
    have inside : id < 3 := (List.getElem?_eq_some_iff.mp found).1
    obtain rfl | rfl | rfl : id = 0 ∨ id = 1 ∨ id = 2 := by omega
    all_goals
      cases found
      simp at member
  refine ⟨physical, laid, first, .tail (.single (.child edge)) (.link names), rfl, fun id follows => ?_⟩
  induction follows with
  | refl => rfl
  | tail _ leads stays =>
    subst stays
    cases leads with
    | child edge => exact absurd edge (childless _)
    | link names =>
      obtain ⟨_, found, named⟩ := names
      cases found
      cases named

end Grown

end TraversalPlanner
