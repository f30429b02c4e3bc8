import TraversalPlanner.Proofs.PlanShape
import TraversalPlanner.Proofs.Sessions

/-! Every node of a plan is well formed, whatever was asked of the assembly that the plan grew in and whatever of it
failed. Laying the plan out does not change that. -/

namespace TraversalPlanner

open Proofs

namespace NodeOp

variable {ι κ : Type}

theorem windows_map (f : ι → κ) (op : NodeOp ι) : (op.map f).windows = op.windows := by
  cases op <;> rfl

/-- References to other nodes may be changed, so long as the roots of sub-plans do not become negative. -/
theorem WellFormed.map [LE ι] [OfNat ι 0] [LE κ] [OfNat κ 0] {op : NodeOp ι} (wellFormed : op.WellFormed) {f : ι → κ}
    (nonnegative : ∀ root, op.subRoot? = some root → 0 ≤ f root) : (op.map f).WellFormed where
  windows := by
    rw [windows_map]
    exact wellFormed.windows
  supplied := by
    have supplied := wellFormed.supplied
    cases op with
    | apply join root tag => exact ⟨nonnegative root rfl, supplied.2⟩
    | union parents => exact fun none => supplied (List.map_eq_nil_iff.mp none)
    | _ => exact supplied

end NodeOp

namespace PlanGraph

variable {plan : PlanGraph} {op : NodeOp Int}

/-- An append that is not refused adds a node at the end; a refused one leaves the plan as it was. -/
theorem nodes_answer {ground : Except Refusal (List Nat × List Identifier)} {result : Except Refusal (Nat × PlanGraph)}
    (appends : plan.Appends op ground result) : (plan.answer result).2.nodes = plan.nodes ∨
      ∃ node : PlanNode, node.op = op ∧ (plan.answer result).2.nodes = plan.nodes ++ [node] := by
  cases appends with
  | released | groundless | schema | tags => exact .inl rfl
  | grown => exact .inr ⟨_, rfl, rfl⟩

/-- All nodes of the plan are well formed. -/
def Sound (plan : PlanGraph) : Prop := ∀ node ∈ plan.nodes, node.op.WellFormed

theorem Sound.answer (sound : plan.Sound) (wellFormed : op.WellFormed) {ground : Except Refusal (List Nat × List Identifier)}
    {result : Except Refusal (Nat × PlanGraph)} (appends : plan.Appends op ground result) : (plan.answer result).2.Sound := by
  intro node member
  rcases nodes_answer appends with same | ⟨added, same, more⟩
  · exact sound node (same ▸ member)
  · rw [more] at member
    rcases List.mem_append.mp member with old | new
    · exact sound node old
    · cases List.mem_singleton.mp new
      exact same ▸ wellFormed

theorem Sound.empty (plan : PlanGraph) (none : plan.nodes = []) : plan.Sound := by
  intro node member
  rw [none] at member
  exact absurd member List.not_mem_nil

end PlanGraph

namespace PhysicalPlan

variable {plan : PlanGraph} {workers servers : UInt32} {physical : PhysicalPlan}

/-- The roots of sub-plans do not become negative, since 32 bits can number the nodes of what is laid out. -/
theorem wellFormed_of_ofGraph (sound : plan.Sound) (laid : ofGraph plan workers servers = .ok physical)
    {node : PhysicalNode} (member : node ∈ physical.nodes) : node.op.WellFormed := by
  obtain ⟨few, root, subRoots, accepted, _, _, same⟩ := layout_of_ok laid
  subst same
  obtain ⟨place, found⟩ := List.mem_iff_getElem?.mp member
  rw [getElem?_layOut] at found
  obtain ⟨source, there, same⟩ := Option.map_eq_some_iff.mp found
  subst same
  refine (sound source (List.mem_of_getElem? there)).map fun target named => ?_
  obtain ⟨id, rfl, alone⟩ := accepted.targets place source target there named
  rw [Int32.ofInt_eq_ofNat, Int32.le_iff_toInt_le, Int32.toInt_ofNat_of_lt (Nat.lt_trans alone.lt_size few)]
  exact Int.natCast_nonneg id

end PhysicalPlan

namespace Assembly

theorem includes_wellFormed : Includes NodeOp.WellFormed where
  lowered _ _ _ lowered := (Operator.lowersTo_of_toNode lowered).wellFormed
  bound _ := ⟨nofun, trivial⟩

theorem sound_kept : KeptByCalls PlanGraph.accumulator NodeOp.WellFormed fun assembly => assembly.store.Sound where
  append _ parents _ wellFormed sound := sound.answer wellFormed (PlanGraph.append_appends parents)
  appendRoot _ scope _ wellFormed sound := sound.answer wellFormed (PlanGraph.appendRoot_appends scope)
  text _ sound := sound
  bytes _ _ _ sound := sound
  begin _ sound := sound
  serialize _ sound := sound

theorem perform_sound (assembly : Assembly PlanGraph) (request : Request) (sound : assembly.store.Sound) :
    (perform PlanGraph.accumulator assembly request).store.Sound := by
  by_cases last : request = .close
  · subst last
    change (assembly.close PlanGraph.accumulator).store.Sound
    unfold close
    split
    · exact sound
    · exact .empty assembly.store.release rfl
  · exact perform_keeps includes_wellFormed sound_kept sound last

/-- Whatever is asked of an assembly, the nodes of its plan are well formed, and so are those of every plan that is
laid out from it. -/
theorem session_nodes_wellFormed (schema : Option Schema) (requests : List Request) :
    let plan := (session PlanGraph.accumulator (start (.empty schema)) requests).store
    (∀ node ∈ plan.nodes, node.op.WellFormed) ∧
      ∀ workers servers physical, PhysicalPlan.ofGraph plan workers servers = .ok physical →
        ∀ node ∈ physical.nodes, node.op.WellFormed := by
  have begun : (start (PlanGraph.empty schema)).store.Sound := .empty (.empty schema) rfl
  have sound := session_keeps perform_sound begun requests
  exact ⟨sound, fun _ _ _ laid _ member => PhysicalPlan.wellFormed_of_ofGraph sound laid member⟩

/-- A plan of the first few vertices that have a neighbour, and an operator that it cannot take. -/
def patchyRequests : List Request :=
  let vertices : Operator := ⟨.scan { ScanArguments.empty with target := some .vertex }, none⟩
  let neighbours : Operator := ⟨.expand { ExpandArguments.empty with direction := some .both, isEdge := some false }, none⟩
  [.append (-1) vertices, .append 0 ⟨.limit (some 3) (some 1), none⟩,
    .appendAll 0 [⟨.apply (some [neighbours]) none (some .semi), none⟩, ⟨.limit (some 0) (some 3), none⟩]]

def patchyPlan : PlanGraph := (session PlanGraph.accumulator (start (.empty none)) patchyRequests).store

theorem patchyPlan_wellFormed : (∀ node ∈ patchyPlan.nodes, node.op.WellFormed) ∧
    ∃ physical, PhysicalPlan.ofGraph patchyPlan 1 1 = .ok physical ∧ ∀ node ∈ physical.nodes, node.op.WellFormed := by
  have passes : (PhysicalPlan.ofGraph patchyPlan 1 1).isOk = true := by decide +kernel
  obtain ⟨physical, laid⟩ := ok_of_isOk passes
  obtain ⟨grown, laidOut⟩ := session_nodes_wellFormed none patchyRequests
  exact ⟨grown, physical, laid, laidOut 1 1 physical laid⟩

end Assembly

end TraversalPlanner
