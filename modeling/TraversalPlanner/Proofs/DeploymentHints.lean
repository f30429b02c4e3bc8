import TraversalPlanner.Proofs.FrameRoundTrip
import TraversalPlanner.Proofs.PlanLayout

/-! What a plan owes to the deployment that it is laid out for. Whether it can be laid out does not depend on the numbers
of workers and servers, and two layouts differ in these numbers and in the shuffle flags only. So do their frames: all
bytes stand in the same places, and all but those of the numbers, the flags and the checksum are the same. -/

namespace TraversalPlanner

open Proofs

theorem NodeOp.needsLocality_map {ι κ : Type} (f : ι → κ) (op : NodeOp ι) :
    (op.map f).needsLocality = op.needsLocality := by
  cases op <;> rfl

/-- Byte strings of one length that are the same apart from some places. Places are counted from where the strings
start. -/
structure AgreeApart (apart : Nat → Prop) (start : Nat) (bytes others : List UInt8) : Prop where
  length : others.length = bytes.length
  same : ∀ place, ¬ apart (start + place) → others[place]? = bytes[place]?

namespace AgreeApart

variable {apart : Nat → Prop} {start : Nat} {bytes others behind further : List UInt8}

theorem refl (bytes : List UInt8) : AgreeApart apart start bytes bytes := ⟨rfl, fun _ _ => rfl⟩

theorem append (front : AgreeApart apart start bytes others)
    (back : AgreeApart apart (start + bytes.length) behind further) :
    AgreeApart apart start (bytes ++ behind) (others ++ further) where
  length := by rw [List.length_append, List.length_append, front.length, back.length]
  same := by
    intro place fixed
    by_cases inside : place < bytes.length
    · rw [List.getElem?_append_left inside, List.getElem?_append_left (front.length ▸ inside)]
      exact front.same place fixed
    · have beyond := Nat.le_of_not_lt inside
      rw [List.getElem?_append_right beyond, List.getElem?_append_right (front.length ▸ beyond), front.length]
      refine back.same _ ?_
      rwa [Nat.add_assoc, Nat.add_sub_cancel' beyond]

/-- Nothing is the same where all places are left out. -/
theorem free (length : others.length = bytes.length) (all : ∀ offset, offset < bytes.length → apart (start + offset)) :
    AgreeApart apart start bytes others where
  length := length
  same := by
    intro place fixed
    have beyond : bytes.length ≤ place := Nat.le_of_not_lt fun inside => fixed (all place inside)
    rw [List.getElem?_eq_none beyond, List.getElem?_eq_none (length ▸ beyond)]

end AgreeApart

namespace Codec

/-- The bytes of a node up to its flag. -/
def unflagged (node : PhysicalNode) : List UInt8 :=
  int32.write node.id ++ (op.write node.op ++ (list int32).write node.children)

theorem physicalNode_write (node : PhysicalNode) :
    physicalNode.write node = unflagged node ++ bool.write node.shuffle := by
  simp only [physicalNode, via, pair, unflagged, List.append_assoc]

/-- The bytes of a plan that stand before its nodes, with those of some first nodes. -/
def upTo (plan : PhysicalPlan) (before : List PhysicalNode) : List UInt8 :=
  word32.write plan.workers ++ word32.write plan.servers ++
    (int32.write plan.root ++ ((list int32).write plan.subRoots ++ length.write plan.nodes.length)) ++
    before.flatMap physicalNode.write

theorem physicalPlan_write (plan : PhysicalPlan) : physicalPlan.write plan = upTo plan plan.nodes := by
  simp only [physicalPlan, via, pair, list, upTo, List.append_assoc]

theorem upTo_snoc (plan : PhysicalPlan) (before : List PhysicalNode) (node : PhysicalNode) :
    upTo plan (before ++ [node]) = upTo plan before ++ physicalNode.write node := by
  rw [upTo, upTo, List.flatMap_append, List.flatMap_singleton, ← List.append_assoc]

/-- A flag stands between the bytes up to it and the nodes behind. -/
theorem upTo_split (plan : PhysicalPlan) (before after : List PhysicalNode) (node : PhysicalNode) :
    upTo plan (before ++ node :: after) = upTo plan before ++ unflagged node ++
      (bool.write node.shuffle ++ after.flatMap physicalNode.write) := by
  simp only [upTo, List.flatMap_append, List.flatMap_cons, physicalNode_write, List.append_assoc]

end Codec

/-- The same node for another deployment. -/
def PhysicalNode.redeployed (node : PhysicalNode) (workers servers : UInt32) : PhysicalNode :=
  { node with shuffle := PhysicalPlan.spread workers servers && node.op.needsLocality }

namespace PhysicalPlan

variable {plan : PlanGraph} {physical other : PhysicalPlan} {workers servers : UInt32}

/-- The same plan for another deployment. -/
def redeployed (physical : PhysicalPlan) (workers servers : UInt32) : PhysicalPlan :=
  { physical with workers, servers, nodes := physical.nodes.map fun node => node.redeployed workers servers }

/-- The place in the frame of a plan where a node has its flag, behind all bytes of the nodes before it. -/
def flagPlace (physical : PhysicalPlan) (before : List PhysicalNode) (node : PhysicalNode) : Nat :=
  headerLength + (Codec.upTo physical before).length + (Codec.unflagged node).length

/-- The places in the frame of a plan that have to do with its deployment. -/
inductive Hint (physical : PhysicalPlan) : Nat → Prop
  | workers (offset : Nat) (inside : offset < 4) : Hint physical (headerLength + offset)
  | servers (offset : Nat) (inside : offset < 4) : Hint physical (headerLength + 4 + offset)
  | shuffle {before node after} (nodes : physical.nodes = before ++ node :: after) :
      Hint physical (physical.flagPlace before node)
  | checksum (offset : Nat) (inside : offset < checksumLength) :
      Hint physical (headerLength + (Codec.physicalPlan.write physical).length + offset)

/-- A plan is laid out for a deployment: input is moved where an operator needs it to be if there is anywhere to move it. -/
structure Serves (physical : PhysicalPlan) (workers servers : UInt32) : Prop where
  numbers : physical.workers = workers ∧ physical.servers = servers
  partitioned : physical.partitioned = true ↔ 1 < workers ∨ 1 < servers
  shuffled : ∀ node ∈ physical.nodes,
    node.shuffle = true ↔ node.op.needsLocality = true ∧ (1 < workers ∨ 1 < servers)

theorem toNat_saturatingMul (first second : UInt32) :
    (saturatingMul first second).toNat = min (first.toNat * second.toNat) (UInt32.size - 1) := by
  rw [saturatingMul, UInt32.toNat_ofNat_of_lt']
  exact Nat.lt_of_le_of_lt (Nat.min_le_right _ _) (by decide)

/-- Whether there is more than one worker can be told from the product itself, which no word may be able to hold. -/
theorem spread_eq (workers servers : UInt32) : spread workers servers = decide (1 < workers.toNat * servers.toNat) := by
  have several : 1 < saturatingMul workers servers ↔ 1 < workers.toNat * servers.toNat := by
    rw [UInt32.lt_iff_toNat_lt, toNat_saturatingMul, Nat.lt_min]
    exact and_iff_left (by decide)
  exact decide_eq_decide.mpr several

theorem spread_iff (working : workers ≠ 0) (serving : servers ≠ 0) :
    spread workers servers = true ↔ 1 < workers ∨ 1 < servers := by
  have some : 0 < workers.toNat := Nat.pos_of_ne_zero fun none => working (UInt32.toNat_inj.mp none)
  have others : 0 < servers.toNat := Nat.pos_of_ne_zero fun none => serving (UInt32.toNat_inj.mp none)
  rw [spread_eq, decide_eq_true_eq, Nat.one_lt_mul_iff, and_iff_right some, and_iff_right others]
  rfl

theorem serves_layOut (working : workers ≠ 0) (serving : servers ≠ 0) (root : Nat) (subRoots : List Nat) :
    (layOut plan workers servers root subRoots).Serves workers servers where
  numbers := ⟨rfl, rfl⟩
  partitioned := spread_iff working serving
  shuffled := by
    intro node member
    obtain ⟨⟨source, id⟩, _, same⟩ := List.mem_map.mp member
    subst same
    simp only [NodeOp.needsLocality_map, Bool.and_eq_true, spread_iff working serving, and_comm]

theorem redeployed_layOut (root : Nat) (subRoots : List Nat) (workers servers workers' servers' : UInt32) :
    (layOut plan workers servers root subRoots).redeployed workers' servers' =
      layOut plan workers' servers' root subRoots := by
  simp only [redeployed, layOut, List.map_map]
  refine congrArg (fun nodes => PhysicalPlan.mk workers' servers' _ _ nodes) (List.map_congr_left fun entry _ => ?_)
  simp only [Function.comp, PhysicalNode.redeployed, NodeOp.needsLocality_map]

/-! Frames. -/

/-- What the bytes of a frame in these places tell. -/
structure Tells (bytes : List UInt8) (physical : PhysicalPlan) : Prop where
  workers : wordAt bytes headerLength = physical.workers
  servers : wordAt bytes (headerLength + 4) = physical.servers
  flags : ∀ before node after, physical.nodes = before ++ node :: after →
    bytes[physical.flagPlace before node]? = some (if node.shuffle then 1 else 0)

theorem agree_nodes (workers servers : UInt32) (before : List PhysicalNode) {after : List PhysicalNode}
    (nodes : physical.nodes = before ++ after) :
    AgreeApart physical.Hint (headerLength + (Codec.upTo physical before).length)
      (after.flatMap Codec.physicalNode.write)
      ((after.map fun node => node.redeployed workers servers).flatMap Codec.physicalNode.write) := by
  induction after generalizing before with
  | nil => exact .refl []
  | cons node after later =>
    have further := later (before ++ [node]) (by rw [nodes, List.append_assoc]; rfl)
    rw [Codec.upTo_snoc, List.length_append, ← Nat.add_assoc] at further
    rw [List.map_cons, List.flatMap_cons, List.flatMap_cons]
    refine .append ?_ further
    rw [Codec.physicalNode_write, Codec.physicalNode_write]
    refine .append (.refl _) (.free rfl fun offset inside => ?_)
    -- A flag is one byte.
    obtain rfl : offset = 0 := Nat.lt_one_iff.mp inside
    exact .shuffle nodes

theorem agree_payload (workers servers : UInt32) : AgreeApart physical.Hint headerLength (Codec.physicalPlan.write physical)
    (Codec.physicalPlan.write (physical.redeployed workers servers)) := by
  have nodes : AgreeApart physical.Hint _ _ _ := agree_nodes workers servers [] rfl
  rw [Codec.upTo, List.flatMap_nil, List.append_nil] at nodes
  have count : (physical.redeployed workers servers).nodes.length = physical.nodes.length := List.length_map _
  rw [Codec.physicalPlan_write, Codec.physicalPlan_write, Codec.upTo, Codec.upTo, count]
  refine .append (.append (.append ?_ ?_) (.refl _)) nodes
  · exact .free rfl fun offset inside => .workers offset inside
  · exact .free rfl fun offset inside => .servers offset inside

theorem agree_frames {bytes others : List UInt8} (frames : Frames bytes (Codec.physicalPlan.write physical))
    (twin : Frames others (Codec.physicalPlan.write (physical.redeployed workers servers))) :
    AgreeApart physical.Hint 0 bytes others := by
  have payload : AgreeApart physical.Hint _ _ _ := agree_payload workers servers
  have sums (sum twin : UInt32) : (Codec.word32.write twin).length = (Codec.word32.write sum).length := rfl
  rw [frames.same, twin.same]
  refine .append ?_ (.free (sums _ _) fun offset inside => ?_)
  · rw [framed, framed, payload.length]
    refine .append (.refl _) ?_
    rw [Nat.zero_add, List.length_append, Codec.length_word32, Codec.length_word32]
    exact payload
  · rw [Nat.zero_add, length_framed]
    exact .checksum offset inside

theorem tells_of_frames {bytes : List UInt8} (frames : Frames bytes (Codec.physicalPlan.write physical)) :
    Tells bytes physical := by
  -- The payload stands behind a header, and something behind the payload.
  obtain ⟨header, behind, size, same⟩ : ∃ header behind, header.length = headerLength ∧
      bytes = header ++ (Codec.physicalPlan.write physical ++ behind) := by
    refine ⟨_, _, ?_, frames.same.trans (List.append_assoc _ _ _)⟩
    rw [List.length_append, Codec.length_word32, Codec.length_word32]
    rfl
  rw [same, Codec.physicalPlan_write]
  constructor
  · rw [Codec.upTo]
    simp only [List.append_assoc]
    exact wordAt_append size _ _
  · rw [Codec.upTo]
    simp only [List.append_assoc]
    rw [← List.append_assoc header]
    exact wordAt_append (by rw [List.length_append, size, Codec.length_word32]) _ _
  · intro before node after nodes
    have place : physical.flagPlace before node =
        (header ++ (Codec.upTo physical before ++ Codec.unflagged node)).length := by
      rw [flagPlace, List.length_append, List.length_append, size, Nat.add_assoc]
    have split : header ++ (Codec.upTo physical (before ++ node :: after) ++ behind) =
        header ++ (Codec.upTo physical before ++ Codec.unflagged node) ++
          (Codec.bool.write node.shuffle ++ (after.flatMap Codec.physicalNode.write ++ behind)) := by
      simp only [Codec.upTo_split, List.append_assoc]
    rw [nodes, split, place, List.getElem?_append_right (Nat.le_refl _), Nat.sub_self]
    cases node.shuffle <;> rfl

/-- The same plan for two deployments, as it is written for each. -/
structure Redeploys (physical : PhysicalPlan) (workers servers : UInt32) (other : PhysicalPlan) (workers' servers' : UInt32) :
    Prop where
  first : physical.Serves workers servers
  second : other.Serves workers' servers'
  same : other = physical.redeployed workers' servers'
  encoded : Option.Rel (fun bytes others => Tells bytes physical ∧ Tells others other ∧
    AgreeApart physical.Hint 0 bytes others) physical.encode? other.encode?

theorem encoded_redeployed : Option.Rel (fun bytes others => Tells bytes physical ∧
    Tells others (physical.redeployed workers servers) ∧ AgreeApart physical.Hint 0 bytes others)
    physical.encode? (physical.redeployed workers servers).encode? := by
  have size : (Codec.physicalPlan.write (physical.redeployed workers servers)).length =
      (Codec.physicalPlan.write physical).length := (agree_payload workers servers).length
  by_cases fits : (Codec.physicalPlan.write physical).length < UInt32.size
  · have frames : Frames _ (Codec.physicalPlan.write physical) := ⟨fits, rfl⟩
    have twin : Frames _ (Codec.physicalPlan.write (physical.redeployed workers servers)) := ⟨size ▸ fits, rfl⟩
    rw [encode?_eq_some.mpr frames, encode?_eq_some.mpr twin]
    exact .some ⟨tells_of_frames frames, tells_of_frames twin, agree_frames frames twin⟩
  · have long : physical.encode? = none := if_neg fits
    have longer : (physical.redeployed workers servers).encode? = none := if_neg (size ▸ fits)
    rw [long, longer]
    exact .none

variable {workers' servers' : UInt32}

theorem redeploys_layOut (working : workers ≠ 0) (serving : servers ≠ 0) (working' : workers' ≠ 0) (serving' : servers' ≠ 0)
    (root : Nat) (subRoots : List Nat) : (layOut plan workers servers root subRoots).Redeploys workers servers
      (layOut plan workers' servers' root subRoots) workers' servers' where
  first := serves_layOut working serving root subRoots
  second := serves_layOut working' serving' root subRoots
  same := (redeployed_layOut root subRoots workers servers workers' servers').symm
  encoded := redeployed_layOut root subRoots workers servers workers' servers' ▸ encoded_redeployed

/-- A plan that can be laid out for one deployment can be laid out for any other, and if it cannot, then for the same
reason. The layouts differ in the numbers of the deployment and in the flags that these decide, and so do their bytes. -/
theorem deployments_only_hint (plan : PlanGraph) (working : workers ≠ 0) (serving : servers ≠ 0) (working' : workers' ≠ 0)
    (serving' : servers' ≠ 0) :
    Alike (fun physical other => physical.Redeploys workers servers other workers' servers')
      (ofGraph plan workers servers) (ofGraph plan workers' servers') := by
  rw [ofGraph, ofGraph, ofTables_eq, ofTables_eq, if_neg (not_or.mpr ⟨working, serving⟩),
    if_neg (not_or.mpr ⟨working', serving'⟩)]
  by_cases empty : plan.isEmpty = true
  · rw [if_pos empty, if_pos empty]
    exact .error _
  rw [if_neg empty, if_neg empty]
  by_cases cyclic : PlanTables.hasCycle plan.tables.edges = true
  · rw [if_pos cyclic, if_pos cyclic]
    exact .error _
  rw [if_neg cyclic, if_neg cyclic]
  by_cases few : plan.size < 2 ^ 31
  · rw [if_pos few, if_pos few]
    refine Alike.bind_same fun targets => ?_
    unfold layOutFrom
    cases unnamedRoots plan targets with
    | nil => exact .error _
    | cons root rest =>
      cases rest with
      | nil => exact .ok (redeploys_layOut working serving working' serving' root (namedRoots plan targets))
      | cons => exact .error _
  · rw [if_neg few, if_neg few]
    exact .error _

/-- A scan and a step from there, which has to move its input if there is anywhere to move it. -/
def stepping : PlanGraph :=
  let read : TableRead := { tables := [], columns := [], limit := none, predicate := none }
  ((PlanGraph.empty none).grow (.scan .vertex none read none) [] []).grow (.edge .outgoing read false none) [0] []

/-- There are more workers in all than a word can count. -/
theorem stepping_redeployed : (65536 : UInt32) ≠ 0 ∧ (1 : UInt32) ≠ 0 ∧ (65536 : UInt32) * 65536 = 0 ∧
    ∃ physical other, ofGraph stepping 65536 65536 = .ok physical ∧ ofGraph stepping 1 1 = .ok other ∧
    physical.Redeploys 65536 65536 other 1 1 ∧
    physical.nodes.map PhysicalNode.shuffle = [false, true] ∧ other.nodes.map PhysicalNode.shuffle = [false, false] := by
  have alike : Alike _ (ofGraph stepping 65536 65536) (ofGraph stepping 1 1) :=
    deployments_only_hint stepping (by decide) (by decide) (by decide) (by decide)
  cases alike with
  | ok holds => exact ⟨by decide, by decide, by decide, _, _, rfl, rfl, holds, rfl, rfl⟩

end PhysicalPlan

end TraversalPlanner
