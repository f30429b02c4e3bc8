import TraversalPlanner.Proofs.PlanForest
import TraversalPlanner.Proofs.Serialization

/-! The shape of every plan that a traversal is compiled to, as it is read back from the bytes. -/

namespace TraversalPlanner

namespace NodeOp

variable {ι κ : Type}

theorem subRoot?_map (f : ι → κ) (op : NodeOp ι) : (op.map f).subRoot? = op.subRoot?.map f := by
  cases op <;> rfl

theorem isUnion_map (f : ι → κ) (op : NodeOp ι) : (op.map f).isUnion = op.isUnion := by
  cases op <;> rfl

end NodeOp

namespace PlanGraph

variable {plan : PlanGraph}

/-- A child that is listed twice has several parents. -/
theorem children_pairwise (parent : Int) : (plan.children parent).Pairwise fun child other =>
    child = other → ∃ node, plan.nodes[child]? = some node ∧ 1 < node.parents.length := by
  unfold children
  rw [List.pairwise_flatMap]
  constructor
  · intro (node, child) entry
    rw [List.pairwise_replicate]
    by_cases few : node.parents.countP (fun other : Nat => (other : Int) = parent) ≤ 1
    · exact .inl few
    · refine .inr fun _ => ⟨node, List.mk_mem_zipIdx_iff_getElem?.mp entry, ?_⟩
      exact Nat.lt_of_lt_of_le (Nat.lt_of_not_le few) List.countP_le_length
  · refine (zipIdx_pairwise plan.nodes).imp fun apart child listed other again same => ?_
    have first := List.eq_of_mem_replicate listed
    have second := List.eq_of_mem_replicate again
    omega

end PlanGraph

namespace PhysicalPlan

/-- From each node to its children, as often as it lists them. -/
def edges (plan : PhysicalPlan) : List (Int32 × Int32) :=
  plan.nodes.flatMap fun node => node.children.map fun child => (node.id, child)

/-- From each apply to the root of its plan. -/
def links (plan : PhysicalPlan) : List (Int32 × Int32) :=
  plan.nodes.filterMap fun node => node.op.subRoot?.map fun root => (node.id, root)

def Descends (plan : PhysicalPlan) : Int32 → Int32 → Prop :=
  Relation.ReflTransGen fun parent child => (parent, child) ∈ plan.edges

def Follows (plan : PhysicalPlan) : Int32 → Int32 → Prop :=
  Relation.ReflTransGen fun source target => (source, target) ∈ plan.edges ∨ (source, target) ∈ plan.links

structure Shaped (plan : PhysicalPlan) : Prop where
  numbered : ∀ (place : Nat) node, plan.nodes[place]? = some node → node.id.toInt = place
  forward : ∀ parent child, (parent, child) ∈ plan.edges → parent < child
  /-- Only unions have several parents. -/
  single : plan.edges.Pairwise fun edge other =>
    edge.2 = other.2 → ∃ node ∈ plan.nodes, node.id = edge.2 ∧ node.op.isUnion = true
  entered : ∀ node ∈ plan.nodes, node.id ≠ plan.root → node.id ∉ plan.subRoots → ∃ parent, (parent, node.id) ∈ plan.edges
  ascending : plan.subRoots.Pairwise (· < ·)
  apart : plan.root ∉ plan.subRoots
  linked : ∀ root, root ∈ plan.subRoots ↔ ∃ apply, (apply, root) ∈ plan.links
  /-- No two applies have the same plan. -/
  once : plan.links.Pairwise fun link other => link.2 ≠ other.2
  behind : ∀ apply root, (apply, root) ∈ plan.links → root < apply
  reached : ∀ node ∈ plan.nodes, ∃! root, root ∈ plan.root :: plan.subRoots ∧ plan.Descends root node.id
  followed : ∀ node ∈ plan.nodes, plan.Follows plan.root node.id

/-! Plans as they are laid out. -/

section LaidOut

variable {plan : PlanGraph} {workers servers : UInt32} {root : Nat} {subRoots : List Nat}

theorem ofNat_inj {id other : Nat} (inside : id < 2 ^ 31) (within : other < 2 ^ 31) :
    Int32.ofNat id = Int32.ofNat other ↔ id = other := by
  rw [← Int32.toInt_inj, Int32.toInt_ofNat_of_lt inside, Int32.toInt_ofNat_of_lt within, Int.natCast_inj]

theorem ofNat_lt {id other : Nat} (inside : id < 2 ^ 31) (within : other < 2 ^ 31) :
    Int32.ofNat id < Int32.ofNat other ↔ id < other := by
  rw [Int32.lt_iff_toInt_lt, Int32.toInt_ofNat_of_lt inside, Int32.toInt_ofNat_of_lt within, Int.ofNat_lt]

theorem getElem?_layOut (place : Nat) : (layOut plan workers servers root subRoots).nodes[place]? =
    plan.nodes[place]?.map fun node => {
      id := Int32.ofNat place
      op := node.op.map Int32.ofInt
      children := (plan.children place).map Int32.ofNat
      shuffle := spread workers servers && node.op.needsLocality } := by
  simp only [layOut, List.getElem?_map, List.getElem?_zipIdx, Option.map_map, Nat.zero_add]
  rfl

theorem mem_layOut {node : PhysicalNode} (member : node ∈ (layOut plan workers servers root subRoots).nodes) :
    ∃ place, place < plan.size ∧ node.id = Int32.ofNat place := by
  obtain ⟨place, found⟩ := List.mem_iff_getElem?.mp member
  rw [getElem?_layOut] at found
  obtain ⟨source, there, same⟩ := Option.map_eq_some_iff.mp found
  exact ⟨place, (List.getElem?_eq_some_iff.mp there).1, same ▸ rfl⟩

private theorem edges_layOut : (layOut plan workers servers root subRoots).edges =
    plan.nodes.zipIdx.flatMap fun entry =>
      (plan.children entry.2).map fun child => (Int32.ofNat entry.2, Int32.ofNat child) := by
  simp only [edges, layOut, List.flatMap_map, List.map_map]
  rfl

theorem mem_edges {source target : Int32} : (source, target) ∈ (layOut plan workers servers root subRoots).edges ↔
    ∃ parent child : Nat, parent < plan.size ∧ plan.Child parent child ∧
      source = Int32.ofNat parent ∧ target = Int32.ofNat child := by
  rw [edges_layOut]
  simp only [List.mem_flatMap, List.mem_map, Prod.mk.injEq, Prod.exists]
  constructor
  · intro listed
    obtain ⟨node, parent, entry, child, member, from_eq, to_eq⟩ := listed
    have found := List.mk_mem_zipIdx_iff_getElem?.mp entry
    have inside := (List.getElem?_eq_some_iff.mp found).1
    exact ⟨parent, child, inside, PlanGraph.mem_children.mp member, from_eq.symm, to_eq.symm⟩
  · intro edge
    obtain ⟨parent, child, inside, edge, from_eq, to_eq⟩ := edge
    have entry := List.mk_mem_zipIdx_iff_getElem?.mpr (List.getElem?_eq_getElem inside)
    exact ⟨_, parent, entry, child, PlanGraph.mem_children.mpr edge, from_eq.symm, to_eq.symm⟩

theorem mem_links {source target : Int32} (forest : plan.Forest root) :
    (source, target) ∈ (layOut plan workers servers root subRoots).links ↔
      ∃ apply sub : Nat, plan.Names apply sub ∧ source = Int32.ofNat apply ∧ target = Int32.ofNat sub := by
  simp only [links, List.mem_filterMap, Option.map_eq_some_iff, Prod.mk.injEq]
  constructor
  · intro linked
    obtain ⟨node, member, target, named, from_eq, to_eq⟩ := linked
    obtain ⟨apply, found⟩ := List.mem_iff_getElem?.mp member
    rw [getElem?_layOut] at found
    obtain ⟨entry, there, same⟩ := Option.map_eq_some_iff.mp found
    subst same
    rw [NodeOp.subRoot?_map, Option.map_eq_some_iff] at named
    obtain ⟨asked, named, given⟩ := named
    obtain ⟨sub, same, _⟩ := forest.accepted.targets apply entry asked there named
    subst same
    exact ⟨apply, sub, ⟨entry, there, named⟩, from_eq.symm, by rw [← to_eq, ← given, Int32.ofInt_eq_ofNat]⟩
  · intro names
    obtain ⟨apply, sub, ⟨entry, found, named⟩, from_eq, to_eq⟩ := names
    refine ⟨_, List.mem_of_getElem? (by rw [getElem?_layOut, found]; rfl), target, ?_, from_eq.symm, rfl⟩
    rw [NodeOp.subRoot?_map, named, to_eq, Option.map_some, Int32.ofInt_eq_ofNat]

theorem descends_layOut (forward : ∀ {parent id}, plan.Child parent id → parent < id) {top id : Nat}
    (descends : plan.Descends top id) :
    (layOut plan workers servers root subRoots).Descends (Int32.ofNat top) (Int32.ofNat id) := by
  induction descends with
  | refl => exact .refl
  | tail _ edge step =>
    have inside := Nat.lt_trans (forward edge) (PlanGraph.Forest.child_lt_size edge)
    exact step.tail (mem_edges.mpr ⟨_, _, inside, edge, rfl, rfl⟩)

theorem follows_layOut (forest : plan.Forest root) {top id : Nat} (follows : plan.Follows top id) :
    (layOut plan workers servers root subRoots).Follows (Int32.ofNat top) (Int32.ofNat id) := by
  induction follows with
  | refl => exact .refl
  | tail _ leads step =>
    refine step.tail ?_
    cases leads with
    | child edge =>
      have inside := Nat.lt_trans (forest.child_lt edge) (PlanGraph.Forest.child_lt_size edge)
      exact .inl (mem_edges.mpr ⟨_, _, inside, edge, rfl, rfl⟩)
    | link names => exact .inr ((mem_links forest).mpr ⟨_, _, names, rfl, rfl⟩)

variable (forest : plan.Forest root) (small : plan.size < 2 ^ 31)

include small in
theorem descends_of_layOut {top : Nat} {target : Int32} (inside : top < plan.size)
    (descends : (layOut plan workers servers root subRoots).Descends (Int32.ofNat top) target) :
    ∃ id, id < plan.size ∧ target = Int32.ofNat id ∧ plan.Descends top id := by
  induction descends with
  | refl => exact ⟨top, inside, rfl, .refl⟩
  | tail _ edge step =>
    obtain ⟨id, within, same, descends⟩ := step
    obtain ⟨parent, child, known, edge, again, target_eq⟩ := mem_edges.mp edge
    have equal : id = parent := (ofNat_inj (by omega) (by omega)).mp (same.symm.trans again)
    subst equal
    exact ⟨child, PlanGraph.Forest.child_lt_size edge, target_eq, descends.tail edge⟩

include forest small in
private theorem single_layOut : (layOut plan workers servers root subRoots).edges.Pairwise fun edge other =>
    edge.2 = other.2 →
      ∃ node ∈ (layOut plan workers servers root subRoots).nodes, node.id = edge.2 ∧ node.op.isUnion = true := by
  -- A node with several parents is a union, so the lists of children tell all.
  have union : ∀ child node, plan.nodes[child]? = some node → 1 < node.parents.length →
      ∃ node ∈ (layOut plan workers servers root subRoots).nodes, node.id = Int32.ofNat child ∧ node.op.isUnion = true := by
    intro child node found several
    refine ⟨_, List.mem_of_getElem? (by rw [getElem?_layOut, found]; rfl), rfl, ?_⟩
    rw [NodeOp.isUnion_map]
    by_contra plain
    have few := (forest.tidy child node found).single (by simpa using plain)
    omega
  have below {parent child : Nat} (listed : child ∈ plan.children parent) : child < 2 ^ 31 :=
    Nat.lt_trans (PlanGraph.Forest.child_lt_size (PlanGraph.mem_children.mp listed)) small
  rw [edges_layOut, List.pairwise_flatMap]
  constructor
  · intro (node, parent) _
    rw [List.pairwise_map]
    refine (PlanGraph.children_pairwise parent).imp_of_mem fun listed again several same => ?_
    obtain ⟨node, found, more⟩ := several ((ofNat_inj (below listed) (below again)).mp same)
    exact union _ node found more
  · refine (PlanGraph.zipIdx_pairwise plan.nodes).imp fun {entry other} apart edge listed another again same => ?_
    obtain ⟨child, member, edge_eq⟩ := List.mem_map.mp listed
    obtain ⟨twin, member', other_eq⟩ := List.mem_map.mp again
    subst edge_eq other_eq
    have equal := (ofNat_inj (below member) (below member')).mp same
    subst equal
    obtain ⟨node, found, first⟩ := PlanGraph.mem_children.mp member
    obtain ⟨node', found', second⟩ := PlanGraph.mem_children.mp member'
    cases found.symm.trans found'
    refine union child node found ?_
    by_contra few
    have some := List.length_pos_of_mem first
    obtain ⟨sole, only⟩ := List.length_eq_one_iff.mp (show node.parents.length = 1 by omega)
    rw [only, List.mem_singleton] at first second
    omega

private theorem links_layOut : (layOut plan workers servers root subRoots).links = plan.nodes.zipIdx.filterMap fun entry =>
    entry.1.op.subRoot?.map fun target => (Int32.ofNat entry.2, Int32.ofInt target) := by
  simp only [links, layOut, List.filterMap_map]
  refine congrArg (List.filterMap · _) (funext fun entry => ?_)
  simp only [Function.comp, NodeOp.subRoot?_map, Option.map_map]
  rfl

include forest small in
private theorem once_layOut :
    (layOut plan workers servers root subRoots).links.Pairwise fun link other => link.2 ≠ other.2 := by
  rw [links_layOut, List.pairwise_filterMap]
  refine (PlanGraph.zipIdx_pairwise plan.nodes).imp_of_mem fun {entry other} known again apart => ?_
  intro link linked twin another same
  obtain ⟨target, named, link_eq⟩ := Option.map_eq_some_iff.mp linked
  obtain ⟨target', named', twin_eq⟩ := Option.map_eq_some_iff.mp another
  have found := List.mk_mem_zipIdx_iff_getElem?.mp known
  have found' := List.mk_mem_zipIdx_iff_getElem?.mp again
  obtain ⟨sub, given, _⟩ := forest.accepted.targets entry.2 entry.1 target found named
  obtain ⟨sub', given', _⟩ := forest.accepted.targets other.2 other.1 target' found' named'
  subst given given' link_eq twin_eq
  have names : plan.Names entry.2 sub := ⟨entry.1, found, named⟩
  have names' : plan.Names other.2 sub' := ⟨other.1, found', named'⟩
  have before := forest.behind entry.2 sub names
  have before' := forest.behind other.2 sub' names'
  have inside := names.lt_size
  have inside' := names'.lt_size
  rw [Int32.ofInt_eq_ofNat, Int32.ofInt_eq_ofNat, ofNat_inj (by omega) (by omega)] at same
  subst same
  have equal := forest.once entry.2 other.2 sub names names'
  omega

variable (ascending : subRoots.Pairwise (· < ·)) (named : ∀ id, id ∈ subRoots ↔ ∃ apply, plan.Names apply id)

include named in
theorem mem_subRoots {target : Int32} : target ∈ (layOut plan workers servers root subRoots).subRoots ↔
    ∃ sub : Nat, (∃ apply, plan.Names apply sub) ∧ target = Int32.ofNat sub := by
  change target ∈ subRoots.map Int32.ofNat ↔ _
  rw [List.mem_map]
  exact exists_congr fun sub => and_congr (named sub) eq_comm

include forest small named in
private theorem reached_layOut {id : Nat} (inside : id < plan.size) : ∃! target,
    target ∈ (layOut plan workers servers root subRoots).root :: (layOut plan workers servers root subRoots).subRoots ∧
      (layOut plan workers servers root subRoots).Descends target (Int32.ofNat id) := by
  have roots {target : Int32} :
      target ∈ (layOut plan workers servers root subRoots).root :: (layOut plan workers servers root subRoots).subRoots ↔
        ∃ top : Nat, (top = root ∨ ∃ apply, plan.Names apply top) ∧ target = Int32.ofNat top := by
    rw [List.mem_cons, mem_subRoots named]
    change target = Int32.ofNat root ∨ _ ↔ _
    simp only [or_and_right, exists_or, exists_eq_left]
  obtain ⟨top, tops, descends, sole⟩ := forest.exists_unique_top inside
  refine ⟨Int32.ofNat top, ⟨roots.mpr ⟨top, tops, rfl⟩, descends_layOut forest.child_lt descends⟩, fun target other => ?_⟩
  obtain ⟨member, from_other⟩ := other
  obtain ⟨other, others, same⟩ := roots.mp member
  subst same
  have known := (forest.top_parentless others).lt_size
  obtain ⟨id', within, same, descends'⟩ := descends_of_layOut small known from_other
  have equal := (ofNat_inj (by omega) (by omega)).mp same
  subst equal
  rw [sole other others descends']

include forest small ascending named in
theorem shaped_layOut : (layOut plan workers servers root subRoots).Shaped where
  numbered := by
    intro place node found
    rw [getElem?_layOut] at found
    obtain ⟨source, there, same⟩ := Option.map_eq_some_iff.mp found
    have inside : place < plan.size := (List.getElem?_eq_some_iff.mp there).1
    rw [← same]
    exact Int32.toInt_ofNat_of_lt (by omega)
  forward := by
    intro source target listed
    obtain ⟨parent, child, _, edge, from_eq, to_eq⟩ := mem_edges.mp listed
    have before := forest.child_lt edge
    have inside := PlanGraph.Forest.child_lt_size edge
    rw [from_eq, to_eq, ofNat_lt (by omega) (by omega)]
    exact before
  single := single_layOut forest small
  entered := by
    intro node member other unnamed
    obtain ⟨id, inside, same⟩ := mem_layOut member
    rw [same] at other unnamed ⊢
    rw [mem_subRoots named] at unnamed
    obtain ⟨parent, edge⟩ := forest.accepted.exists_child inside (fun top => other (top ▸ rfl))
      fun names => unnamed ⟨id, names, rfl⟩
    exact ⟨_, mem_edges.mpr ⟨parent, id, Nat.lt_trans (forest.child_lt edge) inside, edge, rfl, rfl⟩⟩
  ascending := by
    change (subRoots.map Int32.ofNat).Pairwise (· < ·)
    rw [List.pairwise_map]
    refine ascending.imp_of_mem fun member member' before => ?_
    have inside := (forest.top_parentless (.inr ((named _).mp member))).lt_size
    have inside' := (forest.top_parentless (.inr ((named _).mp member'))).lt_size
    exact (ofNat_lt (by omega) (by omega)).mpr before
  apart := by
    rw [mem_subRoots named]
    intro named
    obtain ⟨sub, ⟨apply, names⟩, same⟩ := named
    have top := forest.accepted.parentless.lt_size
    have inside := (forest.top_parentless (.inr ⟨apply, names⟩)).lt_size
    have equal : root = sub := (ofNat_inj (by omega) (by omega)).mp same
    subst equal
    exact forest.accepted.unnamed apply names
  linked := by
    intro target
    simp only [mem_subRoots named, mem_links forest]
    constructor
    · intro listed
      obtain ⟨sub, ⟨apply, names⟩, same⟩ := listed
      exact ⟨_, apply, sub, names, rfl, same⟩
    · intro linked
      obtain ⟨_, apply, sub, names, _, same⟩ := linked
      exact ⟨sub, ⟨apply, names⟩, same⟩
  once := once_layOut forest small
  behind := by
    intro source target linked
    obtain ⟨apply, sub, names, from_eq, to_eq⟩ := (mem_links forest).mp linked
    have before := forest.behind apply sub names
    have inside := names.lt_size
    rw [from_eq, to_eq, ofNat_lt (by omega) (by omega)]
    exact before
  reached := by
    intro node member
    obtain ⟨id, inside, same⟩ := mem_layOut member
    rw [same]
    exact reached_layOut forest small named inside
  followed := by
    intro node member
    obtain ⟨id, inside, same⟩ := mem_layOut member
    rw [same]
    exact follows_layOut forest (forest.followed id inside)

end LaidOut

end PhysicalPlan

namespace Compiler

/-- The bytes that a traversal is compiled to hold a plan, and the plan has its shape. -/
theorem compiled_plan_shaped {deployment : Deployment} {schema : Option Schema} {traversal : Traversal} {compiled : Compiled}
    (done : compile deployment schema traversal = .ok compiled) :
    ∃ plan, PhysicalPlan.decode compiled.bytes = .ok plan ∧ plan.Shaped := by
  obtain ⟨plan, assembles, filled, same⟩ := assembles_of_compile done
  obtain ⟨physical, laid, encoded⟩ := PlanGraph.encoded_of_bytes filled
  obtain ⟨_, _, _, _, planted⟩ := assembles.planted
  obtain ⟨small, root, subRoots, accepted, ascending, named, laid_eq⟩ := PhysicalPlan.layout_of_ok laid
  have forest := PlanGraph.forest_of_accepted planted accepted
  refine ⟨physical, same ▸ PhysicalPlan.decode_encode encoded, ?_⟩
  subst laid_eq
  exact PhysicalPlan.shaped_layOut forest small ascending named

/-- The neighbours of the vertices that have an outgoing edge, found on two ways that meet. -/
def neighbours : Traversal :=
  let departing := (Traversal.vertices []).add (.whereTraversal (Traversal.out [] []))
  departing.add (.union [Traversal.out [] [], Traversal.into [] []])

theorem neighbours_shaped : ∃ compiled, compile .standalone none neighbours = .ok compiled ∧
    ∃ plan, PhysicalPlan.decode compiled.bytes = .ok plan ∧ plan.Shaped := by
  have passes : (compile .standalone none neighbours).isOk = true := by decide +kernel
  cases done : compile .standalone none neighbours with
  | error error =>
    rw [done] at passes
    cases passes
  | ok compiled => exact ⟨compiled, rfl, compiled_plan_shaped done⟩

end Compiler

end TraversalPlanner
