import TraversalPlanner.Plan.Graph
import TraversalPlanner.Proofs.ListEffects

/-! How a plan grows. A node that is appended stands on some ground, its parents and the tags that it
sees; then schema and tags are checked, and only then does the plan change, by one node at its end.
Everything else about growing plans follows from that. -/

namespace TraversalPlanner

open Proofs

namespace PlanGraph

variable {plan after : PlanGraph} {op : NodeOp Int} {tag : Identifier}

/-- The plan with one more node, which sees the given tags before it binds its own. -/
def grow (plan : PlanGraph) (op : NodeOp Int) (parents : List Nat) (visible : List Identifier) : PlanGraph :=
  let node := { op, parents, visible := op.bindings.foldl (fun seen tag => seen.insert tag) visible }
  { plan with nodes := plan.nodes ++ [node], binders := plan.bindTags plan.size op.bindings }

def ground (plan : PlanGraph) (parents : List Int) : Except Refusal (List Nat × List Identifier) :=
  (plan.resolveAll parents).map fun parents => (parents, plan.visibleUnder parents)

def groundRoot (plan : PlanGraph) (scope : Int) : Except Refusal (List Nat × List Identifier) :=
  if scope < 0 then .ok ([], [])
  else match plan.nodes[scope.toNat]? with
    | some node => .ok ([], node.visible)
    | none => .error .parentNotFound

/-- Everything that an append of a node on some ground may come to. -/
inductive Appends (plan : PlanGraph) (op : NodeOp Int) (ground : Except Refusal (List Nat × List Identifier)) :
    Except Refusal (Nat × PlanGraph) → Prop
  | released (gone : plan.released = true) : Appends plan op ground (.error .planReleased)
  | groundless {refusal} (refused : ground = .error refusal) : Appends plan op ground (.error refusal)
  | schema {refusal} (refused : plan.checkSchema op = .error refusal) : Appends plan op ground (.error refusal)
  | tags {parents visible refusal} (stands : ground = .ok (parents, visible))
      (refused : checkTags visible op = .error refusal) : Appends plan op ground (.error refusal)
  | grown {parents visible} (kept : plan.released = false) (stands : ground = .ok (parents, visible))
      (known : plan.checkSchema op = .ok ()) (seen : checkTags visible op = .ok ()) :
      Appends plan op ground (.ok (plan.size, plan.grow op parents visible))

private theorem insert_appends {ground : Except Refusal (List Nat × List Identifier)} {parents : List Nat}
    {visible : List Identifier} (kept : plan.released = false) (stands : ground = .ok (parents, visible)) :
    plan.Appends op ground (plan.insert op parents visible) := by
  unfold insert
  cases known : plan.checkSchema op with
  | error refusal => exact .schema known
  | ok _ =>
    cases seen : checkTags visible op with
    | error refusal => exact .tags stands seen
    | ok _ => exact .grown kept stands known seen

theorem append_appends (parents : List Int) : plan.Appends op (plan.ground parents) (plan.append op parents) := by
  unfold append
  split
  · next gone => exact .released gone
  · next kept =>
    cases resolved : plan.resolveAll parents with
    | error refusal => exact .groundless (by rw [ground, resolved]; rfl)
    | ok found => exact insert_appends (by simpa using kept) (by rw [ground, resolved]; rfl)

theorem appendRoot_appends (scope : Int) : plan.Appends op (plan.groundRoot scope) (plan.appendRoot op scope) := by
  unfold appendRoot groundRoot
  cases kept : plan.released with
  | true => exact .released kept
  | false =>
    by_cases outside : scope < 0
    · simp only [outside, if_true]
      exact insert_appends kept rfl
    · simp only [outside, if_false]
      cases plan.nodes[scope.toNat]? with
      | none => exact .groundless rfl
      | some node => exact insert_appends kept rfl

@[simp] theorem size_grow (parents : List Nat) (visible : List Identifier) :
    (plan.grow op parents visible).size = plan.size + 1 := by
  simp [grow, size]

/-- The new node, and every node that was there before. -/
theorem getElem?_grow (parents : List Nat) (visible : List Identifier) (id : Nat) :
    (plan.grow op parents visible).nodes[id]? =
      if id = plan.size then
        some { op, parents, visible := op.bindings.foldl (fun seen tag => seen.insert tag) visible }
      else plan.nodes[id]? := by
  simp only [grow, size, List.getElem?_append, List.getElem?_singleton]
  grind

theorem newest_grow (parents : List Nat) (visible : List Identifier) : (plan.grow op parents visible).nodes[plan.size]? =
    some { op, parents, visible := op.bindings.foldl (fun seen tag => seen.insert tag) visible } :=
  (getElem?_grow parents visible plan.size).trans (if_pos rfl)

def Child (plan : PlanGraph) (parent id : Nat) : Prop := ∃ node, plan.nodes[id]? = some node ∧ parent ∈ node.parents

theorem mem_children {parent child : Nat} : child ∈ plan.children parent ↔ plan.Child parent child := by
  unfold children
  simp only [List.mem_flatMap, List.mem_replicate, Prod.exists]
  constructor
  · intro listed
    obtain ⟨node, place, entry, some, same⟩ := listed
    obtain ⟨found, member, equal⟩ := List.countP_pos_iff.mp (Nat.pos_of_ne_zero some)
    cases Int.ofNat.inj (of_decide_eq_true equal)
    exact ⟨node, same ▸ List.mk_mem_zipIdx_iff_getElem?.mp entry, member⟩
  · intro edge
    obtain ⟨node, found, member⟩ := edge
    refine ⟨node, child, List.mk_mem_zipIdx_iff_getElem?.mpr found, ?_, rfl⟩
    exact Nat.ne_of_gt (List.countP_pos_iff.mpr ⟨parent, member, by simp⟩)

theorem zipIdx_pairwise {α : Type} (items : List α) : items.zipIdx.Pairwise fun entry other => entry.2 < other.2 := by
  have places : (items.zipIdx.map Prod.snd).Pairwise (· < ·) := by
    rw [List.zipIdx_map_snd]
    exact List.pairwise_lt_range'
  exact List.pairwise_map.mp places

/-- Nodes that are there stay what they are. -/
def Extends (plan after : PlanGraph) : Prop :=
  ∀ (id : Nat) node, plan.nodes[id]? = some node → after.nodes[id]? = some node

theorem Extends.refl (plan : PlanGraph) : plan.Extends plan := fun _ _ found => found

theorem Extends.trans {later : PlanGraph} (first : plan.Extends after) (second : after.Extends later) :
    plan.Extends later :=
  fun id node found => second id node (first id node found)

theorem extends_grow (parents : List Nat) (visible : List Identifier) : plan.Extends (plan.grow op parents visible) := by
  intro id node found
  have inside : id < plan.size := (List.getElem?_eq_some_iff.mp found).1
  rw [getElem?_grow, if_neg (Nat.ne_of_lt inside)]
  exact found

/-! Grounds. -/

theorem resolve_eq_ok {parent : Int} {id : Nat} : plan.resolve parent = .ok id ↔ parent = id ∧ id < plan.size := by
  unfold resolve
  split
  · simp only [reduceCtorEq, false_iff]
    omega
  · split
    · simp only [Except.ok.injEq]
      omega
    · simp only [reduceCtorEq, false_iff]
      omega

/-- Parents that are all found are the ones that were asked for. -/
theorem mapM_resolve {parents : List Int} {found : List Nat} (resolved : parents.mapM plan.resolve = .ok found) :
    parents = found.map (fun id : Nat => (id : Int)) ∧ ∀ id ∈ found, id < plan.size := by
  have each := mapM_eq_ok.mp resolved
  clear resolved
  induction each with
  | nil => simp
  | cons first _ step =>
    obtain ⟨rfl, inside⟩ := resolve_eq_ok.mp first
    simp only [List.map_cons, List.mem_cons, forall_eq_or_imp]
    exact ⟨congrArg _ step.1, inside, step.2⟩

/-- The parents that a node gets are the ones that were asked for, unless it has to be a root. -/
theorem resolveAll_eq_ok {parents : List Int} {found : List Nat} (resolved : plan.resolveAll parents = .ok found) :
    (∀ id ∈ found, id < plan.size) ∧
      (found = [] ∧ (plan.nodes = [] ∨ parents = [-1]) ∨ parents = found.map (fun id : Nat => (id : Int))) := by
  unfold resolveAll at resolved
  split at resolved
  · next root =>
    cases resolved
    exact ⟨by simp, .inl ⟨rfl, by simpa [isEmpty] using root⟩⟩
  · obtain ⟨same, inside⟩ := mapM_resolve resolved
    exact ⟨inside, .inr same⟩

theorem resolveAll_eq_error {parents : List Int} {refusal : Refusal} (failed : plan.resolveAll parents = .error refusal) :
    refusal = .negativeIndex ∨ refusal = .parentNotFound := by
  unfold resolveAll at failed
  split at failed
  · cases failed
  · obtain ⟨parent, _, fault⟩ := mapM_eq_error failed
    unfold resolve at fault
    split at fault
    · cases fault; exact .inl rfl
    · split at fault
      · cases fault
      · cases fault; exact .inr rfl

theorem ground_eq_ok {asked : List Int} {parents : List Nat} {visible : List Identifier} :
    plan.ground asked = .ok (parents, visible) ↔
      plan.resolveAll asked = .ok parents ∧ plan.visibleUnder parents = visible := by
  unfold ground
  cases plan.resolveAll asked with
  | error refusal => exact iff_of_false nofun nofun
  | ok found =>
    simp only [Except.map, Except.ok.injEq, Prod.mk.injEq]
    exact and_congr_right fun same => same ▸ Iff.rfl

theorem ground_eq_error {asked : List Int} {refusal : Refusal} :
    plan.ground asked = .error refusal ↔ plan.resolveAll asked = .error refusal := by
  unfold ground
  cases plan.resolveAll asked with
  | error fault => simp only [Except.map, Except.error.injEq]
  | ok found => exact iff_of_false nofun nofun

/-- A detached node stands nowhere, or in the scope of a node. -/
theorem groundRoot_eq_ok {scope : Int} {parents : List Nat} {visible : List Identifier} :
    plan.groundRoot scope = .ok (parents, visible) ↔ parents = [] ∧ (scope < 0 ∧ visible = [] ∨
      ∃ (id : Nat) (node : PlanNode), scope = id ∧ plan.nodes[id]? = some node ∧ visible = node.visible) := by
  unfold groundRoot
  by_cases outside : scope < 0
  · have unscoped (id : Nat) : scope ≠ id := by omega
    simp only [outside, if_true, true_and, unscoped, false_and, exists_false, or_false, Except.ok.injEq, Prod.mk.injEq]
    exact and_congr eq_comm eq_comm
  · obtain ⟨id, rfl⟩ := Int.eq_ofNat_of_zero_le (Int.not_lt.mp outside)
    simp only [outside, if_false, false_and, false_or, Int.toNat_natCast, Int.natCast_inj, exists_and_left, exists_eq_left']
    cases plan.nodes[id]? with
    | none => simp
    | some node => simp [eq_comm]

theorem mem_visibleUnder {first : Nat} {rest : List Nat} :
    tag ∈ plan.visibleUnder (first :: rest) ↔ ∀ parent ∈ first :: rest, tag ∈ plan.visibleAt parent := by
  have fold : ∀ (parents : List Nat) (seen : List Identifier),
      tag ∈ parents.foldl (fun seen parent => seen.filter (plan.visibleAt parent).contains) seen ↔
        tag ∈ seen ∧ ∀ parent ∈ parents, tag ∈ plan.visibleAt parent := by
    intro parents
    induction parents with
    | nil => simp
    | cons parent parents step =>
      intro seen
      simp [step, and_assoc]
  simp [visibleUnder, fold]

/-! Checks. -/

theorem mem_insertAll {tags visible : List Identifier} :
    tag ∈ tags.foldl (fun seen tag => seen.insert tag) visible ↔ tag ∈ visible ∨ tag ∈ tags := by
  induction tags generalizing visible with
  | nil => simp
  | cons first rest step =>
    simp only [List.foldl_cons, step, List.mem_insert_iff, List.mem_cons]
    grind

theorem checkTags_eq_ok {visible : List Identifier} :
    checkTags visible op = .ok () ↔ ∀ reference ∈ op.references, ∀ tag, reference.tag = some tag → tag ∈ visible := by
  unfold checkTags
  split
  · next passed => simpa [List.all_eq_true, Option.all_eq_true] using passed
  · next failed => simpa [List.all_eq_true, Option.all_eq_true] using failed

theorem checkTags_eq_error {visible : List Identifier} {refusal : Refusal} (failed : checkTags visible op = .error refusal) :
    refusal = .tagNotExist ∧ ∃ reference ∈ op.references, ∃ tag, reference.tag = some tag ∧ tag ∉ visible := by
  have refuted : ¬ checkTags visible op = .ok () := by simp [failed]
  rw [checkTags_eq_ok] at refuted
  unfold checkTags at failed
  split at failed
  · cases failed
  · cases failed
    exact ⟨rfl, by simpa using refuted⟩

theorem checkSchema_eq_error {refusal : Refusal} (failed : plan.checkSchema op = .error refusal) :
    refusal = .tableNotExist ∨ refusal = .columnNotExist := by
  unfold checkSchema checkAgainst at failed
  grind

end PlanGraph

end TraversalPlanner
