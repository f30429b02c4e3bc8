import TraversalPlanner.Proofs.GraphGrowth

/-! The tags that a node sees are those that every walk back from it comes across. Nodes keep the tags that
they see from the moment when they are appended; nothing that happens to the plan later makes the walks
disagree with them. -/

namespace TraversalPlanner

open Proofs

/-- A call that may let a plan grow. -/
inductive Growth where
  | append (op : NodeOp Int) (parents : List Int)
  | appendRoot (op : NodeOp Int) (scope : Int)

/-- A plan and the scope that each of its nodes was given, if it was given one. -/
structure Grown where
  plan : PlanGraph
  scopes : List (Option Nat)

namespace Grown

variable {grown : Grown} {id : Nat} {node : PlanNode} {tag : Identifier} {op : NodeOp Int} {parents : List Nat}
  {scope : Option Nat} {visible : List Identifier}

/-- A call that is refused changes nothing. -/
def settle (grown : Grown) (scope : Option Nat) : Except Refusal (Nat × PlanGraph) → Grown
  | .ok (_, plan) => { plan, scopes := grown.scopes ++ [scope] }
  | .error _ => grown

def step (grown : Grown) : Growth → Grown
  | .append op parents => grown.settle none (grown.plan.append op parents)
  | .appendRoot op scope => grown.settle scope.toNat? (grown.plan.appendRoot op scope)

def run (schema : Option Schema) (calls : List Growth) : Grown :=
  calls.foldl step { plan := .empty schema, scopes := [] }

/-- The parents of a node, and its scope. -/
def behind (grown : Grown) (id : Nat) : List Nat :=
  (grown.plan.nodes[id]?.map PlanNode.parents).getD [] ++ (grown.scopes[id]?.getD none).toList

/-- The nodes of a walk back that only ends where nothing is behind. -/
inductive Walk (grown : Grown) : Nat → List Nat → Prop
  | here {id : Nat} (start : grown.behind id = []) : Walk grown id [id]
  | back {id previous : Nat} {walked : List Nat} (step : previous ∈ grown.behind id) (walk : Walk grown previous walked) :
      Walk grown id (id :: walked)

def Binds (grown : Grown) (id : Nat) (tag : Identifier) : Prop :=
  ∃ node, grown.plan.nodes[id]? = some node ∧ tag ∈ node.op.bindings

/-- Every walk back comes across a node that binds the tag. -/
def Meets (grown : Grown) (id : Nat) (tag : Identifier) : Prop :=
  ∀ walked, grown.Walk id walked → ∃ passed ∈ walked, grown.Binds passed tag

/-- What all of the nodes that are behind see. -/
def SeenBehind (grown : Grown) (id : Nat) (tag : Identifier) : Prop :=
  grown.behind id ≠ [] ∧ ∀ previous ∈ grown.behind id, tag ∈ grown.plan.visibleAt previous

structure Sound (grown : Grown) : Prop where
  paired : grown.scopes.length = grown.plan.size
  earlier : ∀ id, ∀ previous ∈ grown.behind id, previous < id
  visible : ∀ id node, grown.plan.nodes[id]? = some node →
    ∀ tag, tag ∈ node.visible ↔ tag ∈ node.op.bindings ∨ grown.SeenBehind id tag
  referred : ∀ id node, grown.plan.nodes[id]? = some node →
    ∀ reference ∈ node.op.references, ∀ tag, reference.tag = some tag → grown.SeenBehind id tag

/-- The ground on which a node may come to stand: tags are visible there when all that is behind sees them. -/
structure Stands (plan : PlanGraph) (behind : List Nat) (visible : List Identifier) : Prop where
  inside : ∀ previous ∈ behind, previous < plan.size
  seen : ∀ tag, tag ∈ visible ↔ behind ≠ [] ∧ ∀ previous ∈ behind, tag ∈ plan.visibleAt previous

theorem stands_ground {plan : PlanGraph} {asked : List Int} (ground : plan.ground asked = .ok (parents, visible)) :
    Stands plan parents visible := by
  obtain ⟨resolved, rfl⟩ := PlanGraph.ground_eq_ok.mp ground
  refine ⟨(PlanGraph.resolveAll_eq_ok resolved).1, fun tag => ?_⟩
  cases parents with
  | nil => simp [PlanGraph.visibleUnder]
  | cons first rest => simp only [PlanGraph.mem_visibleUnder, ne_eq, reduceCtorEq, not_false_eq_true, true_and]

theorem stands_groundRoot {plan : PlanGraph} {asked : Int} (ground : plan.groundRoot asked = .ok (parents, visible)) :
    parents = [] ∧ Stands plan asked.toNat?.toList visible := by
  obtain ⟨rfl, ⟨outside, rfl⟩ | ⟨scope, node, rfl, found, rfl⟩⟩ := PlanGraph.groundRoot_eq_ok.mp ground
  · obtain ⟨_, rfl⟩ := Int.eq_negSucc_of_lt_zero outside
    exact ⟨rfl, by simp [Int.toNat?], by simp [Int.toNat?]⟩
  · have known : scope < plan.size := (List.getElem?_eq_some_iff.mp found).1
    exact ⟨rfl, by simpa [Int.toNat?] using known, by simp [Int.toNat?, PlanGraph.visibleAt, found]⟩

/-- The history of the plan with one more node. -/
def grow (grown : Grown) (op : NodeOp Int) (parents : List Nat) (scope : Option Nat) (visible : List Identifier) : Grown :=
  { plan := grown.plan.grow op parents visible, scopes := grown.scopes ++ [scope] }

/-- A call changes nothing, or one node more stands on its ground and refers to nothing else. -/
theorem step_cases (grown : Grown) (call : Growth) :
    grown.step call = grown ∨ ∃ op parents scope visible, Stands grown.plan (parents ++ scope.toList) visible ∧
      PlanGraph.checkTags visible op = .ok () ∧ grown.step call = grown.grow op parents scope visible := by
  cases call with
  | append op asked =>
    have appends : grown.plan.Appends op _ _ := PlanGraph.append_appends asked
    have settled : grown.step (.append op asked) = grown.settle none (grown.plan.append op asked) := rfl
    rw [settled]
    generalize grown.plan.append op asked = result at appends
    cases appends with
    | grown _ ground _ seen => exact .inr ⟨op, _, none, _, by simpa using stands_ground ground, seen, rfl⟩
    | _ => exact .inl rfl
  | appendRoot op asked =>
    have appends : grown.plan.Appends op _ _ := PlanGraph.appendRoot_appends asked
    have settled : grown.step (.appendRoot op asked) = grown.settle asked.toNat? (grown.plan.appendRoot op asked) := rfl
    rw [settled]
    generalize grown.plan.appendRoot op asked = result at appends
    cases appends with
    | grown _ ground _ seen =>
      obtain ⟨rfl, stands⟩ := stands_groundRoot ground
      exact .inr ⟨op, [], _, _, stands, seen, rfl⟩
    | _ => exact .inl rfl

theorem behind_grow (paired : grown.scopes.length = grown.plan.size) (id : Nat) :
    (grown.grow op parents scope visible).behind id =
      if id = grown.plan.size then parents ++ scope.toList else grown.behind id := by
  unfold behind grow
  rw [PlanGraph.getElem?_grow, List.getElem?_append, List.getElem?_singleton, paired]
  by_cases new : id = grown.plan.size
  · simp [new]
  · by_cases old : id < grown.plan.size
    · rw [if_neg new, if_pos old, if_neg new]
    · have beyond : grown.scopes[id]? = none := List.getElem?_eq_none (by omega)
      rw [if_neg new, if_neg old, if_neg (by omega), if_neg new, beyond]

/-- Old nodes have nothing behind them but old nodes, and those see what they saw. -/
theorem seenBehind_grow (sound : grown.Sound) (old : id < grown.plan.size) :
    (grown.grow op parents scope visible).SeenBehind id tag ↔ grown.SeenBehind id tag := by
  have same : (grown.grow op parents scope visible).behind id = grown.behind id := by
    rw [behind_grow sound.paired, if_neg (Nat.ne_of_lt old)]
  unfold SeenBehind
  rw [same]
  refine and_congr_right fun _ => forall₂_congr fun previous member => ?_
  have earlier := sound.earlier id previous member
  have kept : (grown.grow op parents scope visible).plan.visibleAt previous = grown.plan.visibleAt previous := by
    simp only [PlanGraph.visibleAt, grow]
    rw [PlanGraph.getElem?_grow, if_neg (by omega)]
  rw [kept]

theorem seenBehind_new (paired : grown.scopes.length = grown.plan.size)
    (stands : Stands grown.plan (parents ++ scope.toList) visible) :
    (grown.grow op parents scope visible).SeenBehind grown.plan.size tag ↔ tag ∈ visible := by
  unfold SeenBehind
  rw [behind_grow paired, if_pos rfl, stands.seen]
  refine and_congr_right fun _ => forall₂_congr fun previous member => ?_
  have earlier := stands.inside previous member
  simp only [PlanGraph.visibleAt, grow]
  rw [PlanGraph.getElem?_grow, if_neg (by omega)]

theorem sound_grow (sound : grown.Sound) (stands : Stands grown.plan (parents ++ scope.toList) visible)
    (seen : PlanGraph.checkTags visible op = .ok ()) : (grown.grow op parents scope visible).Sound where
  paired := by simp [grow, sound.paired]
  earlier := by
    intro id previous member
    rw [behind_grow sound.paired] at member
    split at member
    · next new => exact new ▸ stands.inside previous member
    · exact sound.earlier id previous member
  visible := by
    intro id node found tag
    simp only [grow] at found
    rw [PlanGraph.getElem?_grow] at found
    split at found
    · next new =>
      cases found
      subst new
      rw [PlanGraph.mem_insertAll, seenBehind_new sound.paired stands, or_comm]
    · rw [seenBehind_grow sound (List.getElem?_eq_some_iff.mp found).1]
      exact sound.visible id node found tag
  referred := by
    intro id node found reference member tag named
    simp only [grow] at found
    rw [PlanGraph.getElem?_grow] at found
    split at found
    · next new =>
      cases found
      subst new
      rw [seenBehind_new sound.paired stands]
      exact PlanGraph.checkTags_eq_ok.mp seen reference member tag named
    · rw [seenBehind_grow sound (List.getElem?_eq_some_iff.mp found).1]
      exact sound.referred id node found reference member tag named

theorem sound_step (sound : grown.Sound) (call : Growth) : (grown.step call).Sound := by
  rcases grown.step_cases call with same | ⟨op, parents, scope, visible, stands, seen, step⟩
  · rwa [same]
  · rw [step]
    exact sound_grow sound stands seen

theorem sound_run (schema : Option Schema) (calls : List Growth) : (run schema calls).Sound := by
  have start : Sound { plan := .empty schema, scopes := [] } :=
    ⟨rfl, by simp [behind, PlanGraph.empty], by simp [PlanGraph.empty], by simp [PlanGraph.empty]⟩
  unfold run
  generalize ({ plan := .empty schema, scopes := [] } : Grown) = grown at start
  induction calls generalizing grown with
  | nil => exact start
  | cons call calls step => exact step _ (sound_step start call)

/-- One step of all walks at once. -/
theorem meets_iff (grown : Grown) (id : Nat) (tag : Identifier) :
    grown.Meets id tag ↔
      grown.Binds id tag ∨ grown.behind id ≠ [] ∧ ∀ previous ∈ grown.behind id, grown.Meets previous tag := by
  constructor
  · intro meets
    by_cases bound : grown.Binds id tag
    · exact .inl bound
    · refine .inr ⟨fun start => ?_, fun previous member walked walk => ?_⟩
      · obtain ⟨passed, here, binds⟩ := meets [id] (.here start)
        cases List.mem_singleton.mp here
        exact bound binds
      · obtain ⟨passed, here, binds⟩ := meets (id :: walked) (.back member walk)
        rcases List.mem_cons.mp here with rfl | later
        · exact absurd binds bound
        · exact ⟨passed, later, binds⟩
  · rintro (bound | ⟨some, all⟩) walked walk
    · cases walk with
      | here => exact ⟨id, List.mem_cons_self, bound⟩
      | back => exact ⟨id, List.mem_cons_self, bound⟩
    · cases walk with
      | here start => exact absurd start some
      | back member walk =>
        obtain ⟨passed, later, binds⟩ := all _ member _ walk
        exact ⟨passed, List.mem_cons_of_mem _ later, binds⟩

theorem binds_iff (found : grown.plan.nodes[id]? = some node) : grown.Binds id tag ↔ tag ∈ node.op.bindings := by
  simp [Binds, found]

theorem Sound.node_behind (sound : grown.Sound) (found : grown.plan.nodes[id]? = some node) {previous : Nat}
    (member : previous ∈ grown.behind id) : ∃ node, grown.plan.nodes[previous]? = some node := by
  have earlier := sound.earlier id previous member
  have inside := (List.getElem?_eq_some_iff.mp found).1
  exact ⟨_, List.getElem?_eq_getElem (Nat.lt_trans earlier inside)⟩

theorem Sound.meets (sound : grown.Sound) (found : grown.plan.nodes[id]? = some node) :
    grown.Meets id tag ↔ tag ∈ node.visible := by
  induction id using Nat.strongRecOn generalizing node with
  | _ id step =>
    rw [meets_iff, binds_iff found, sound.visible id node found, SeenBehind]
    refine or_congr_right (and_congr_right fun _ => forall₂_congr fun previous member => ?_)
    obtain ⟨_, there⟩ := sound.node_behind found member
    rw [step previous (sound.earlier id previous member) there, PlanGraph.visibleAt, there]
    rfl

theorem Sound.meets_behind (sound : grown.Sound) (found : grown.plan.nodes[id]? = some node)
    (seen : grown.SeenBehind id tag) :
    grown.behind id ≠ [] ∧ ∀ previous ∈ grown.behind id, grown.Meets previous tag := by
  refine ⟨seen.1, fun previous member => ?_⟩
  obtain ⟨_, there⟩ := sound.node_behind found member
  have visible := seen.2 previous member
  rw [PlanGraph.visibleAt, there] at visible
  exact (sound.meets there).mpr visible

/-- However a plan has grown, a node sees the tags that all walks back from it meet, and refers only to tags
that they meet before they come to it. -/
theorem visible_iff_met (schema : Option Schema) (calls : List Growth) (id : Nat) (node : PlanNode)
    (found : (run schema calls).plan.nodes[id]? = some node) :
    (∀ tag, tag ∈ node.visible ↔ (run schema calls).Meets id tag) ∧
      ∀ reference ∈ node.op.references, ∀ tag, reference.tag = some tag →
        (run schema calls).behind id ≠ [] ∧
          ∀ previous ∈ (run schema calls).behind id, (run schema calls).Meets previous tag := by
  have sound := sound_run schema calls
  exact ⟨fun tag => (sound.meets found).symm, fun reference member tag named =>
    sound.meets_behind found (sound.referred id node found reference member tag named)⟩

/-- Two nodes under a first one, a union of them, and a detached root in the scope of the union. Only the
tag that both inputs of the union see may be referred to there. -/
def divided : List Growth :=
  let read : TableRead := { tables := [], columns := [], limit := none, predicate := none }
  [.append (.scan .vertex (some (.name "a")) read none) [],
    .append (.vertex .start (some (.name "b"))) [0],
    .append (.vertex .finish (some (.name "c"))) [0],
    .append (.union [1, 2]) [1, 2],
    .appendRoot (.dedup [.ofTag (.name "b")]) 3,
    .appendRoot (.dedup [.ofTag (.name "a")]) 3]

def detached : PlanNode := { op := .dedup [.ofTag (.name "a")], parents := [], visible := [.name "a"] }

theorem detached_visible_iff_met :
    (run none divided).plan.nodes[4]? = some detached ∧
      (∀ tag, tag ∈ detached.visible ↔ (run none divided).Meets 4 tag) ∧
      ∀ reference ∈ detached.op.references, ∀ tag, reference.tag = some tag →
        (run none divided).behind 4 ≠ [] ∧
          ∀ previous ∈ (run none divided).behind 4, (run none divided).Meets previous tag :=
  ⟨rfl, visible_iff_met none divided 4 detached rfl⟩

end Grown

end TraversalPlanner
