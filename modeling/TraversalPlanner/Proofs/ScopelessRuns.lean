import TraversalPlanner.Proofs.NodeCounts
import TraversalPlanner.Proofs.Refusals
import TraversalPlanner.Proofs.SchemaFilter
import TraversalPlanner.Proofs.TwinRuns

/-! Accumulators that know no scopes. To them a node without a parent sees no tags at all, wherever it comes from, so
the plan that they assemble is the same except that its nodes see less. A run on such an accumulator is followed beside
one that knows scopes: it misses a tag, or both come to the same. -/

namespace TraversalPlanner

open Proofs

namespace PlanGraph

variable {plan other : PlanGraph} {op : NodeOp Int} {inputs : List Int} {scope : Int}

/-- The same plan, but for nodes that may see fewer tags. -/
structure Dimmer (plan other : PlanGraph) : Prop where
  schema : plan.schema = other.schema
  released : plan.released = other.released
  binders : plan.binders = other.binders
  nodes : List.Forall₂ (fun node twin : PlanNode =>
    node.op = twin.op ∧ node.parents = twin.parents ∧ node.visible ⊆ twin.visible) plan.nodes other.nodes

namespace Dimmer

theorem refl (plan : PlanGraph) : plan.Dimmer plan :=
  ⟨rfl, rfl, rfl, List.forall₂_same.mpr fun _ _ => ⟨rfl, rfl, List.Subset.refl _⟩⟩

theorem size (dimmer : plan.Dimmer other) : plan.size = other.size := dimmer.nodes.length_eq

theorem visibleAt (dimmer : plan.Dimmer other) (id : Nat) : plan.visibleAt id ⊆ other.visibleAt id := by
  unfold PlanGraph.visibleAt
  cases found : plan.nodes[id]? with
  | none => exact List.nil_subset _
  | some node =>
    obtain ⟨twin, there, _, _, less⟩ := related_at dimmer.nodes.flip found
    rw [there]
    exact less

theorem visibleUnder (dimmer : plan.Dimmer other) (parents : List Nat) :
    plan.visibleUnder parents ⊆ other.visibleUnder parents := by
  cases parents with
  | nil => exact List.nil_subset _
  | cons first rest =>
    intro tag seen
    rw [mem_visibleUnder] at seen ⊢
    exact fun parent member => dimmer.visibleAt parent (seen parent member)

theorem resolveAll (dimmer : plan.Dimmer other) (inputs : List Int) : plan.resolveAll inputs = other.resolveAll inputs := by
  have each (input : Int) : plan.resolve input = other.resolve input := by
    rw [resolve, resolve, dimmer.size]
  have empty : plan.isEmpty = other.isEmpty := by
    rw [Bool.eq_iff_iff, isEmpty, isEmpty, List.isEmpty_iff_length_eq_zero, List.isEmpty_iff_length_eq_zero,
      dimmer.nodes.length_eq]
  rw [PlanGraph.resolveAll, PlanGraph.resolveAll, empty, mapM_congr fun input _ => each input]

theorem grow (dimmer : plan.Dimmer other) {visible wider : List Identifier} (less : visible ⊆ wider) (parents : List Nat) :
    (plan.grow op parents visible).Dimmer (other.grow op parents wider) where
  schema := dimmer.schema
  released := dimmer.released
  binders := by
    simp only [PlanGraph.grow, bindTags, dimmer.binders, dimmer.size]
  nodes := by
    refine List.rel_append dimmer.nodes (.cons ⟨rfl, rfl, fun tag seen => ?_⟩ .nil)
    rw [mem_insertAll] at seen ⊢
    exact seen.imp_left fun seen => less seen

/-- A node stands on the same ground and sees less of it. -/
theorem footing (dimmer : plan.Dimmer other) (knows : other.Knows scope) (inputs : List Int) :
    Alike (fun ground twin => ground.1 = twin.1 ∧ ground.2 ⊆ twin.2) (plan.footing inputs (-1))
      (other.footing inputs scope) := by
  unfold PlanGraph.footing
  split
  · rcases knows with rfl | ⟨id, rfl, inside⟩
    · exact .ok ⟨rfl, List.Subset.refl _⟩
    · have found : other.nodes[id]? = some other.nodes[id] := List.getElem?_eq_getElem inside
      unfold groundRoot
      rw [if_neg (Int.not_lt.mpr (Int.natCast_nonneg id)), Int.toNat_natCast, found]
      exact .ok ⟨rfl, List.nil_subset _⟩
  · unfold ground
    rw [dimmer.resolveAll]
    exact (Alike.of_eq fun _ _ => rfl).map fun found twin same => ⟨same, same ▸ dimmer.visibleUnder found⟩

/-- What misses no tag is inserted in either plan. -/
theorem insert (dimmer : plan.Dimmer other) {visible wider : List Identifier} (less : visible ⊆ wider) (parents : List Nat) :
    plan.insert op parents visible = .error .tagNotExist ∨
      Alike (fun grown twin => grown.1 = twin.1 ∧ grown.2.Dimmer twin.2) (plan.insert op parents visible)
        (other.insert op parents wider) := by
  have same : plan.checkSchema op = other.checkSchema op := by
    rw [checkSchema, checkSchema, dimmer.schema]
  unfold PlanGraph.insert
  rw [← same]
  cases plan.checkSchema op with
  | error refusal => exact .inr (.error refusal)
  | ok _ =>
    cases seen : checkTags visible op with
    | error refusal =>
      rw [(checkTags_eq_error seen).1]
      exact .inl rfl
    | ok _ =>
      have passes : checkTags wider op = .ok () :=
        checkTags_eq_ok.mpr fun reference member tag tagged => less (checkTags_eq_ok.mp seen reference member tag tagged)
      rw [passes]
      exact .inr (.ok ⟨dimmer.size, dimmer.grow less parents⟩)

theorem enter (dimmer : plan.Dimmer other) (knows : other.Knows scope) (inputs : List Int) :
    plan.enter op inputs (-1) = .error .tagNotExist ∨
      Alike (fun grown twin => grown.1 = twin.1 ∧ grown.2.Dimmer twin.2) (plan.enter op inputs (-1))
        (other.enter op inputs scope) := by
  cases kept : plan.released with
  | true =>
    rw [enter_released kept, enter_released (dimmer.released ▸ kept)]
    exact .inr (.error Refusal.planReleased)
  | false =>
    rw [enter_eq kept, enter_eq (dimmer.released ▸ kept)]
    have grounds := dimmer.footing knows inputs
    generalize plan.footing inputs (-1) = ground at grounds ⊢
    generalize other.footing inputs scope = twin at grounds ⊢
    cases grounds with
    | error refusal => exact .inr (.error refusal)
    | @ok ground twin holds =>
      obtain ⟨parents, visible⟩ := ground
      obtain ⟨rfl, less⟩ := holds
      exact dimmer.insert less twin.1

theorem bindBehind (dimmer : plan.Dimmer other) (own : Nat) (trailing : Option Identifier) :
    (plan.bindBehind own trailing).1 = (other.bindBehind own trailing).1 ∧
      (plan.bindBehind own trailing).2.Dimmer (other.bindBehind own trailing).2 := by
  cases trailing with
  | none => exact ⟨rfl, dimmer⟩
  | some tag => exact ⟨dimmer.size, dimmer.grow (dimmer.visibleAt own) [own]⟩

/-- What does not tell of tags tells the same of both plans. -/
theorem outlines (dimmer : plan.Dimmer other) :
    plan.nodes.map (fun node => (node.op, node.parents)) = other.nodes.map fun node => (node.op, node.parents) := by
  rw [← List.forall₂_eq_eq_eq, List.forall₂_map_left_iff, List.forall₂_map_right_iff]
  exact dimmer.nodes.imp fun _ _ same => Prod.ext same.1 same.2.1

theorem children (dimmer : plan.Dimmer other) (id : Int) : plan.children id = other.children id := by
  have outlined (plan : PlanGraph) : plan.children id =
      (plan.nodes.map fun node => (node.op, node.parents)).zipIdx.flatMap fun (outline, child) =>
        List.replicate (outline.2.countP fun parent : Nat => (parent : Int) = id) child := by
    rw [List.zipIdx_map, List.flatMap_map]
    rfl
  rw [outlined, outlined, dimmer.outlines]

theorem toJson (dimmer : plan.Dimmer other) : plan.toJson = other.toJson := by
  have outlined (plan : PlanGraph) : plan.toJson = .object [("nodes", .array
      ((plan.nodes.map fun node => (node.op, node.parents)).zipIdx.map fun (outline, id) =>
        .object [("id", .whole id), ("opr", outline.1.toJson Json.whole),
          ("children", .ofList (fun child : Nat => Json.whole child) (plan.children id))]))] := by
    rw [List.zipIdx_map, List.map_map]
    rfl
  rw [outlined, outlined, dimmer.outlines, funext dimmer.children]

end Dimmer

theorem knows_of_newest {last : Int} (newest : (plan.size : Int) = last + 1) : plan.Knows last := by
  cases size : plan.size with
  | zero => exact .inl (by omega)
  | succ id => exact .inr ⟨id, by omega, by omega⟩

/-- A root that sees nothing may as well be appended under no parent. -/
theorem append_detached (op : NodeOp Int) : plan.append op [-1] = plan.appendRoot op (-1) := by
  unfold append appendRoot resolveAll
  cases plan.released with
  | true => rfl
  | false => simp [visibleUnder]; rfl

end PlanGraph

namespace Assembly

open Assembling

variable {parent scope : Int} {operator : Operator} {links : Links} {before beside : Assembly PlanGraph}

/-- Without scopes each root sees nothing. -/
theorem placeLinked_withoutScopes : placeLinked PlanGraph.accumulator.withoutScopes parent scope operator links =
    placeLinked PlanGraph.accumulator parent (-1) operator links := by
  have same : PlanGraph.accumulator.withoutScopes =
      { PlanGraph.accumulator with appendRoot := fun op _ plan => plan.answer (plan.appendRoot op (-1)) } := by
    unfold Accumulator.withoutScopes
    simp only [PlanGraph.accumulator, PlanGraph.append_detached]
  rw [same]
  rfl

structure Dimmer (after later : Assembly PlanGraph) : Prop where
  store : after.store.Dimmer later.store
  state : after.state = later.state

/-- The ends of two runs: the first misses a tag, or they come to the same with nodes that may see less in the first. -/
inductive Undercut {α : Type} : Except Error α × Assembly PlanGraph → Except Error α × Assembly PlanGraph → Prop
  | unseen {kind : OperatorKind} {after : Assembly PlanGraph} {other : Except Error α × Assembly PlanGraph} :
      Undercut (.error (.appendFailed kind .tagNotExist), after) other
  | failed (error : Error) (after later : Assembly PlanGraph) : Undercut (.error error, after) (.error error, later)
  | same (value : α) {after later : Assembly PlanGraph} (dimmer : after.Dimmer later) :
      Undercut (.ok value, after) (.ok value, later)

theorem Undercut.bind {α β : Type} {program twin : Assembling PlanGraph β} {next follow : β → Assembling PlanGraph α}
    (first : Undercut (program.run before) (twin.run beside))
    (rest : ∀ value after later, twin.run beside = (.ok value, later) → after.Dimmer later →
      Undercut ((next value).run after) ((follow value).run later)) :
    Undercut ((program >>= next).run before) ((twin >>= follow).run beside) := by
  rw [run_bind, run_bind]
  generalize program.run before = ended at first ⊢
  generalize twin.run beside = finished at first rest ⊢
  cases first with
  | unseen => exact .unseen
  | failed error after later => exact .failed error after later
  | same value dimmer => exact rest value _ _ rfl dimmer

theorem settle_undercut (dimmer : before.Dimmer beside) {result other : Except Refusal (Nat × PlanGraph)}
    (ends : result = .error .tagNotExist ∨ Alike (fun grown twin => grown.1 = twin.1 ∧ grown.2.Dimmer twin.2) result other) :
    Undercut (before.settle operator result) (beside.settle operator other) := by
  rcases ends with rfl | alike
  · exact .unseen
  · cases alike with
    | error refusal => exact .failed _ before beside
    | @ok grown twin holds =>
      obtain ⟨own, plan⟩ := grown
      obtain ⟨rfl, dims⟩ := holds
      obtain ⟨last, behind⟩ := dims.bindBehind twin.1 operator.trailing
      simp only [settle, last]
      exact .same _ ⟨behind, congrArg Lifecycle.begun dimmer.state⟩

theorem placeLinked_undercut (dimmer : before.Dimmer beside) (knows : beside.store.Knows scope) :
    Undercut ((placeLinked PlanGraph.accumulator.withoutScopes parent scope operator links).run before)
      ((placeLinked PlanGraph.accumulator parent scope operator links).run beside) := by
  rw [placeLinked_withoutScopes, run_placeLinked, run_placeLinked]
  cases operator.toNode links with
  | error error => exact .failed error before beside
  | ok op => exact settle_undercut dimmer (dimmer.store.enter knows (op.inputs parent))

private theorem checked_undercut {α : Type} {next follow : Assembling PlanGraph α} (dimmer : before.Dimmer beside)
    (rest : Undercut (next.run before) (follow.run beside)) :
    Undercut ((do
      checkOpen
      operator.checkBranching
      next).run before) ((do
      checkOpen
      operator.checkBranching
      follow).run beside) := by
  obtain ⟨store, state⟩ := before
  obtain ⟨twin, _⟩ := beside
  cases dimmer.state
  by_cases closed : state = .closed
  · subst closed
    exact .failed .useAfterClose _ _
  · rw [run_bind, run_bind, run_checkOpen closed, run_checkOpen closed]
    cases operator.checkBranching with
    | error error => exact .failed error _ _
    | ok _ => exact rest

private theorem undercuts :
    (∀ parent scope operator {before beside : Assembly PlanGraph}, before.Dimmer beside → beside.store.Knows parent →
      beside.store.Knows scope → Undercut ((place PlanGraph.accumulator.withoutScopes parent scope operator).run before)
        ((place PlanGraph.accumulator parent scope operator).run beside)) ∧
    (∀ parent scope branches {before beside : Assembly PlanGraph}, before.Dimmer beside → beside.store.Knows parent →
      beside.store.Knows scope →
      Undercut ((placeBranches PlanGraph.accumulator.withoutScopes parent scope branches).run before)
        ((placeBranches PlanGraph.accumulator parent scope branches).run beside)) ∧
    ∀ first parent scope operators {before beside : Assembly PlanGraph}, before.Dimmer beside →
      beside.store.Knows parent → beside.store.Knows scope →
      Undercut ((placeFrom PlanGraph.accumulator.withoutScopes first parent scope operators).run before)
        ((placeFrom PlanGraph.accumulator first parent scope operators).run beside) := by
  refine place.mutual_induct _ _ _ ?_ ?_ ?_ ?_ ?_ ?_ ?_
  · intro parent scope sub subRoot join tag inner before beside dimmer knows knowsScope
    rw [place.eq_1, place.eq_1]
    have inside : beside.store.Knows (if 0 ≤ parent then parent else scope) := by
      split
      · exact knows
      · exact knowsScope
    refine checked_undercut dimmer ((inner dimmer (.inl rfl) inside).bind fun _ _ later ran dimmer => ?_)
    exact placeLinked_undercut dimmer (knowsScope.mono (placeFrom_houses.answer ran).size_le)
  · intro parent scope branches parents tag inner before beside dimmer knows knowsScope
    rw [place.eq_2, place.eq_2]
    refine checked_undercut dimmer ((inner dimmer knows knowsScope).bind fun _ _ later ran dimmer => ?_)
    exact placeLinked_undercut dimmer (knowsScope.mono (placeBranches_houses.answer ran).size_le)
  · intro parent scope operator noApply noUnion before beside dimmer _ knowsScope
    rw [place.eq_3 _ _ _ _ noApply noUnion, place.eq_3 _ _ _ _ noApply noUnion]
    exact checked_undercut dimmer (placeLinked_undercut dimmer knowsScope)
  · intro first parent scope before beside dimmer _ _
    exact .same _ dimmer
  · intro first parent scope operator rest here later before beside dimmer knows knowsScope
    rw [placeFrom.eq_2, placeFrom.eq_2]
    refine (here dimmer knows knowsScope).bind fun placed _ middle ran dimmer => ?_
    have known : middle.store.Knows placed.2 := PlanGraph.knows_of_newest (place_newest.answer ran)
    exact later placed.1 placed.2 dimmer known (knowsScope.mono (place_houses.answer ran).size_le)
  · intro parent scope before beside dimmer _ _
    exact .same _ dimmer
  · intro parent scope branch rest here later before beside dimmer knows knowsScope
    rw [placeBranches.eq_2, placeBranches.eq_2]
    refine (here dimmer knows knowsScope).bind fun _ _ middle ran dimmer => ?_
    have grown := (placeFrom_houses.answer ran).size_le
    exact (later dimmer (knows.mono grown) (knowsScope.mono grown)).bind fun _ _ _ _ dimmer => .same _ dimmer

/-- A plan that is assembled without scopes is assembled with them too, and is the same but for nodes that may see less.
Where it cannot be assembled without scopes, it cannot be with them for the same reason, or a tag is not seen. -/
theorem scopeless_runs (schema : Option Schema) (operators : List Operator) :
    let scopeless := (appendAll PlanGraph.accumulator.withoutScopes (-1) operators).run (start (.empty schema))
    let full := (appendAll PlanGraph.accumulator (-1) operators).run (start (.empty schema))
    (∀ placed after, scopeless = (.ok placed, after) →
      ∃ later, full = (.ok placed, later) ∧ after.store.Dimmer later.store ∧ after.store.toJson = later.store.toJson) ∧
    ∀ error after, scopeless = (.error error, after) →
      full.1 = .error error ∨ ∃ kind, error = .appendFailed kind .tagNotExist := by
  intro scopeless full
  have ends : Undercut scopeless full := undercuts.2.2 none (-1) (-1) operators ⟨.refl _, rfl⟩ (.inl rfl) (.inl rfl)
  generalize scopeless = ended at ends ⊢
  generalize full = finished at ends ⊢
  constructor
  · rintro placed after rfl
    cases ends with
    | same _ dimmer => exact ⟨_, rfl, dimmer.store, dimmer.store.toJson⟩
  · rintro error after rfl
    cases ends with
    | unseen => exact .inr ⟨_, rfl⟩
    | failed _ _ later => exact .inl rfl

/-- Keeps the vertices that have an outgoing edge, and looks at where it has come from to see that. -/
def lookingBack : Traversal :=
  ((Traversal.vertices []).named "a").add (.whereTraversal ((Traversal.out [] []).add (.dedup ["a"])))

theorem lookingBack_scopeless :
    (∃ operators placed after later, Compiler.departing.build = .ok operators ∧
      (appendAll PlanGraph.accumulator.withoutScopes (-1) operators).run (start (.empty none)) = (.ok placed, after) ∧
      (appendAll PlanGraph.accumulator (-1) operators).run (start (.empty none)) = (.ok placed, later) ∧
      after.store.Dimmer later.store) ∧
    ∃ operators kind after, lookingBack.build = .ok operators ∧
      (appendAll PlanGraph.accumulator.withoutScopes (-1) operators).run (start (.empty none)) =
        (.error (.appendFailed kind .tagNotExist), after) ∧
      ((appendAll PlanGraph.accumulator (-1) operators).run (start (.empty none))).1.isOk = true := by
  constructor
  · have passes : (Compiler.departing.build.bind fun operators =>
        ((appendAll PlanGraph.accumulator.withoutScopes (-1) operators).run (start (.empty none))).1).isOk = true := by
      decide +kernel
    cases built : Compiler.departing.build with
    | error error =>
      rw [built] at passes
      cases passes
    | ok operators =>
      rw [built] at passes
      obtain ⟨placed, after, ran⟩ := ran_of_isOk passes
      obtain ⟨later, twin, dimmer, _⟩ := (scopeless_runs none operators).1 placed after ran
      exact ⟨operators, placed, after, later, rfl, ran, twin, dimmer⟩
  · have differ : (lookingBack.build.map fun operators =>
        (((appendAll PlanGraph.accumulator.withoutScopes (-1) operators).run (start (.empty none))).1.isOk,
          ((appendAll PlanGraph.accumulator (-1) operators).run (start (.empty none))).1.isOk)).toOption =
        some (false, true) := by
      decide +kernel
    cases built : lookingBack.build with
    | error error =>
      rw [built] at differ
      cases differ
    | ok operators =>
      rw [built] at differ
      obtain ⟨failed, passes⟩ := Prod.mk.inj (Option.some.inj differ)
      cases ran : (appendAll PlanGraph.accumulator.withoutScopes (-1) operators).run (start (.empty none)) with
      | mk outcome after =>
        rw [ran] at failed
        cases outcome with
        | ok placed => cases failed
        | error error =>
          rcases (scopeless_runs none operators).2 error after ran with same | ⟨kind, rfl⟩
          · rw [same] at passes
            cases passes
          · exact ⟨operators, kind, after, rfl, ran, passes⟩

end Assembly

end TraversalPlanner
