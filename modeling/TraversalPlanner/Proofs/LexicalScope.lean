import Mathlib.Data.Finset.Option
import Mathlib.Data.Finset.Lattice.Basic
import TraversalPlanner.Proofs.AssemblyLogic

/-! Tags are scoped lexically. A check that only looks at operators, and never at a plan, threads a set of
tags through them; assembling the operators agrees with it. What relates the two is that the place where
operators are put sees exactly the tags that the check has in scope. -/

namespace TraversalPlanner

open Proofs

/-- The tags that all of the branches leave in scope. -/
def meet : List (Finset Identifier) → Finset Identifier
  | [] => ∅
  | first :: rest => rest.foldl (· ∩ ·) first

theorem mem_meet {tag : Identifier} {first : Finset Identifier} {rest : List (Finset Identifier)} :
    tag ∈ meet (first :: rest) ↔ ∀ tags ∈ first :: rest, tag ∈ tags := by
  simp only [meet]
  induction rest generalizing first with
  | nil => simp
  | cons second rest step =>
    rw [List.foldl_cons, step]
    simp [and_assoc]

namespace NodeOp

/-- The tags that a node refers to. -/
def demands (op : NodeOp Int) : Finset Identifier := (op.references.filterMap Variable.tag).toFinset

theorem checkTags_iff_demands {op : NodeOp Int} {visible : List Identifier} {tags : Finset Identifier}
    (same : ∀ tag, tag ∈ visible ↔ tag ∈ tags) : PlanGraph.checkTags visible op = .ok () ↔ op.demands ⊆ tags := by
  rw [PlanGraph.checkTags_eq_ok]
  simp only [demands, Finset.subset_iff, List.mem_toFinset, List.mem_filterMap, forall_exists_index, and_imp, ← same]
  exact ⟨fun seen tag reference member named => seen reference member tag named,
    fun seen reference member tag named => seen reference member named⟩

end NodeOp

namespace Operator

def ownTags (operator : Operator) : Finset Identifier := (operator.tag.map Alias.name).toFinset

/-- The tags in scope behind an operator that holds no others. One that cannot be lowered refers to none and
binds none but its alias. -/
def bareScope? (tags : Finset Identifier) (operator : Operator) : Option (Finset Identifier) :=
  match operator.toNode operator.links with
  | .ok op => if op.demands ⊆ tags then some (tags ∪ op.bindings.toFinset ∪ operator.ownTags) else none
  | .error _ => some (tags ∪ operator.ownTags)

mutual
/-- The tags in scope behind an operator, unless one is referred to that is not in scope where it is. -/
def scope? (tags : Finset Identifier) : Operator → Option (Finset Identifier)
  | ⟨.apply (some sub) _ _, _⟩ => (scopeAll? tags sub).map fun _ => tags
  | ⟨.union (some branches) _, tag⟩ =>
    (scopeBranches? tags branches).map fun ends => meet ends ∪ (tag.map Alias.name).toFinset
  | operator => operator.bareScope? tags
termination_by structural operator => operator

def scopeAll? (tags : Finset Identifier) : List Operator → Option (Finset Identifier)
  | [] => some tags
  | operator :: rest => (operator.scope? tags).bind fun tags => scopeAll? tags rest
termination_by structural operators => operators

/-- What each branch leaves in scope. All of them begin with the same tags. -/
def scopeBranches? (tags : Finset Identifier) : List (List Operator) → Option (List (Finset Identifier))
  | [] => some []
  | branch :: rest => (scopeAll? tags branch).bind fun last => (scopeBranches? tags rest).map (last :: ·)
termination_by structural branches => branches
end

end Operator

namespace PlanGraph

variable {plan after : PlanGraph} {parent scope : Int} {tags : Finset Identifier} {op : NodeOp Int}

/-- Operators that are put under a parent, or at the head of a plan inside a scope, see these tags. -/
inductive Sees (plan : PlanGraph) : Int → Int → Finset Identifier → Prop
  | under {parent : Nat} {scope : Int} {node tags} (found : plan.nodes[parent]? = some node)
      (same : ∀ tag, tag ∈ node.visible ↔ tag ∈ tags) : Sees plan parent scope tags
  | inside {scope : Nat} {node tags} (found : plan.nodes[scope]? = some node)
      (same : ∀ tag, tag ∈ node.visible ↔ tag ∈ tags) : Sees plan (-1) scope tags
  | outside : Sees plan (-1) (-1) ∅

theorem Sees.mono (sees : plan.Sees parent scope tags) (grown : plan.Extends after) : after.Sees parent scope tags := by
  cases sees with
  | under found same => exact .under (grown _ _ found) same
  | inside found same => exact .inside (grown _ _ found) same
  | outside => exact .outside

theorem Sees.node (sees : plan.Sees parent scope tags) (named : 0 ≤ parent) :
    ∃ node, plan.node? parent = some node ∧ ∀ tag, tag ∈ node.visible ↔ tag ∈ tags := by
  cases sees with
  | @under parent _ node _ found same => exact ⟨node, by simpa [node?] using found, same⟩
  | inside => omega
  | outside => omega

/-- What a sub-plan sees that is put inside the parent or, if there is none, inside the scope. -/
theorem Sees.detached (sees : plan.Sees parent scope tags) : plan.Sees (-1) (if 0 ≤ parent then parent else scope) tags := by
  cases sees with
  | under found same =>
    rw [if_pos (Int.natCast_nonneg _)]
    exact .inside found same
  | inside found same =>
    rw [if_neg (by decide)]
    exact .inside found same
  | outside => exact .outside

private theorem nothing_seen {inputs : List Int} {ends : List (Finset Identifier)} (empty : plan.nodes = [])
    (each : List.Forall₂ (fun input tags => plan.Sees input scope tags) inputs ends) : ∀ tags ∈ ends, tags = ∅ := by
  induction each with
  | nil => simp
  | cons sees _ step =>
    refine List.forall_mem_cons.mpr ⟨?_, step⟩
    cases sees with
    | under found _ => simp [empty] at found
    | inside found _ => simp [empty] at found
    | outside => rfl

private theorem mem_visibleAt {own : Nat} {tag : Identifier} (sees : plan.Sees own scope tags) :
    tag ∈ plan.visibleAt own ↔ tag ∈ tags := by
  generalize here : (own : Int) = input at sees
  cases sees with
  | under found same =>
    cases Int.ofNat.inj here
    simp [visibleAt, found, same]
  | inside => omega
  | outside => omega

private theorem seen_under {parents : List Nat} {ends : List (Finset Identifier)} {tag : Identifier}
    (each : List.Forall₂ (fun input tags => plan.Sees input scope tags) (parents.map fun id : Nat => (id : Int)) ends) :
    (∀ parent ∈ parents, tag ∈ plan.visibleAt parent) ↔ ∀ tags ∈ ends, tag ∈ tags := by
  induction parents generalizing ends with
  | nil => cases each; simp
  | cons parent parents step =>
    cases each with
    | cons sees rest => simp only [List.forall_mem_cons, mem_visibleAt sees, step rest]

/-- A node sees the tags that all of its inputs have in scope. -/
theorem footing_sees {inputs : List Int} {ends : List (Finset Identifier)} {parents : List Nat}
    {visible : List Identifier} (each : List.Forall₂ (fun input tags => plan.Sees input scope tags) inputs ends)
    (nonempty : inputs ≠ []) (stands : plan.footing inputs scope = .ok (parents, visible)) (tag : Identifier) :
    tag ∈ visible ↔ tag ∈ meet ends := by
  unfold footing at stands
  split at stands
  · next root =>
    subst root
    obtain ⟨tags, rfl, sees⟩ : ∃ tags, ends = [tags] ∧ plan.Sees (-1) scope tags := by
      cases each with
      | cons sees rest => cases rest; exact ⟨_, rfl, sees⟩
    rw [mem_meet, List.forall_mem_singleton]
    unfold groundRoot at stands
    generalize start : (-1 : Int) = input at sees
    cases sees with
    | under => omega
    | @inside scope node _ found same =>
      rw [if_neg (by omega), Int.toNat_natCast, found] at stands
      cases stands
      exact same tag
    | outside => cases stands; simp
  · next attached =>
    obtain ⟨resolved, rfl⟩ := ground_eq_ok.mp stands
    obtain ⟨_, ⟨rfl, empty | root⟩ | rfl⟩ := resolveAll_eq_ok resolved
    · cases ends with
      | nil => cases each; exact absurd rfl nonempty
      | cons first rest =>
        have none := nothing_seen empty each first List.mem_cons_self
        rw [mem_meet, List.forall_mem_cons, none]
        simp [visibleUnder]
    · exact absurd root attached
    · cases parents with
      | nil => exact absurd rfl nonempty
      | cons first rest =>
        cases ends with
        | nil => cases each
        | cons => rw [mem_visibleUnder, mem_meet, seen_under each]

/-- A node enters when all that it refers to is in scope, and adds what it binds. It is never taken for a
stranger's fault when a tag is missing. -/
theorem enter_sees {inputs : List Int} {ends : List (Finset Identifier)} {own : Nat}
    (each : List.Forall₂ (fun input tags => plan.Sees input scope tags) inputs ends) (nonempty : inputs ≠ [])
    (entered : plan.enter op inputs scope = .ok (own, after)) :
    op.demands ⊆ meet ends ∧ plan.Extends after ∧ after.Sees own scope (meet ends ∪ op.bindings.toFinset) := by
  have appends : plan.Appends op _ _ := enter_appends inputs scope
  rw [entered] at appends
  cases appends with
  | grown _ stands _ seen =>
    have same := footing_sees each nonempty stands
    refine ⟨(NodeOp.checkTags_iff_demands same).mp seen, extends_grow _ _, ?_⟩
    refine .under (by rw [getElem?_grow, if_pos rfl]) fun tag => ?_
    rw [mem_insertAll, same, Finset.mem_union, List.mem_toFinset]

theorem enter_misses {inputs : List Int} {ends : List (Finset Identifier)}
    (each : List.Forall₂ (fun input tags => plan.Sees input scope tags) inputs ends) (nonempty : inputs ≠ [])
    (refused : plan.enter op inputs scope = .error .tagNotExist) : ¬ op.demands ⊆ meet ends := by
  have appends : plan.Appends op _ _ := enter_appends inputs scope
  rw [refused] at appends
  cases appends with
  | groundless refused =>
    unfold footing at refused
    split at refused
    · unfold groundRoot at refused
      grind
    · rcases resolveAll_eq_error (ground_eq_error.mp refused) with fault | fault <;> cases fault
  | schema refused => rcases checkSchema_eq_error refused with fault | fault <;> cases fault
  | tags stands refused =>
    rw [← NodeOp.checkTags_iff_demands (footing_sees each nonempty stands), refused]
    simp

/-- An alias behind a node comes into scope as well. -/
theorem bindBehind_sees {own : Nat} (trailing : Option Identifier) (sees : plan.Sees own scope tags) :
    plan.Extends (plan.bindBehind own trailing).2 ∧
      (plan.bindBehind own trailing).2.Sees (plan.bindBehind own trailing).1 scope (tags ∪ trailing.toFinset) := by
  cases trailing with
  | none => exact ⟨.refl plan, by simpa [bindBehind] using sees⟩
  | some tag =>
    refine ⟨extends_grow _ _, .under (by simp only [bindBehind]; rw [getElem?_grow, if_pos rfl]) fun seen => ?_⟩
    simp [mem_visibleAt sees, NodeOp.bindings]

end PlanGraph

namespace Assembly

open Assembling

variable {parent scope : Int} {tags : Finset Identifier} {operator : Operator} {links : Links} {before : Assembly PlanGraph}

/-- The check has foreseen a failure for want of a tag. -/
def Foreseen {α : Type} (checked : Option α) (error : Error) : Prop :=
  ∀ kind, error = .appendFailed kind .tagNotExist → checked = none

private theorem foreseen_aside {α : Type} {checked : Option α} {error : Error} (about : error.AboutOperator) :
    Foreseen checked error := by
  rintro kind rfl
  cases about

/-- What is placed last sees the tags that the check leaves in scope. -/
def Agrees (before : Assembly PlanGraph) (scope : Int) (checked : Option (Finset Identifier)) (last : Int)
    (after : Assembly PlanGraph) : Prop :=
  before.store.Extends after.store ∧ ∃ tags, checked = some tags ∧ after.store.Sees last scope tags

private theorem placeLinked_scoped {inputs : List Int} {ends : List (Finset Identifier)}
    (each : List.Forall₂ (fun input tags => before.store.Sees input scope tags) inputs ends) (nonempty : inputs ≠ [])
    (asks : ∀ op, operator.toNode links = .ok op → op.inputs parent = inputs) :
    (placeLinked PlanGraph.accumulator parent scope operator links).Ends before
      (fun placed after => before.store.Extends after.store ∧ ∃ (own : Nat) (op : NodeOp Int),
        placed.2 = own ∧ operator.toNode links = .ok op ∧ op.demands ⊆ meet ends ∧
          after.store.Sees own scope (meet ends ∪ op.bindings.toFinset ∪ operator.ownTags))
      (fun error _ => ∀ kind, error = .appendFailed kind .tagNotExist →
        ∃ op, operator.toNode links = .ok op ∧ ¬ op.demands ⊆ meet ends) := by
  refine placeLinked_ends ?_ ?_ ?_
  · rintro error about kind rfl
    cases about
  · rintro op refusal lowered refused kind same
    cases same
    rw [asks op lowered] at refused
    exact ⟨op, lowered, PlanGraph.enter_misses each nonempty refused⟩
  · intro op own plan lowered entered
    rw [asks op lowered] at entered
    obtain ⟨demanded, grown, sees⟩ := PlanGraph.enter_sees each nonempty entered
    obtain ⟨further, behind⟩ := PlanGraph.bindBehind_sees operator.trailing sees
    refine ⟨grown.trans further, _, op, rfl, lowered, demanded, ?_⟩
    -- An alias without a node of its own is among the tags that the node binds.
    have same : meet ends ∪ op.bindings.toFinset ∪ operator.trailing.toFinset =
        meet ends ∪ op.bindings.toFinset ∪ operator.ownTags := by
      unfold Operator.trailing Operator.ownTags
      cases carried : operator.kind.carriesAlias with
      | false => rfl
      | true =>
        have bound := (Operator.lowersTo_of_toNode lowered).carries carried
        cases tagged : operator.tag with
        | none => rfl
        | some tag =>
          have known := bound tag tagged
          ext seen
          simp
          grind
    rwa [same] at behind

/-- An operator that is placed where the check's tags are seen. -/
private def ScopedPlace (parent scope : Int) (operator : Operator) : Prop :=
  ∀ {before : Assembly PlanGraph} {tags}, before.store.Sees parent scope tags → operator.Unlinked →
    (place PlanGraph.accumulator parent scope operator).Ends before
      (fun placed after => 0 ≤ placed.2 ∧ Agrees before scope (operator.scope? tags) placed.2 after)
      (fun error _ => Foreseen (operator.scope? tags) error)

private def ScopedBranches (parent scope : Int) (branches : List (List Operator)) : Prop :=
  ∀ {before : Assembly PlanGraph} {tags}, before.store.Sees parent scope tags → Operator.UnlinkedBranches branches →
    (placeBranches PlanGraph.accumulator parent scope branches).Ends before
      (fun lasts after => before.store.Extends after.store ∧ ∃ ends, Operator.scopeBranches? tags branches = some ends ∧
        List.Forall₂ (fun last tags => after.store.Sees last scope tags) lasts ends)
      (fun error _ => Foreseen (Operator.scopeBranches? tags branches) error)

private def ScopedChain (first : Option Int) (parent scope : Int) (operators : List Operator) : Prop :=
  ∀ {before : Assembly PlanGraph} {tags}, before.store.Sees parent scope tags → Operator.UnlinkedAll operators →
    (placeFrom PlanGraph.accumulator first parent scope operators).Ends before
      (fun placed after => (0 ≤ parent ∨ operators ≠ [] → 0 ≤ placed.2) ∧
        Agrees before scope (Operator.scopeAll? tags operators) placed.2 after)
      (fun error _ => Foreseen (Operator.scopeAll? tags operators) error)

private theorem scopedPlace_bare (bare : operator.Bare) : ScopedPlace parent scope operator := by
  intro before tags sees unlinked
  have checked : operator.scope? tags = operator.bareScope? tags := Operator.scope?.eq_3 tags operator bare.1 bare.2
  rw [checked]
  refine place_bare_ends bare unlinked (fun _ _ => nofun) (fun _ about => foreseen_aside about) fun _ single => ?_
  have asks : ∀ op, operator.toNode operator.links = .ok op → op.inputs parent = [parent] := by
    intro op lowered
    have kind := (Operator.lowersTo_of_toNode lowered).kind
    cases op with
    | union _ => exact absurd (Option.some.inj kind).symm single
    | _ => rfl
  refine (placeLinked_scoped (.cons sees .nil) (by simp) asks).weaken ?_ ?_
  · intro placed after given
    obtain ⟨grown, own, op, behind, lowered, demanded, sees⟩ := given
    refine ⟨by omega, grown, _, ?_, behind ▸ sees⟩
    simp only [Operator.bareScope?, lowered]
    exact if_pos demanded
  · intro error after missed kind same
    obtain ⟨op, lowered, undemanded⟩ := missed kind same
    simp only [Operator.bareScope?, lowered]
    exact if_neg undemanded

private theorem scopedPlace_apply {sub : List Operator} {subRoot : Option Int32} {join : Option JoinKind} {tag : Option Alias}
    (inner : ScopedChain none (-1) (if 0 ≤ parent then parent else scope) sub) :
    ScopedPlace parent scope ⟨.apply (some sub) subRoot join, tag⟩ := by
  intro before tags sees unlinked
  rw [Operator.scope?.eq_1]
  refine place_apply_ends (fun _ _ => nofun) (fun _ about => foreseen_aside about)
    ((inner sees.detached unlinked.2).weaken (fun _ _ ended => ended.2) ?_) ?_
  · intro error after foreseen kind same
    rw [foreseen kind same]
    rfl
  intro first after given
  obtain ⟨grown, inside, checked, -⟩ := given
  rw [checked]
  have lowered {op} (lowered : Operator.toNode ⟨.apply (some sub) subRoot join, tag⟩
      { subRoot := some first.1, parents := none } = .ok op) : tag = none ∧ ∃ kind root, op = .apply kind root none := by
    obtain ⟨unnamed, kind, root, _, _, placed⟩ := Operator.toNode_apply lowered
    exact ⟨unnamed, kind, root, placed⟩
  refine (placeLinked_scoped (.cons (sees.mono grown) .nil) (by simp) ?_).weaken ?_ ?_
  · intro op placed
    obtain ⟨_, kind, root, rfl⟩ := lowered placed
    rfl
  · intro placed after given
    obtain ⟨further, own, op, behind, placing, _, sees⟩ := given
    obtain ⟨rfl, kind, root, rfl⟩ := lowered placing
    refine ⟨by omega, grown.trans further, tags, rfl, ?_⟩
    rw [behind]
    simpa [meet, NodeOp.bindings, Operator.ownTags] using sees
  · intro error after missed kind same
    obtain ⟨op, placing, undemanded⟩ := missed kind same
    obtain ⟨_, kind, root, rfl⟩ := lowered placing
    exact absurd (Finset.empty_subset _) undemanded

private theorem scopedPlace_union {branches : List (List Operator)} {parents : Option (List Int32)} {tag : Option Alias}
    (inner : ScopedBranches parent scope branches) : ScopedPlace parent scope ⟨.union (some branches) parents, tag⟩ := by
  intro before tags sees unlinked
  rw [Operator.scope?.eq_2]
  refine place_union_ends (fun _ _ => nofun) (fun _ about => foreseen_aside about)
    ((inner sees unlinked.2).weaken (fun _ _ ended => ended) ?_) ?_
  · intro error after foreseen kind same
    rw [foreseen kind same]
    rfl
  intro lasts after given
  obtain ⟨grown, ends, checked, each⟩ := given
  rw [checked]
  have lowered {op} (lowered : Operator.toNode ⟨.union (some branches) parents, tag⟩
      { subRoot := none, parents := some lasts } = .ok op) : op = .union lasts ∧ lasts ≠ [] := by
    obtain ⟨first, rest, given, placed⟩ := Operator.toNode_union lowered
    cases given
    exact ⟨placed, by simp⟩
  cases lasts with
  | nil =>
    exact placeLinked_ends (fun _ about => foreseen_aside about) (fun _ _ placing => absurd rfl (lowered placing).2)
      fun _ _ _ placing => absurd rfl (lowered placing).2
  | cons last rest =>
    refine (placeLinked_scoped each (by simp) fun op placed => by cases (lowered placed).1; rfl).weaken ?_ ?_
    · intro placed after given
      obtain ⟨further, own, op, behind, placing, _, sees⟩ := given
      cases (lowered placing).1
      refine ⟨by omega, grown.trans further, _, rfl, ?_⟩
      rw [behind]
      simpa [NodeOp.bindings, Operator.ownTags] using sees
    · intro error after missed kind same
      obtain ⟨op, placing, undemanded⟩ := missed kind same
      cases (lowered placing).1
      exact absurd (Finset.empty_subset _) undemanded

private theorem scopedChain_cons {first : Option Int} {rest : List Operator} (here : ScopedPlace parent scope operator)
    (later : ∀ own last, ScopedChain (first.or (some own)) last scope rest) :
    ScopedChain first parent scope (operator :: rest) := by
  intro before tags sees unlinked
  refine placeFrom_cons_ends ((here sees unlinked.1).weaken (fun _ _ ended => ended) ?_) ?_
  · intro error after foreseen kind same
    simp only [Operator.scopeAll?, foreseen kind same, Option.bind_none]
  intro own last after given
  obtain ⟨named, grown, inside, checked, sees⟩ := given
  simp only [Operator.scopeAll?, checked, Option.bind_some]
  refine ((later own last) sees unlinked.2).weaken ?_ fun _ _ foreseen => foreseen
  intro placed final given
  obtain ⟨behind, further, tags, ended, sees⟩ := given
  exact ⟨fun _ => behind (.inl named), grown.trans further, tags, ended, sees⟩

private theorem scopedBranches_cons {branch : List Operator} {rest : List (List Operator)}
    (here : ScopedChain none parent scope branch) (later : ScopedBranches parent scope rest) :
    ScopedBranches parent scope (branch :: rest) := by
  intro before tags sees unlinked
  refine placeBranches_cons_ends ((here sees unlinked.1).weaken (fun _ _ ended => ended.2) ?_) ?_
  · intro error after foreseen kind same
    simp only [Operator.scopeBranches?, foreseen kind same, Option.bind_none]
  intro first last after given
  obtain ⟨grown, inside, checked, atLast⟩ := given
  simp only [Operator.scopeBranches?, checked, Option.bind_some]
  refine (later (sees.mono grown) unlinked.2).weaken ?_ ?_
  · intro lasts final given
    obtain ⟨further, ends, ended, each⟩ := given
    exact ⟨grown.trans further, inside :: ends, by rw [ended]; rfl, .cons (atLast.mono further) each⟩
  · intro error final foreseen kind same
    rw [foreseen kind same]
    rfl

private theorem scopedChain (first : Option Int) (parent scope : Int) (operators : List Operator) :
    ScopedChain first parent scope operators := by
  refine (place.mutual_induct ScopedPlace ScopedBranches ScopedChain ?_ ?_ ?_ ?_ ?_ ?_ ?_).2.2 first parent scope operators
  · intro _ _ _ _ _ _ inner
    exact scopedPlace_apply inner
  · intro _ _ _ _ _ inner
    exact scopedPlace_union inner
  · intro _ _ _ noApply noUnion
    exact scopedPlace_bare ⟨noApply, noUnion⟩
  · intro _ _ _ _ tags sees _
    refine .pure ⟨?_, .refl _, tags, rfl, sees⟩
    simp
  · intro _ _ _ _ _ here later
    exact scopedChain_cons here later
  · intro _ _ _ _ _ _
    exact .pure ⟨.refl _, [], rfl, .nil⟩
  · intro _ _ _ _ here later
    exact scopedBranches_cons here later

/-- Assembling operators from nothing agrees with the check of their tags: the last node sees what the check
leaves in scope, and a tag is missing only if the check misses one. -/
theorem tags_lexically_scoped (schema : Option Schema) (operators : List Operator) (nonempty : operators ≠ [])
    (unlinked : Operator.UnlinkedAll operators) :
    (appendAll PlanGraph.accumulator (-1) operators).Ends (.start (.empty schema))
      (fun placed assembly => ∃ tags node, Operator.scopeAll? ∅ operators = some tags ∧
        assembly.store.node? placed.2 = some node ∧ ∀ tag, tag ∈ tags ↔ tag ∈ node.visible)
      (fun error _ => (∃ kind, error = .appendFailed kind .tagNotExist) → Operator.scopeAll? ∅ operators = none) := by
  have agreed : (appendAll PlanGraph.accumulator (-1) operators).Ends (.start (.empty schema)) _ _ :=
    scopedChain none (-1) (-1) operators .outside unlinked
  refine agreed.weaken ?_ ?_
  · intro placed assembly given
    obtain ⟨named, -, tags, checked, sees⟩ := given
    obtain ⟨node, found, same⟩ := sees.node (named (.inr nonempty))
    exact ⟨tags, node, checked, found, fun tag => (same tag).symm⟩
  · intro error _ foreseen given
    obtain ⟨kind, missing⟩ := given
    exact foreseen kind missing

/-- Both branches of the union bind an alias that the apply and the sink refer to. -/
def forking : List Operator :=
  let step (tag : String) : Operator :=
    ⟨.expand { ExpandArguments.empty with direction := some .outgoing, isEdge := some false }, some (.written tag)⟩
  [⟨.scan { ScanArguments.empty with target := some .vertex }, some (.written "a")⟩,
    ⟨.union (some [[step "b"], [step "c", step "b"]]) none, some (.written "d")⟩,
    ⟨.apply (some [⟨.dedup (some [.ofTag (.name "b")]), some (.written "e")⟩]) none (some .semi), none⟩,
    ⟨.sink (some [.name "a", .name "b"]), none⟩]

/-- Only one of the branches binds the alias that is referred to behind the union. -/
def straying : List Operator := forking ++ [⟨.sink (some [.name "c"]), none⟩]

theorem forking_tags_scoped :
    Operator.scopeAll? ∅ forking = some {.name "a", .name "b", .name "d"} ∧
      (∃ placed assembly node,
        (appendAll PlanGraph.accumulator (-1) forking).run (.start (.empty none)) = (.ok placed, assembly) ∧
          assembly.store.node? placed.2 = some node ∧
          ∀ tag, tag ∈ ({.name "a", .name "b", .name "d"} : Finset Identifier) ↔ tag ∈ node.visible) ∧
      ∃ assembly, (appendAll PlanGraph.accumulator (-1) straying).run (.start (.empty none)) =
          (.error (.appendFailed .sink .tagNotExist), assembly) ∧
        Operator.scopeAll? ∅ straying = none := by
  have unlinked : Operator.UnlinkedAll forking ∧ Operator.UnlinkedAll straying := by
    simp [straying, forking, Operator.UnlinkedAll, Operator.Unlinked, Operator.UnlinkedBranches]
  have known : Operator.scopeAll? ∅ forking = some {.name "a", .name "b", .name "d"} := by decide +kernel
  refine ⟨known, ?_, ?_⟩
  · have agrees := tags_lexically_scoped none forking (by simp [forking]) unlinked.1
    have passes : ((appendAll PlanGraph.accumulator (-1) forking).run (.start (.empty none))).1.isOk = true := by
      decide +kernel
    obtain ⟨placed, assembly, ran⟩ := Assembling.ran_of_isOk passes
    obtain ⟨tags, node, checked, found, same⟩ := agrees.answer ran
    obtain rfl := Option.some.inj (checked.symm.trans known)
    exact ⟨placed, assembly, node, ran, found, same⟩
  · have agrees := tags_lexically_scoped none straying (by simp [straying]) unlinked.2
    have missing : (match ((appendAll PlanGraph.accumulator (-1) straying).run (.start (.empty none))).1 with
      | .error (.appendFailed .sink .tagNotExist) => true
      | _ => false) = true := by decide +kernel
    split at missing
    · next failed =>
      obtain ⟨assembly, ran⟩ := Assembling.ran_of_error failed
      exact ⟨assembly, ran, agrees.fault ran ⟨.sink, rfl⟩⟩
    · cases missing

end Assembly

end TraversalPlanner
