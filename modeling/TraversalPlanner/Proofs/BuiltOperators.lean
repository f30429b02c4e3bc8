import TraversalPlanner.Proofs.AssemblyLogic
import TraversalPlanner.Proofs.LooseRoots
import TraversalPlanner.Proofs.Nesting

/-! What the operators of a traversal look like. They name no nodes, and their sub-plans and branches begin
the way the traversals do that they were built from. -/

namespace TraversalPlanner

open Proofs

namespace Action

/-- The traversal that an apply is built from. -/
def sub? : Action → Option (List Step)
  | .whereTraversal inner => some inner
  | .not inner => some inner
  | .apply inner _ => some inner
  | _ => none

def nests : Action → Bool
  | .whereTraversal _ => true
  | .not _ => true
  | .apply .. => true
  | .union _ => true
  | _ => false

theorem nests_of_sub? {action : Action} {sub : List Step} (given : action.sub? = some sub) : action.nests = true := by
  cases action <;> cases given <;> rfl

theorem inner_of_plain {action : Action} (plain : action.nests = false) : action.inner = [] := by
  cases action <;> cases plain <;> rfl

theorem inner_of_sub? {action : Action} {sub : List Step} (given : action.sub? = some sub) : action.inner = [sub] := by
  cases action <;> cases given <;> rfl

end Action

namespace Traversal

/-- The first step's own node is where the traversal begins. -/
def Opens : List Step → Prop
  | ⟨.union branches, _⟩ :: _ => ∀ branch ∈ branches, branch = []
  | _ => True

mutual
/-- No traversal nested in a where, a not or an apply begins with a union of branches that have steps. -/
def Rooted : List Step → Prop
  | [] => True
  | step :: rest => RootedStep step ∧ Rooted rest
termination_by structural steps => steps

def RootedStep : Step → Prop
  | ⟨action, _⟩ => RootedAction action
termination_by structural step => step

def RootedAction : Action → Prop
  | .whereTraversal inner => Opens inner ∧ Rooted inner
  | .not inner => Opens inner ∧ Rooted inner
  | .apply inner _ => Opens inner ∧ Rooted inner
  | .union branches => RootedBranches branches
  | _ => True
termination_by structural action => action

def RootedBranches : List (List Step) → Prop
  | [] => True
  | branch :: rest => Rooted branch ∧ RootedBranches rest
termination_by structural branches => branches
end

/-- It begins with a look-up of vertices or edges. -/
def Starts : List Step → Prop
  | ⟨.vertices _, _⟩ :: _ => True
  | ⟨.edges _, _⟩ :: _ => True
  | _ => False

theorem rooted_iff {steps : List Step} : Rooted steps ↔ ∀ step ∈ steps, RootedAction step.action := by
  induction steps with
  | nil => simp [Rooted]
  | cons step rest tail =>
    have here : RootedStep step ↔ RootedAction step.action := by
      obtain ⟨action, tag⟩ := step
      rw [RootedStep]
    rw [Rooted, List.forall_mem_cons, tail, here]

theorem opens_of_other {step : Step} {rest : List Step} (other : ∀ branches, step.action ≠ .union branches) :
    Opens (step :: rest) := by
  unfold Opens
  split
  · next branches tag _ same =>
    cases same
    exact absurd rfl (other branches)
  · trivial

theorem rootedAction_of_plain {action : Action} (plain : action.nests = false) : RootedAction action := by
  cases action with
  | whereTraversal | not | apply | union => cases plain
  | _ => trivial

theorem rootedAction_of_sub? {action : Action} {sub : List Step} (given : action.sub? = some sub) :
    RootedAction action ↔ Opens sub ∧ Rooted sub := by
  cases action <;> cases given <;> rw [RootedAction]

end Traversal

namespace ScanDraft

/-- A scan only takes in steps that nothing is nested in. -/
theorem nests_of_take? {draft wider : ScanDraft} {step : Step} (taken : draft.take? step = some wider) :
    step.action.nests = false := by
  unfold take? at taken
  split at taken
  · cases taken
  · simp only at taken
    split at taken
    · next same => rw [same]; rfl
    · next same => rw [same]; rfl
    · next same => rw [same]; rfl
    · cases taken

theorem head_fuse (draft : ScanDraft) (segments : List Segment) :
    ∃ wider rest, draft.fuse segments = .scan wider :: rest := by
  induction segments generalizing draft with
  | nil => exact ⟨draft, [], rfl⟩
  | cons segment rest step =>
    cases segment with
    | single prepared =>
      rw [fuse]
      cases draft.take? prepared.step with
      | some wider => exact step wider
      | none => exact ⟨draft, _, rfl⟩
    | _ => exact ⟨draft, _, rfl⟩

end ScanDraft

namespace Segment

/-- It holds of all steps that stand alone. -/
def Singles (holds : Prepared → Prop) (segments : List Segment) : Prop :=
  ∀ prepared, Segment.single prepared ∈ segments → holds prepared

section Singles

variable {holds : Prepared → Prop} (plain : ∀ prepared, prepared.step.action.nests = false → holds prepared)

theorem singles_single (prepared : Prepared) (segments : List Segment) :
    Singles holds (.single prepared :: segments) ↔ holds prepared ∧ Singles holds segments := by
  simp [Singles]

theorem singles_cons {segment : Segment} (other : ∀ prepared, segment ≠ .single prepared) (segments : List Segment) :
    Singles holds (segment :: segments) ↔ Singles holds segments := by
  unfold Singles
  refine forall_congr' fun prepared => ?_
  rw [List.mem_cons, or_iff_right (other prepared).symm]

include plain in
theorem singles_fuse (draft : ScanDraft) (segments : List Segment) :
    Singles holds (draft.fuse segments) ↔ Singles holds segments := by
  induction segments generalizing draft with
  | nil => exact singles_cons (by simp) []
  | cons segment rest step =>
    cases segment with
    | single prepared =>
      rw [ScanDraft.fuse, singles_single]
      cases taken : draft.take? prepared.step with
      | some wider =>
        rw [and_iff_right (plain prepared (ScanDraft.nests_of_take? taken))]
        exact step wider
      | none =>
        simp only
        rw [singles_cons (by simp), singles_single]
    | _ => exact singles_cons (by simp) _

theorem singles_close (tail : Tail) : Singles holds tail.close ↔ Singles holds tail.segments := by
  simp [Singles, Tail.close]

include plain in
theorem singles_push (prepared : Prepared) (index : Nat) (tail : Tail) :
    Singles holds (push prepared index tail).segments ↔ holds prepared ∧ Singles holds tail.segments := by
  obtain ⟨⟨action, tag⟩, inner⟩ := prepared
  unfold push
  cases action with
  | «by» => exact (and_iff_right (plain _ rfl)).symm
  | vertices | edges =>
    rw [and_iff_right (plain _ rfl), ← singles_close tail]
    exact singles_fuse plain _ _
  | whereTags | order | group | groupCount | dedup | select =>
    rw [and_iff_right (plain _ rfl)]
    exact singles_cons (by simp) _
  | _ =>
    rw [← singles_close tail]
    exact singles_single _ _

include plain in
theorem singles_segments (steps : List Prepared) : Singles holds (segments steps) ↔ ∀ prepared ∈ steps, holds prepared := by
  have each : ∀ index, Singles holds (ofSteps index steps).segments ↔ ∀ prepared ∈ steps, holds prepared := by
    induction steps with
    | nil => simp [ofSteps, Singles]
    | cons prepared rest step =>
      intro index
      rw [ofSteps, singles_push plain, step, List.forall_mem_cons]
  rw [segments, singles_close, each]

/-- Scans take in nothing that nests, so a step that stands alone is one of the steps. -/
theorem origin_of_single {steps : List Prepared} {prepared : Prepared} (member : Segment.single prepared ∈ segments steps) :
    prepared.step.action.nests = false ∨ prepared ∈ steps := by
  have each : ∀ prepared ∈ steps, prepared.step.action.nests = false ∨ prepared ∈ steps := fun _ known => .inr known
  exact (singles_segments (fun _ plain => .inl plain) steps).mpr each prepared member

end Singles

/-- The first segment is the first step, if that stands alone. -/
theorem head_segments (prepared : Prepared) (rest : List Prepared) :
    ∃ first others, segments (prepared :: rest) = first :: others ∧
      (first = .single prepared ∨
        (∀ other, first ≠ .single other) ∧ ∀ branches, prepared.step.action ≠ .union branches) := by
  obtain ⟨⟨action, tag⟩, inner⟩ := prepared
  cases action with
  | vertices | edges =>
    obtain ⟨wider, others, fused⟩ := ScanDraft.head_fuse _ (ofSteps 1 rest).close
    exact ⟨.scan wider, others, fused, .inr ⟨by simp, by simp⟩⟩
  | «by» | whereTags | order | group | groupCount | dedup | select => exact ⟨_, _, rfl, .inr ⟨by simp, by simp⟩⟩
  | _ => exact ⟨_, _, rfl, .inl rfl⟩

end Segment

namespace Operator

/-- Neither an apply nor a union. -/
structure Simple (args : OperatorArguments) : Prop where
  apart : args.kind ≠ .apply
  single : args.kind ≠ .union

theorem ofWhere_eq_ok {start : Option String} {condition : TagCondition} {modulators : List Modulator}
    {args : OperatorArguments} (built : ofWhere start condition modulators = .ok args) :
    ∃ keys, args = select (Expression.ofWhere start condition keys) := by
  obtain ⟨keys, _, same⟩ := bind_eq_ok.mp built
  cases same
  exact ⟨keys, rfl⟩

theorem ofOrder_eq_ok {modulators : List Modulator} {args : OperatorArguments} (built : ofOrder modulators = .ok args) :
    ∃ key keys, args = .orderBy (some (key :: keys)) none none := by
  obtain ⟨keys, _, same⟩ := bind_eq_ok.mp built
  cases same
  cases keys with
  | nil => exact ⟨_, _, rfl⟩
  | cons key keys => exact ⟨key, keys, rfl⟩

theorem ofGroup_eq_ok {modulators : List Modulator} {args : OperatorArguments} (built : ofGroup modulators = .ok args) :
    modulators.length ≤ 2 ∧ ∃ key value, keyOfGroup "group" modulators[0]? = .ok key ∧
      valueOfGroup modulators[1]? = .ok value ∧ args = .groupBy (some [key]) (some [value]) := by
  unfold ofGroup at built
  split at built
  · cases built
  · next few =>
    obtain ⟨key, keyed, built⟩ := bind_eq_ok.mp built
    obtain ⟨value, valued, same⟩ := bind_eq_ok.mp built
    cases same
    exact ⟨Nat.le_of_not_lt few, key, value, keyed, valued, rfl⟩

theorem ofGroupCount_eq_ok {modulators : List Modulator} {args : OperatorArguments}
    (built : ofGroupCount modulators = .ok args) :
    modulators.length ≤ 1 ∧ ∃ key, keyOfGroup "groupCount" modulators[0]? = .ok key ∧
      args = .groupBy (some [key])
        (some [{ inputs := [], aggregate := .count, tag := .derived Expression.groupValueName }]) := by
  unfold ofGroupCount at built
  split at built
  · cases built
  · next few =>
    obtain ⟨key, keyed, same⟩ := bind_eq_ok.mp built
    cases same
    exact ⟨Nat.le_of_not_lt few, key, keyed, rfl⟩

theorem ofDedup_eq_ok {tags : List String} {modulators : List Modulator} {args : OperatorArguments}
    (built : ofDedup tags modulators = .ok args) : ∃ keys, args = .dedup (some keys) := by
  obtain ⟨_, _, built⟩ := bind_eq_ok.mp built
  simp only at built
  split at built
  · obtain ⟨keys, _, same⟩ := bind_eq_ok.mp built
    cases same
    exact ⟨keys, rfl⟩
  · obtain ⟨keys, _, same⟩ := bind_eq_ok.mp built
    cases same
    exact ⟨keys, rfl⟩

/-- One selected tag is projected as it is, and several under names that are made up. -/
theorem ofSelect_eq_ok {tags : List String} {modulators : List Modulator} {args : OperatorArguments}
    (built : ofSelect tags modulators = .ok args) :
    (∃ tag expression, tags = [tag] ∧ args = projectOne expression) ∨
      ∃ one other rest expressions columns, tags = one :: other :: rest ∧
        tags.zipIdx.mapM (fun (tag, index) => selected tag (turnOf modulators index)) = .ok expressions ∧
        expressions.mapM (fun expression => do
          let name ← Expression.nameOfProjection expression
          return ({ expression, tag := some (.derived name) } : Projected Alias)) = .ok columns ∧
        args = .project (some columns) := by
  unfold ofSelect at built
  split at built
  · cases built
  · next some =>
    obtain ⟨expressions, read, built⟩ := bind_eq_ok.mp built
    split at built
    · cases built
      match tags, mapM_eq_ok.mp read with
      | [tag], _ => exact .inl ⟨tag, _, rfl, rfl⟩
    · next several =>
      obtain ⟨columns, named, same⟩ := bind_eq_ok.mp built
      cases same
      match tags, some, expressions, mapM_eq_ok.mp read, read, several with
      | [], some, _, _, _, _ => exact absurd rfl some
      | [_], _, [_], _, _, several => exact absurd rfl (several _)
      | one :: other :: rest, _, _, _, read, _ => exact .inr ⟨one, other, rest, _, columns, rfl, read, named, rfl⟩

theorem simple_ofModulated {action : Action} {modulators : List Modulator} {args : OperatorArguments}
    (built : ofModulated action modulators = .ok args) : Simple args := by
  unfold ofModulated at built
  split at built
  · obtain ⟨_, rfl⟩ := ofWhere_eq_ok built
    exact ⟨nofun, nofun⟩
  · obtain ⟨_, _, rfl⟩ := ofOrder_eq_ok built
    exact ⟨nofun, nofun⟩
  · obtain ⟨_, _, _, _, _, rfl⟩ := ofGroup_eq_ok built
    exact ⟨nofun, nofun⟩
  · obtain ⟨_, _, _, rfl⟩ := ofGroupCount_eq_ok built
    exact ⟨nofun, nofun⟩
  · obtain ⟨_, rfl⟩ := ofDedup_eq_ok built
    exact ⟨nofun, nofun⟩
  · obtain ⟨_, _, _, rfl⟩ | ⟨_, _, _, _, _, _, _, _, rfl⟩ := ofSelect_eq_ok built
    · exact ⟨nofun, nofun⟩
    · exact ⟨nofun, nofun⟩
  · cases built

theorem ofSingle_cases {prepared : Prepared} {operator : Operator} (built : ofSingle prepared = .ok operator) :
    Simple operator.args ∧ prepared.step.action.nests = false ∨
    (∃ sub lists join tag, prepared.step.action.sub? = some sub ∧ prepared.inner.mapM id = .ok lists ∧
      operator = ⟨.apply (some lists.flatten) none (some join), tag⟩) ∨
    ∃ branches lists tag, prepared.step.action = .union branches ∧ prepared.inner.mapM id = .ok lists ∧
      operator = ⟨.union (some lists) none, tag⟩ := by
  obtain ⟨⟨action, tag⟩, inner⟩ := prepared
  unfold ofSingle at built
  cases action with
  | whereTraversal sub =>
    obtain ⟨lists, inners, built⟩ := bind_eq_ok.mp built
    cases built
    exact .inr (.inl ⟨sub, lists, .semi, _, rfl, inners, rfl⟩)
  | not sub =>
    obtain ⟨lists, inners, built⟩ := bind_eq_ok.mp built
    cases built
    exact .inr (.inl ⟨sub, lists, .anti, _, rfl, inners, rfl⟩)
  | apply sub join =>
    obtain ⟨kind, _, built⟩ := bind_eq_ok.mp built
    obtain ⟨lists, inners, built⟩ := bind_eq_ok.mp built
    cases built
    exact .inr (.inl ⟨sub, lists, kind, _, rfl, inners, rfl⟩)
  | union branches =>
    obtain ⟨lists, inners, built⟩ := bind_eq_ok.mp built
    cases built
    exact .inr (.inr ⟨branches, lists, _, rfl, inners, rfl⟩)
  | hasLabel | hasId | otherVertex | limit | range | count =>
    cases built
    exact .inl ⟨⟨nofun, nofun⟩, rfl⟩
  | has | adjacent | edgeVertex | path =>
    obtain ⟨_, _, built⟩ := bind_eq_ok.mp built
    cases built
    exact .inl ⟨⟨nofun, nofun⟩, rfl⟩
  | values keys =>
    match keys with
    | [] => cases built
    | [key] =>
      cases built
      exact .inl ⟨⟨nofun, nofun⟩, rfl⟩
    | _ :: _ :: _ => cases built
  | valueMap keys =>
    cases keys with
    | nil => cases built
    | cons key keys =>
      cases built
      exact .inl ⟨⟨nofun, nofun⟩, rfl⟩
  | vertices | edges | whereTags | order | group | groupCount | dedup | select | «by» | unknown => cases built

theorem bare_of_simple {operator : Operator} (simple : Simple operator.args) : operator.Bare := by
  refine ⟨fun sub subRoot join tag same => ?_, fun branches parents tag same => ?_⟩
  · exact simple.apart (same ▸ rfl)
  · exact simple.single (same ▸ rfl)

theorem unlinked_of_simple {operator : Operator} (simple : Simple operator.args) : operator.Unlinked := by
  obtain ⟨args, tag⟩ := operator
  cases args with
  | apply => exact absurd rfl simple.apart
  | union => exact absurd rfl simple.single
  | _ => trivial

theorem unlinkedAll_iff {operators : List Operator} : UnlinkedAll operators ↔ ∀ operator ∈ operators, operator.Unlinked := by
  induction operators with
  | nil => simp [UnlinkedAll]
  | cons operator rest step => rw [UnlinkedAll, List.forall_mem_cons, step]

theorem rootedAll_iff {operators : List Operator} : RootedAll operators ↔ ∀ operator ∈ operators, operator.Rooted := by
  induction operators with
  | nil => simp [RootedAll]
  | cons operator rest step => rw [RootedAll, List.forall_mem_cons, step]

end Operator

namespace Traversal

/-- What operators have in common with the traversal that they were built from. -/
structure Mirrors (steps : List Step) (operators : List Operator) : Prop where
  unlinked : Operator.UnlinkedAll operators
  rooted : Operator.RootedAll operators ↔ Rooted steps
  opens : Operator.Opens operators ↔ Opens steps
  empty : operators = [] ↔ steps = []

def Faithful (steps : List Step) : Prop := ∀ operators, build steps = .ok operators → Mirrors steps operators

private theorem branches_mirrored {branches : List (List Step)} {lists : List (List Operator)}
    (faithful : ∀ branch ∈ branches, Faithful branch) (built : (branches.map build).mapM id = .ok lists) :
    Operator.UnlinkedBranches lists ∧ (Operator.RootedBranches lists ↔ RootedBranches branches) ∧
      ((∀ list ∈ lists, list = []) ↔ ∀ branch ∈ branches, branch = []) := by
  have each := mapM_eq_ok.mp built
  rw [List.forall₂_map_left_iff] at each
  clear built
  induction each with
  | nil => exact ⟨trivial, Iff.rfl, by simp⟩
  | cons here _ step =>
    obtain ⟨first, others⟩ := List.forall_mem_cons.mp faithful
    have mirrors := first _ here
    obtain ⟨unlinked, rooted, empty⟩ := step others
    refine ⟨⟨mirrors.unlinked, unlinked⟩, ?_, ?_⟩
    · rw [Operator.RootedBranches, RootedBranches, mirrors.rooted, rooted]
    · rw [List.forall_mem_cons, List.forall_mem_cons, mirrors.empty, empty]

private theorem single_mirrored {step : Step} {operator : Operator} (faithful : ∀ inner ∈ step.action.inner, Faithful inner)
    (built : Operator.ofSingle ⟨step, step.action.inner.map build⟩ = .ok operator) :
    operator.Unlinked ∧ (operator.Rooted ↔ RootedAction step.action) := by
  rcases Operator.ofSingle_cases built with ⟨simple, plain⟩ | ⟨sub, lists, join, tag, given, inner, same⟩ |
    ⟨branches, lists, tag, given, inner, same⟩
  · have rooted := Operator.rooted_of_bare (Operator.bare_of_simple simple)
    exact ⟨Operator.unlinked_of_simple simple, iff_of_true rooted (rootedAction_of_plain plain)⟩
  · have nested := Action.inner_of_sub? given
    simp only [nested, List.map_cons, List.map_nil] at inner
    obtain ⟨operators, built, same'⟩ : ∃ operators, build sub = .ok operators ∧ lists = [operators] := by
      cases mapM_eq_ok.mp inner with
      | cons here rest => cases rest; exact ⟨_, here, rfl⟩
    have mirrors := faithful sub (by rw [nested]; exact List.mem_singleton_self sub) operators built
    subst same same'
    rw [List.flatten_singleton]
    refine ⟨⟨rfl, mirrors.unlinked⟩, ?_⟩
    rw [Operator.Rooted, rootedAction_of_sub? given, mirrors.opens, mirrors.rooted]
  · have action : step.action = .union branches := given
    have nested : step.action.inner = branches := by rw [action, Action.inner]
    simp only [nested] at inner faithful
    obtain ⟨unlinked, rooted, _⟩ := branches_mirrored faithful inner
    subst same
    refine ⟨⟨rfl, unlinked⟩, ?_⟩
    rw [Operator.Rooted, action, RootedAction, rooted]

private theorem simple_ofScan {draft : ScanDraft} {operator : Operator} (built : Operator.ofScan draft = .ok operator) :
    ∃ args tag, operator = ⟨.scan args, tag⟩ := by
  obtain ⟨predicates, _, built⟩ := bind_eq_ok.mp built
  cases built
  exact ⟨_, _, rfl⟩

theorem simple_ofSegment {segment : Segment} {operator : Operator} (other : ∀ prepared, segment ≠ .single prepared)
    (built : Operator.ofSegment segment = .ok operator) : Operator.Simple operator.args := by
  cases segment with
  | scan draft =>
    obtain ⟨args, tag, same⟩ := simple_ofScan built
    subst same
    exact ⟨nofun, nofun⟩
  | single prepared => exact absurd rfl (other prepared)
  | modulated action tag modulators =>
    obtain ⟨args, ended, built⟩ := bind_eq_ok.mp built
    cases built
    exact Operator.simple_ofModulated ended
  | stray index => cases built

section Nested

variable {steps : List Step} (inner : ∀ step ∈ steps, ∀ nested ∈ step.action.inner, Faithful nested)

/-- The steps with what the traversals nested in them have become. -/
private abbrev preparedSteps (steps : List Step) : List Prepared := steps.map fun step => ⟨step, step.action.inner.map build⟩

include inner in
private theorem segment_mirrored {segment : Segment} {operator : Operator}
    (member : segment ∈ segments (preparedSteps steps)) (built : Operator.ofSegment segment = .ok operator) :
    operator.Unlinked ∧ (operator.Rooted ↔ ∀ prepared, segment = .single prepared → RootedAction prepared.step.action) := by
  have plain {operator : Operator} (simple : Operator.Simple operator.args) : operator.Unlinked ∧ operator.Rooted :=
    ⟨Operator.unlinked_of_simple simple, Operator.rooted_of_bare (Operator.bare_of_simple simple)⟩
  by_cases other : ∀ prepared, segment ≠ .single prepared
  · obtain ⟨unlinked, rooted⟩ := plain (simple_ofSegment other built)
    exact ⟨unlinked, iff_of_true rooted fun prepared same => absurd same (other prepared)⟩
  · obtain ⟨prepared, same⟩ : ∃ prepared, segment = .single prepared := by simpa using other
    subst same
    simp only [Segment.single.injEq, forall_eq']
    rcases Segment.origin_of_single member with none | known
    · rcases Operator.ofSingle_cases built with ⟨simple, _⟩ | ⟨_, _, _, _, given, _⟩ | ⟨_, _, _, given, _⟩
      · obtain ⟨unlinked, rooted⟩ := plain simple
        exact ⟨unlinked, iff_of_true rooted (rootedAction_of_plain none)⟩
      · cases none.symm.trans (Action.nests_of_sub? given)
      · rw [given] at none
        cases none
    · obtain ⟨step, there, same⟩ := List.mem_map.mp known
      subst same
      exact single_mirrored (inner step there) built

include inner in
private theorem rooted_mirrored {operators : List Operator}
    (built : (segments (preparedSteps steps)).mapM Operator.ofSegment = .ok operators) :
    Operator.UnlinkedAll operators ∧ (Operator.RootedAll operators ↔ Rooted steps) := by
  have singles : Segment.Singles (fun prepared => RootedAction prepared.step.action) (segments (preparedSteps steps)) ↔
      Rooted steps := by
    rw [Segment.singles_segments fun _ plain => rootedAction_of_plain plain, rooted_iff]
    simp [preparedSteps]
  rw [Operator.unlinkedAll_iff, Operator.rootedAll_iff, ← singles]
  refine ⟨fun operator member => ?_, fun rooted prepared member => ?_, fun each operator member => ?_⟩
  · obtain ⟨segment, there, made⟩ := mapM_source built member
    exact (segment_mirrored inner there made).1
  · obtain ⟨operator, there, made⟩ := mapM_result built member
    exact (segment_mirrored inner member made).2.mp (rooted operator there) prepared rfl
  · obtain ⟨segment, there, made⟩ := mapM_source built member
    refine (segment_mirrored inner there made).2.mpr fun prepared same => ?_
    subst same
    exact each prepared there

include inner in
private theorem opens_mirrored {step : Step} {rest : List Step} (same : steps = step :: rest) {operators : List Operator}
    (built : (segments (preparedSteps steps)).mapM Operator.ofSegment = .ok operators) :
    operators ≠ [] ∧ (Operator.Opens operators ↔ Opens steps) := by
  subst same
  obtain ⟨first, others, cut, head⟩ := Segment.head_segments ⟨step, step.action.inner.map build⟩ (preparedSteps rest)
  rw [preparedSteps, List.map_cons, cut, mapM_eq_ok] at built
  cases built with
  | @cons _ operator _ _ here _ =>
    refine ⟨by simp, ?_⟩
    rcases head with same | ⟨other, plain⟩
    · subst same
      rcases Operator.ofSingle_cases here with ⟨simple, plain⟩ | ⟨sub, _, _, _, given, _, same⟩ |
        ⟨branches, lists, _, given, nested, same⟩
      · refine iff_of_true (Operator.opens_of_bare (Operator.bare_of_simple simple)) (opens_of_other fun branches union => ?_)
        simp only [union] at plain
        cases plain
      · subst same
        refine iff_of_true trivial (opens_of_other fun branches union => ?_)
        simp only [union] at given
        cases given
      · subst same
        obtain ⟨action, tag⟩ := step
        have action_eq : action = .union branches := given
        subst action_eq
        exact (branches_mirrored (inner _ List.mem_cons_self) nested).2.2
    · exact iff_of_true (Operator.opens_of_bare (Operator.bare_of_simple (simple_ofSegment other here))) (opens_of_other plain)

include inner in
private theorem faithful_of_inner : Faithful steps := by
  intro operators built
  rw [build_eq] at built
  obtain ⟨unlinked, rooted⟩ := rooted_mirrored inner built
  cases steps with
  | nil =>
    cases built
    exact ⟨trivial, rooted, Iff.rfl, by simp⟩
  | cons step rest =>
    obtain ⟨some, opens⟩ := opens_mirrored inner rfl built
    exact ⟨unlinked, rooted, opens, by simp [some]⟩

end Nested

theorem faithful (steps : List Step) : Faithful steps :=
  nested_induction (fun _ inner => faithful_of_inner inner) steps

/-- A traversal that begins with a look-up is one that is scanned first. -/
theorem scan_of_starts {steps : List Step} {operators : List Operator} (starts : Starts steps)
    (built : build steps = .ok operators) :
    ∃ args tag rest, operators = ⟨.scan args, tag⟩ :: rest := by
  rw [build_eq] at built
  obtain ⟨draft, others, cut⟩ : ∃ draft others,
      segments (steps.map fun step => ⟨step, step.action.inner.map build⟩) = .scan draft :: others := by
    unfold Starts at starts
    split at starts
    · exact ScanDraft.head_fuse _ _
    · exact ScanDraft.head_fuse _ _
    · cases starts
  rw [Operator.ofPrepared, cut, mapM_eq_ok] at built
  cases built with
  | cons here rest =>
    obtain ⟨args, tag, same⟩ := simple_ofScan here
    subst same
    exact ⟨args, tag, _, rfl⟩

end Traversal

end TraversalPlanner
