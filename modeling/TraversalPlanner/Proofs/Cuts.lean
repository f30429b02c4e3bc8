import TraversalPlanner.Proofs.BuiltOperators

/-! A traversal is cut from its front: a look-up takes in the filters behind it, a step that can be modulated
takes its modulators, and every other step stands alone. Where the cut goes on with a step that neither a scan
nor a modulated step can take in, it goes on as if that step were the first. -/

namespace TraversalPlanner

open Proofs

/-- What a step is to the cut. -/
inductive Role where
  | lookup (target : ElementKind) (ids : List Literal)
  | modulated
  | modulator (modifier : Modifier) (order : Option String)
  | single

def Action.role : Action → Role
  | .vertices ids => .lookup .vertex ids
  | .edges ids => .lookup .edge ids
  | .whereTags .. => .modulated
  | .order => .modulated
  | .group => .modulated
  | .groupCount => .modulated
  | .dedup _ => .modulated
  | .select _ => .modulated
  | .by modifier word => .modulator modifier word
  | _ => .single

/-- The step with what the traversals nested in it have become. -/
def Step.prepared (step : Step) : Prepared := ⟨step, step.action.inner.map Traversal.build⟩

namespace Traversal

/-- The modulators that a traversal begins with. -/
def modulators : List Step → List Modulator
  | [] => []
  | step :: rest =>
    match step.action.role with
    | .modulator modifier order => { modifier, order, tag := step.tag } :: modulators rest
    | _ => []

def behindModulators : List Step → List Step
  | [] => []
  | step :: rest =>
    match step.action.role with
    | .modulator _ _ => behindModulators rest
    | _ => step :: rest

theorem behindModulators_split (steps : List Step) :
    ∃ front, steps = front ++ behindModulators steps ∧
      ∀ step ∈ front, ∃ modifier word, step.action.role = .modulator modifier word := by
  induction steps with
  | nil => exact ⟨[], rfl, nofun⟩
  | cons step rest tail =>
    unfold behindModulators
    split
    · next modifier word role =>
      obtain ⟨front, same, each⟩ := tail
      exact ⟨step :: front, congrArg _ same, List.forall_mem_cons.mpr ⟨⟨modifier, word, role⟩, each⟩⟩
    · exact ⟨[], rfl, nofun⟩

theorem behindModulators_suffix (steps : List Step) : behindModulators steps <:+ steps := by
  obtain ⟨front, same, _⟩ := behindModulators_split steps
  exact ⟨front, same.symm⟩

theorem behindModulators_eq_self {steps : List Step} (none : modulators steps = []) : behindModulators steps = steps := by
  cases steps with
  | nil => rfl
  | cons step rest =>
    unfold modulators at none
    unfold behindModulators
    split at none
    · cases none
    · rfl

end Traversal

namespace ScanDraft

/-- The steps that a scan takes in. -/
def taken (draft : ScanDraft) : List Step → List Step
  | [] => []
  | step :: rest =>
    match draft.take? step with
    | some wider => step :: wider.taken rest
    | none => []

/-- The steps that it leaves to others. -/
def left (draft : ScanDraft) : List Step → List Step
  | [] => []
  | step :: rest =>
    match draft.take? step with
    | some wider => wider.left rest
    | none => step :: rest

/-- The scan with all the steps that it takes in. -/
def filled (draft : ScanDraft) : List Step → ScanDraft
  | [] => draft
  | step :: rest =>
    match draft.take? step with
    | some wider => wider.filled rest
    | none => draft

theorem taken_append_left (draft : ScanDraft) (steps : List Step) : draft.taken steps ++ draft.left steps = steps := by
  induction steps generalizing draft with
  | nil => rfl
  | cons step rest tail =>
    unfold taken left
    cases draft.take? step with
    | none => rfl
    | some wider => exact congrArg (step :: ·) (tail wider)

theorem left_suffix (draft : ScanDraft) (steps : List Step) : draft.left steps <:+ steps :=
  ⟨draft.taken steps, draft.taken_append_left steps⟩

theorem exists_take?_of_taken {draft : ScanDraft} {steps : List Step} {step : Step} (member : step ∈ draft.taken steps) :
    ∃ narrower wider : ScanDraft, narrower.take? step = some wider := by
  induction steps generalizing draft with
  | nil => cases member
  | cons first rest tail =>
    cases took : draft.take? first with
    | none =>
      simp only [taken, took] at member
      cases member
    | some wider =>
      simp only [taken, took, List.mem_cons] at member
      rcases member with rfl | later
      · exact ⟨draft, wider, took⟩
      · exact tail later

/-- What taking in a step adds to a scan. -/
theorem take?_cases {draft wider : ScanDraft} {step : Step} (taken : draft.take? step = some wider) :
    wider.tag.toList = draft.tag.toList ++ step.tag.toList ∧
      ((∃ filters, step.action = .has filters ∧ wider = { filters.foldl takeFilter draft with tag := wider.tag }) ∨
        (∃ labels, step.action = .hasLabel labels ∧ draft.labels = [] ∧ labels ≠ [] ∧
          wider = { draft with labels, tag := wider.tag }) ∨
        ∃ ids, step.action = .hasId ids ∧ draft.ids = [] ∧ ids ≠ [] ∧ wider = { draft with ids, tag := wider.tag }) := by
  unfold take? at taken
  split at taken
  · cases taken
  · next apart =>
    have named : (draft.tag.or step.tag).toList = draft.tag.toList ++ step.tag.toList := by
      cases one : draft.tag with
      | none => simp
      | some tag =>
        cases two : step.tag with
        | none => simp
        | some other => exact absurd (by simp [one, two]) apart
    simp only at taken
    split at taken
    · next filters same =>
      cases taken
      exact ⟨named, .inl ⟨filters, same, rfl⟩⟩
    · next labels same =>
      split at taken
      · next fits =>
        cases taken
        exact ⟨named, .inr (.inl ⟨labels, same, by simpa using fits.1, by simpa using fits.2, rfl⟩)⟩
      · cases taken
    · next ids same =>
      split at taken
      · next fits =>
        cases taken
        exact ⟨named, .inr (.inr ⟨ids, same, by simpa using fits.1, by simpa using fits.2, rfl⟩)⟩
      · cases taken
    · cases taken

/-- A scan only takes in steps that would stand alone. -/
theorem role_of_take? {draft wider : ScanDraft} {step : Step} (taken : draft.take? step = some wider) :
    step.action.role = .single := by
  obtain ⟨_, ⟨_, same, _⟩ | ⟨_, same, _⟩ | ⟨_, same, _⟩⟩ := take?_cases taken
  all_goals rw [same]; rfl

theorem stops (draft : ScanDraft) {step : Step} {rest : List Step} (role : step.action.role ≠ .single) :
    draft.filled (step :: rest) = draft ∧ draft.left (step :: rest) = step :: rest := by
  cases taken : draft.take? step with
  | none => simp [filled, left, taken]
  | some wider => exact absurd (role_of_take? taken) role

end ScanDraft

namespace Traversal

/-- Neither a scan nor a modulated step takes in what it begins with. -/
def Fresh : List Step → Prop
  | [] => True
  | step :: _ =>
    (∀ modifier order, step.action.role ≠ .modulator modifier order) ∧ ∀ draft : ScanDraft, draft.take? step = none

theorem fresh_of_lookup {step : Step} {rest : List Step} {target : ElementKind} {ids : List Literal}
    (role : step.action.role = .lookup target ids) : Fresh (step :: rest) := by
  refine ⟨fun _ _ other => ?_, fun draft => ?_⟩
  · cases role.symm.trans other
  · cases taken : draft.take? step with
    | none => rfl
    | some wider => cases role.symm.trans (ScanDraft.role_of_take? taken)

theorem modulators_append {rest : List Step} (fresh : Fresh rest) (steps : List Step) :
    modulators (steps ++ rest) = modulators steps ∧ behindModulators (steps ++ rest) = behindModulators steps ++ rest := by
  induction steps with
  | nil =>
    cases rest with
    | nil => exact ⟨rfl, rfl⟩
    | cons step rest =>
      simp only [List.nil_append, modulators, behindModulators]
      split
      · next same => exact absurd same (fresh.1 _ _)
      · exact ⟨rfl, rfl⟩
  | cons step steps tail =>
    simp only [List.cons_append, modulators, behindModulators]
    split
    · exact ⟨congrArg _ tail.1, tail.2⟩
    · exact ⟨rfl, rfl⟩

theorem filled_append {rest : List Step} (fresh : Fresh rest) (draft : ScanDraft) (steps : List Step) :
    draft.filled (steps ++ rest) = draft.filled steps ∧ draft.left (steps ++ rest) = draft.left steps ++ rest := by
  induction steps generalizing draft with
  | nil =>
    cases rest with
    | nil => exact ⟨rfl, rfl⟩
    | cons step rest => simp [ScanDraft.filled, ScanDraft.left, fresh.2 draft]
  | cons step steps tail =>
    simp only [List.cons_append, ScanDraft.filled, ScanDraft.left]
    cases draft.take? step with
    | none => exact ⟨rfl, rfl⟩
    | some wider => exact tail wider

end Traversal

open Traversal

/-- Cutting a traversal from its front. The place that a modulator without a host is reported at is left open. -/
inductive Cuts : List Step → List Segment → Prop
  | done : Cuts [] []
  | scan {step rest target ids segments} (role : step.action.role = .lookup target ids)
      (later : Cuts ((ScanDraft.start target ids step.tag).left rest) segments) :
      Cuts (step :: rest) (.scan ((ScanDraft.start target ids step.tag).filled rest) :: segments)
  | modulated {step rest segments} (role : step.action.role = .modulated) (later : Cuts (behindModulators rest) segments) :
      Cuts (step :: rest) (.modulated step.action step.tag (modulators rest) :: segments)
  | single {step rest segments} (role : step.action.role = .single) (later : Cuts rest segments) :
      Cuts (step :: rest) (.single step.prepared :: segments)
  | stray {step rest modifier order segments} (index : Nat) (role : step.action.role = .modulator modifier order)
      (later : Cuts rest segments) : Cuts (step :: rest) (.stray index :: segments)

namespace Segment

theorem push_eq (step : Step) (index : Nat) (tail : Tail) :
    push step.prepared index tail =
      match step.action.role with
      | .lookup target ids => { modulators := [], segments := (ScanDraft.start target ids step.tag).fuse tail.close }
      | .modulated =>
        { modulators := [],
          segments := .modulated step.action step.tag (tail.modulators.map Prod.fst) :: tail.segments }
      | .modulator modifier order =>
        { tail with modulators := ({ modifier, order, tag := step.tag }, index) :: tail.modulators }
      | .single => { modulators := [], segments := .single step.prepared :: tail.close } := by
  obtain ⟨action, tag⟩ := step
  cases action <;> rfl

/-- A scan that is put before some segments takes in the steps that they begin with. -/
theorem cuts_fuse {steps : List Step} {segments : List Segment} (cut : Cuts steps segments) (draft : ScanDraft) :
    ∃ rest, draft.fuse segments = .scan (draft.filled steps) :: rest ∧ Cuts (draft.left steps) rest := by
  induction cut generalizing draft with
  | done => exact ⟨[], rfl, .done⟩
  | @single step rest segments role later tail =>
    cases taken : draft.take? step with
    | none =>
      refine ⟨.single step.prepared :: segments, ?_, ?_⟩
      · simp only [ScanDraft.fuse, Step.prepared, ScanDraft.filled, taken]
      · simp only [ScanDraft.left, taken]
        exact .single role later
    | some wider =>
      simp only [ScanDraft.fuse, Step.prepared, ScanDraft.filled, ScanDraft.left, taken]
      exact tail wider
  | scan role later =>
    obtain ⟨same, left⟩ := draft.stops fun single => by cases role.symm.trans single
    rw [same, left]
    exact ⟨_, rfl, .scan role later⟩
  | modulated role later =>
    obtain ⟨same, left⟩ := draft.stops fun single => by cases role.symm.trans single
    rw [same, left]
    exact ⟨_, rfl, .modulated role later⟩
  | stray index role later =>
    obtain ⟨same, left⟩ := draft.stops fun single => by cases role.symm.trans single
    rw [same, left]
    exact ⟨_, rfl, .stray index role later⟩

/-- The modulators that no step has claimed are those that the steps begin with. -/
structure Tail.Reads (tail : Tail) (steps : List Step) : Prop where
  modulators : tail.modulators.map Prod.fst = Traversal.modulators steps
  segments : Cuts (behindModulators steps) tail.segments

private theorem cuts_close_settled {tail : Tail} {steps : List Step} (reads : tail.Reads steps)
    (none : Traversal.modulators steps = []) : Cuts steps tail.close := by
  have segments := reads.segments
  have empty := reads.modulators
  rw [none, List.map_eq_nil_iff] at empty
  rw [behindModulators_eq_self none] at segments
  simpa only [Tail.close, empty, List.map_nil, List.nil_append] using segments

theorem cuts_close {tail : Tail} {steps : List Step} (reads : tail.Reads steps) : Cuts steps tail.close := by
  induction steps generalizing tail with
  | nil => exact cuts_close_settled reads rfl
  | cons step rest later =>
    cases role : step.action.role with
    | modulator modifier order =>
      obtain ⟨claims, segments⟩ := tail
      have known := reads.modulators
      have cut := reads.segments
      simp only [Traversal.modulators, role] at known
      simp only [behindModulators, role] at cut
      obtain ⟨⟨_, index⟩, others, rfl, _, same⟩ := List.map_eq_cons_iff.mp known
      have reads : Tail.Reads ⟨others, segments⟩ rest := ⟨same, cut⟩
      exact .stray index role (later reads)
    | _ => exact cuts_close_settled reads (by simp only [Traversal.modulators, role])

theorem reads_ofSteps (index : Nat) (steps : List Step) : (ofSteps index (steps.map Step.prepared)).Reads steps := by
  induction steps generalizing index with
  | nil => exact ⟨rfl, .done⟩
  | cons step rest tail =>
    have later := tail (index + 1)
    rw [List.map_cons, ofSteps, push_eq]
    generalize ofSteps (index + 1) (rest.map Step.prepared) = unread at later ⊢
    cases role : step.action.role with
    | modulator modifier order =>
      simp only
      refine ⟨?_, ?_⟩
      · simp only [List.map_cons, Traversal.modulators, role, later.modulators]
      · simpa only [behindModulators, role] using later.segments
    | lookup target ids =>
      obtain ⟨segments, same, cut⟩ := cuts_fuse (cuts_close later) (ScanDraft.start target ids step.tag)
      simp only [same]
      refine ⟨?_, ?_⟩
      · simp only [List.map_nil, Traversal.modulators, role]
      · simpa only [behindModulators, role] using .scan role cut
    | modulated =>
      refine ⟨?_, ?_⟩
      · simp only [List.map_nil, Traversal.modulators, role]
      · simp only [behindModulators, role, later.modulators]
        exact .modulated role later.segments
    | single =>
      refine ⟨?_, ?_⟩
      · simp only [List.map_nil, Traversal.modulators, role]
      · simp only [behindModulators, role]
        exact .single role (cuts_close later)

end Segment

theorem cuts_segments (steps : List Step) : Cuts steps (segments (steps.map Step.prepared)) :=
  Segment.cuts_close (Segment.reads_ofSteps 0 steps)

namespace Cuts

variable {steps rest : List Step} {segments others : List Segment}

/-- There is one cut, but for the places of modulators without a host. -/
theorem unique (one : Cuts steps segments) (other : Cuts steps others) (hosted : ∀ index, Segment.stray index ∉ segments) :
    others = segments := by
  induction one generalizing others with
  | done => cases other; rfl
  | stray index => exact absurd List.mem_cons_self (hosted index)
  | scan role _ tail =>
    have hosted := fun index => mt (List.mem_cons_of_mem _) (hosted index)
    cases other with
    | scan again later =>
      cases role.symm.trans again
      exact congrArg _ (tail later hosted)
    | modulated again | single again | stray _ again => cases role.symm.trans again
  | modulated role _ tail =>
    have hosted := fun index => mt (List.mem_cons_of_mem _) (hosted index)
    cases other with
    | modulated _ later => exact congrArg _ (tail later hosted)
    | scan again | single again | stray _ again => cases role.symm.trans again
  | single role _ tail =>
    have hosted := fun index => mt (List.mem_cons_of_mem _) (hosted index)
    cases other with
    | single _ later => exact congrArg _ (tail later hosted)
    | scan again | modulated again | stray _ again => cases role.symm.trans again

/-- Behind a fresh step the cut starts anew. -/
theorem append (first : Cuts steps segments) (second : Cuts rest others) (fresh : Fresh rest) :
    Cuts (steps ++ rest) (segments ++ others) := by
  induction first with
  | done => exact second
  | @scan step steps target ids segments role _ tail =>
    obtain ⟨filled, left⟩ := filled_append fresh (ScanDraft.start target ids step.tag) steps
    rw [List.cons_append, List.cons_append, ← filled]
    exact .scan role (left ▸ tail)
  | modulated role _ tail =>
    obtain ⟨read, behind⟩ := modulators_append fresh _
    rw [List.cons_append, List.cons_append, ← read]
    exact .modulated role (behind ▸ tail)
  | single role _ tail => exact .single role tail
  | stray index role _ tail => exact .stray index role tail

theorem hosted_of_built {operators : List Operator} (built : segments.mapM Operator.ofSegment = .ok operators)
    (index : Nat) : Segment.stray index ∉ segments := by
  intro member
  obtain ⟨operator, _, made⟩ := mapM_result built member
  cases made

end Cuts

namespace Traversal

theorem build_eq_ok {steps : List Step} {operators : List Operator} :
    build steps = .ok operators ↔ ∃ segments, Cuts steps segments ∧ segments.mapM Operator.ofSegment = .ok operators := by
  have cut := cuts_segments steps
  have same : build steps = (segments (steps.map Step.prepared)).mapM Operator.ofSegment := build_eq steps
  rw [same]
  constructor
  · intro built
    exact ⟨_, cut, built⟩
  · intro given
    obtain ⟨segments, other, built⟩ := given
    rw [other.unique cut (Cuts.hosted_of_built built)]
    exact built

/-- Operators from before and from behind a fresh step have nothing to do with each other. -/
theorem build_append {steps rest : List Step} {operators : List Operator} (fresh : Fresh rest)
    (built : build (steps ++ rest) = .ok operators) :
    ∃ earlier later, build steps = .ok earlier ∧ build rest = .ok later ∧ operators = earlier ++ later := by
  obtain ⟨segments, cut, built⟩ := build_eq_ok.mp built
  have parts := (cuts_segments steps).append (cuts_segments rest) fresh
  rw [← cut.unique parts (Cuts.hosted_of_built built)] at built
  simp only [List.mapM_append, bind_eq_ok] at built
  obtain ⟨earlier, first, later, second, same⟩ := built
  cases same
  exact ⟨earlier, later, build_eq_ok.mpr ⟨_, cuts_segments steps, first⟩,
    build_eq_ok.mpr ⟨_, cuts_segments rest, second⟩, rfl⟩

/-- The operators are those of the traversal. -/
def BuildAs (traversal : Traversal) (operators : List Operator) : Prop := build traversal = .ok operators

private theorem inner_of_simple {operator : Operator} (simple : Operator.Simple operator.args) : operator.inner = [] := by
  unfold Operator.inner
  split
  · exact absurd rfl simple.apart
  · exact absurd rfl simple.single
  · rfl

private theorem inner_ofSegment {segment : Segment} {operator : Operator} (other : ∀ prepared, segment ≠ .single prepared)
    (built : Operator.ofSegment segment = .ok operator) : operator.inner = [] :=
  inner_of_simple (simple_ofSegment other built)

theorem inner_ofSingle {step : Step} {operator : Operator} (built : Operator.ofSingle step.prepared = .ok operator) :
    List.Forall₂ BuildAs step.action.inner operator.inner := by
  have each {lists : List (List Operator)} (inner : step.prepared.inner.mapM id = .ok lists) :
      List.Forall₂ BuildAs step.action.inner lists := by
    have each := mapM_eq_ok.mp inner
    rwa [Step.prepared, List.forall₂_map_left_iff] at each
  rcases Operator.ofSingle_cases built with ⟨simple, plain⟩ | ⟨sub, lists, join, tag, given, inner, same⟩ |
    ⟨branches, lists, tag, given, inner, same⟩
  · have none : step.action.inner = [] := Action.inner_of_plain plain
    rw [inner_of_simple simple, none]
    exact .nil
  · have one : step.action.inner = [sub] := Action.inner_of_sub? given
    have inner := each inner
    rw [one] at inner ⊢
    obtain ⟨operators, _, here, none, rfl⟩ := List.forall₂_cons_left_iff.mp inner
    cases none
    rw [same]
    exact .cons (by simpa using here) .nil
  · rw [same]
    exact each inner

theorem within_left (draft : ScanDraft) (steps : List Step) : within (draft.left steps) = within steps := by
  induction steps generalizing draft with
  | nil => rfl
  | cons step rest tail =>
    unfold ScanDraft.left
    cases taken : draft.take? step with
    | none => rfl
    | some wider =>
      rw [within_cons, Action.inner_of_plain (ScanDraft.nests_of_take? taken)]
      exact tail wider

theorem inner_of_role {action : Action} (role : action.role ≠ .single) : action.inner = [] := by
  cases action with
  | whereTraversal | not | apply | union => exact absurd rfl role
  | _ => rfl

theorem within_behindModulators (steps : List Step) : within (behindModulators steps) = within steps := by
  induction steps with
  | nil => rfl
  | cons step rest tail =>
    unfold behindModulators
    split
    · next role =>
      rw [within_cons, inner_of_role (by rw [role]; nofun)]
      exact tail
    · rfl

private def Levels (traversal : Traversal) : Prop :=
  ∀ operators, build traversal = .ok operators → List.Forall₂ BuildAs (parts traversal) (Operator.levels operators)

private theorem levels_of_inner {traversals : List Traversal} {lists : List (List Operator)}
    (inner : List.Forall₂ BuildAs traversals lists) (nested : ∀ traversal ∈ traversals, Levels traversal) :
    List.Forall₂ BuildAs (traversals.flatMap parts) (lists.flatMap Operator.levels) := by
  induction inner with
  | nil => exact .nil
  | cons built _ step =>
    obtain ⟨first, others⟩ := List.forall_mem_cons.mp nested
    rw [List.flatMap_cons, List.flatMap_cons]
    exact List.rel_append (first _ built) (step others)

/-- The operators of each nested traversal are known from what the step became that it is nested in. -/
private theorem levels_of_cut {steps : List Step} {segments : List Segment} {operators : List Operator}
    (cut : Cuts steps segments)
    (each : List.Forall₂ (fun segment operator => Operator.ofSegment segment = .ok operator) segments operators)
    (nested : ∀ step ∈ steps, ∀ inner ∈ step.action.inner, Levels inner) :
    List.Forall₂ BuildAs (within steps) (Operator.levelsWithin operators) := by
  induction cut generalizing operators with
  | done =>
    cases each
    exact .nil
  | @scan step rest target ids _ role _ tail =>
    cases each with
    | cons made each =>
      have later := tail each fun step member =>
        nested step (List.mem_cons_of_mem _ ((ScanDraft.left_suffix _ rest).mem member))
      rw [within_cons, inner_of_role (by rw [role]; nofun), Operator.levelsWithin_cons, inner_ofSegment (by simp) made]
      rwa [within_left] at later
  | @modulated step rest _ role _ tail =>
    cases each with
    | cons made each =>
      have later := tail each fun step member =>
        nested step (List.mem_cons_of_mem _ ((behindModulators_suffix rest).mem member))
      rw [within_cons, inner_of_role (by rw [role]; nofun), Operator.levelsWithin_cons, inner_ofSegment (by simp) made]
      rwa [within_behindModulators] at later
  | @single step rest _ role _ tail =>
    cases each with
    | cons made each =>
      have later := tail each fun step member => nested step (List.mem_cons_of_mem _ member)
      have here := nested step List.mem_cons_self
      rw [within_cons, Operator.levelsWithin_cons]
      exact List.rel_append (levels_of_inner (inner_ofSingle made) here) later
  | stray index =>
    cases each with
    | cons made _ => cases made

/-- Each traversal in a traversal builds, and the operators that it builds are those of a sub-plan or of a branch. -/
theorem builds_levels {traversal : Traversal} {operators : List Operator} (built : traversal.build = .ok operators) :
    List.Forall₂ BuildAs traversal.parts (Operator.levels operators) := by
  have every : ∀ traversal, Levels traversal := nested_induction fun steps nested operators built => by
    obtain ⟨segments, cut, made⟩ := build_eq_ok.mp built
    exact .cons built (levels_of_cut cut (mapM_eq_ok.mp made) nested)
  exact every traversal operators built

end Traversal

end TraversalPlanner
