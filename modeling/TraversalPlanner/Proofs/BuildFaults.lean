import TraversalPlanner.Proofs.BuiltOperators

/-! Why a traversal cannot be built. It is one of its steps, or of the steps nested in them, that is at fault; there
is no plan yet that could refuse anything. -/

namespace TraversalPlanner

open Proofs

/-- It blames a step. -/
def Error.AboutStep : Error → Prop
  | .illegalSlot .. => True
  | .selectWithoutTags => True
  | .unsupportedStep _ => True
  | .unsupportedPattern _ => True
  | .invalidWord .. => True
  | _ => False

theorem Vocabulary.parse_fails {α : Type} [Vocabulary α] (vocabulary text : String) :
    Fails (parse vocabulary text : Except Error α) Error.AboutStep := by
  unfold parse
  split
  · exact .ok _
  · exact .error trivial

theorem EdgeEnd.ofDirection_fails (text : String) : Fails (ofDirection text) Error.AboutStep := by
  unfold ofDirection
  split
  · exact .ok _
  · exact .ok _
  · exact .error trivial

namespace Expression

theorem ofTest_fails (subject : String) (test : Test) : Fails (ofTest subject test) Error.AboutStep := by
  unfold ofTest
  split
  · exact .ok _
  · exact .ok _
  · exact .error trivial
  · exact .error trivial
  · exact .ok _

theorem ofFilter_fails (filter : Filter) : Fails (ofFilter filter) Error.AboutStep := by
  unfold ofFilter
  split
  · exact ofTest_fails _ _
  · exact .ok _

theorem nameOfGroup_fails (text : String) (references : List Variable) :
    Fails (nameOfGroup text references) Error.AboutStep := by
  refine Fails.bind (.mapM fun reference _ => ?_) fun properties => ?_
  · split
    · exact .ok _
    · exact .error trivial
  · split
    · exact .ok _
    · exact .ok _

theorem nameOfProjection_fails (text : String) : Fails (nameOfProjection text) Error.AboutStep := by
  unfold nameOfProjection
  split
  · exact .error trivial
  · exact nameOfGroup_fails text _
  · split
    · exact .ok _
    · exact .error trivial
    · exact .ok _

end Expression

namespace Modulator

variable {step : String}

theorem refuseOrder_fails (modulator : Modulator) : Fails (modulator.refuseOrder step) Error.AboutStep := by
  unfold refuseOrder
  split
  · exact .error trivial
  · exact .ok _

theorem key_fails (modulator : Modulator) : Fails (modulator.key step) Error.AboutStep := by
  unfold key
  split
  · exact .ok _
  · exact .ok _
  · exact .ok _
  · exact .error trivial

theorem reference_fails (modulator : Modulator) : Fails (modulator.reference step) Error.AboutStep := by
  unfold reference
  split
  · exact .ok _
  · exact .ok _
  · refine (key_fails modulator).bind fun name => ?_
    split
    · exact .ok _
    · exact .ok _

end Modulator

namespace Operator

open Expression

theorem ofScan_fails (draft : ScanDraft) : Fails (ofScan draft) Error.AboutStep :=
  (Fails.mapM fun filter _ => ofFilter_fails filter).bind fun _ => .ok _

theorem ofSingle_fails {prepared : Prepared}
    (nested : prepared.step.action.nests = true → ∀ result ∈ prepared.inner, Fails result Error.AboutStep) :
    Fails (ofSingle prepared) Error.AboutStep := by
  obtain ⟨⟨action, tag⟩, inner⟩ := prepared
  cases action with
  | has filters =>
    exact Fails.bind (.bind (.mapM fun filter _ => ofFilter_fails filter) fun _ => .ok _) fun _ => .ok _
  | adjacent => exact (Vocabulary.parse_fails _ _).bind fun _ => .ok _
  | edgeVertex => exact (EdgeEnd.ofDirection_fails _).bind fun _ => .ok _
  | path => exact (Vocabulary.parse_fails _ _).bind fun _ => .ok _
  | whereTraversal | not => exact (Fails.mapM (nested rfl)).bind fun _ => .ok _
  | apply => exact (Vocabulary.parse_fails _ _).bind fun _ => (Fails.mapM (nested rfl)).bind fun _ => .ok _
  | union => exact (Fails.mapM (nested rfl)).bind fun _ => .ok _
  | values keys =>
    match keys with
    | [] => exact .error trivial
    | [_] => exact .ok _
    | _ :: _ :: _ => exact .error trivial
  | valueMap keys =>
    cases keys with
    | nil => exact .error trivial
    | cons => exact .ok _
  | hasLabel | hasId | otherVertex | limit | range | count => exact .ok _
  | vertices | edges | whereTags | order | group | groupCount | dedup | select | «by» | unknown => exact .error trivial

theorem ofWhere_fails (start : Option String) (condition : TagCondition) (modulators : List Modulator) :
    Fails (ofWhere start condition modulators) Error.AboutStep :=
  (Fails.mapM fun modulator _ => modulator.refuseOrder_fails.bind fun _ => modulator.key_fails).bind fun _ => .ok _

theorem ofOrder_fails (modulators : List Modulator) : Fails (ofOrder modulators) Error.AboutStep := by
  refine (Fails.mapM fun modulator _ => modulator.reference_fails.bind fun key => ?_).bind fun _ => .ok _
  dsimp only
  split
  · exact (Vocabulary.parse_fails _ _).bind fun _ => .ok _
  · exact .ok _

theorem keyOfGroup_fails (step : String) (modulator : Option Modulator) :
    Fails (keyOfGroup step modulator) Error.AboutStep := by
  unfold keyOfGroup
  split
  · exact .ok _
  · next modulator => exact modulator.refuseOrder_fails.bind fun _ => modulator.reference_fails.bind fun _ => .ok _

theorem valueOfGroup_fails (modulator : Option Modulator) : Fails (valueOfGroup modulator) Error.AboutStep := by
  have ordered (modulator : Option Modulator) :
      Fails (modulator.forM (Modulator.refuseOrder "group") : Except Error PUnit) Error.AboutStep := by
    cases modulator with
    | none => exact .ok _
    | some modulator => exact modulator.refuseOrder_fails
  unfold valueOfGroup
  dsimp only
  split
  · exact (ordered _).bind fun _ => .ok _
  · exact (ordered _).bind fun _ => .ok _
  · exact (ordered _).bind fun _ => .ok _
  · exact (ordered _).bind fun _ => .ok _
  · exact .error trivial

theorem ofGroup_fails (modulators : List Modulator) : Fails (ofGroup modulators) Error.AboutStep := by
  unfold ofGroup
  split
  · exact .error trivial
  · exact (keyOfGroup_fails _ _).bind fun _ => (valueOfGroup_fails _).bind fun _ => .ok _

theorem ofGroupCount_fails (modulators : List Modulator) : Fails (ofGroupCount modulators) Error.AboutStep := by
  unfold ofGroupCount
  split
  · exact .error trivial
  · exact (keyOfGroup_fails _ _).bind fun _ => .ok _

theorem ofDedup_fails (tags : List String) (modulators : List Modulator) :
    Fails (ofDedup tags modulators) Error.AboutStep := by
  refine Fails.bind (.forM fun modulator _ => modulator.refuseOrder_fails) fun _ => ?_
  dsimp only
  split
  · exact (Fails.mapM fun modulator _ => modulator.reference_fails).bind fun _ => .ok _
  · refine (Fails.mapM fun (tag, index) _ => ?_).bind fun _ => .ok _
    dsimp only
    split
    · next modulator _ => exact modulator.key_fails.bind fun _ => .ok _
    · exact .ok _

theorem selected_fails (tag : String) (modulator : Option Modulator) : Fails (selected tag modulator) Error.AboutStep := by
  unfold selected
  split
  · exact .ok _
  · next modulator =>
    refine modulator.refuseOrder_fails.bind fun _ => ?_
    split
    · exact .ok _
    · exact modulator.key_fails.bind fun _ => .ok _

theorem ofSelect_fails (tags : List String) (modulators : List Modulator) :
    Fails (ofSelect tags modulators) Error.AboutStep := by
  unfold ofSelect
  split
  · exact .error trivial
  · refine Fails.bind (.mapM fun (tag, index) _ => selected_fails tag _) fun expressions => ?_
    split
    · exact .ok _
    · refine Fails.bind (.mapM fun expression _ => ?_) fun _ => .ok _
      exact (nameOfProjection_fails expression).bind fun _ => .ok _

theorem ofModulated_fails (action : Action) (modulators : List Modulator) :
    Fails (ofModulated action modulators) Error.AboutStep := by
  unfold ofModulated
  split
  · exact ofWhere_fails _ _ modulators
  · exact ofOrder_fails modulators
  · exact ofGroup_fails modulators
  · exact ofGroupCount_fails modulators
  · exact ofDedup_fails _ modulators
  · exact ofSelect_fails _ modulators
  · exact .error trivial

theorem ofSegment_fails {segment : Segment} (nested : ∀ prepared, segment = .single prepared →
    prepared.step.action.nests = true → ∀ result ∈ prepared.inner, Fails result Error.AboutStep) :
    Fails (ofSegment segment) Error.AboutStep := by
  cases segment with
  | scan draft => exact ofScan_fails draft
  | single prepared => exact ofSingle_fails (nested prepared rfl)
  | modulated action tag modulators => exact (ofModulated_fails action modulators).bind fun _ => .ok _
  | stray index => exact .error trivial

end Operator

namespace Traversal

private theorem build_fails_of_inner {steps : List Step}
    (inner : ∀ step ∈ steps, ∀ nested ∈ step.action.inner, Fails (build nested) Error.AboutStep) :
    Fails (build steps) Error.AboutStep := by
  rw [build_eq]
  refine .mapM fun segment member => Operator.ofSegment_fails fun prepared same nests => ?_
  subst same
  rcases Segment.origin_of_single member with plain | known
  · rw [nests] at plain
    cases plain
  · obtain ⟨step, there, same⟩ := List.mem_map.mp known
    subst same
    exact List.forall_mem_map.mpr fun nested within => inner step there nested within

/-- A traversal that cannot be built has a step at fault. -/
theorem build_fails (traversal : Traversal) : Fails traversal.build Error.AboutStep := by
  have every : ∀ traversal : Traversal, Fails traversal.build Error.AboutStep :=
    nested_induction fun _ inner => build_fails_of_inner inner
  exact every traversal

end Traversal

end TraversalPlanner
