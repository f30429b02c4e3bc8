import TraversalPlanner.Proofs.ScanFusion

/-! Two traversals written one behind the other build what each of them builds, unless the second one begins with
a modulator, or with a filter that a look-up at the end of the first one takes in. A failure is that of the first
one that fails. -/

namespace TraversalPlanner

open Proofs Traversal

namespace ScanDraft

theorem take?_of_other {step : Step} (other : step.action.isFilter = false) (draft : ScanDraft) :
    draft.take? step = none := by
  cases taken : draft.take? step with
  | none => rfl
  | some wider =>
    have member : step ∈ draft.taken [step] := by simp only [ScanDraft.taken, taken, List.mem_singleton]
    have filter := isFilter_of_taken member
    rw [other] at filter
    cases filter

theorem residue_take? {draft wider : ScanDraft} {step : Step} (taken : draft.take? step = some wider) :
    ∃ tested, wider.residue = draft.residue ++ tested := by
  obtain ⟨tested, _, same⟩ := draft.residue_filled [step]
  simp only [filled, taken] at same
  exact ⟨tested, same⟩

/-- A scan tests what it has tested before it takes in more. -/
theorem residue_fuse (draft : ScanDraft) (segments : List Segment) :
    ∃ wider rest tested, draft.fuse segments = .scan wider :: rest ∧ wider.residue = draft.residue ++ tested := by
  induction segments generalizing draft with
  | nil => exact ⟨draft, _, [], rfl, (List.append_nil _).symm⟩
  | cons segment segments step =>
    cases segment with
    | single prepared =>
      rw [fuse]
      cases taken : draft.take? prepared.step with
      | none => exact ⟨draft, _, [], rfl, (List.append_nil _).symm⟩
      | some wider =>
        obtain ⟨widest, rest, later, fused, same⟩ := step wider
        obtain ⟨tested, first⟩ := residue_take? taken
        exact ⟨widest, rest, tested ++ later, fused, by rw [same, first, List.append_assoc]⟩
    | _ => exact ⟨draft, _, [], rfl, (List.append_nil _).symm⟩

/-- A scan is stopped by one of the segments behind it, or takes them all in and goes on behind them. -/
theorem fuse_append (draft : ScanDraft) (segments : List Segment) :
    (∀ later, draft.fuse (segments ++ later) = draft.fuse segments ++ later) ∨
      ∃ wider, draft.fuse segments = [.scan wider] ∧ ∀ later, draft.fuse (segments ++ later) = wider.fuse later := by
  induction segments generalizing draft with
  | nil => exact .inr ⟨draft, rfl, fun _ => rfl⟩
  | cons segment segments step =>
    cases segment with
    | single prepared =>
      simp only [List.cons_append, fuse]
      cases draft.take? prepared.step with
      | none => exact .inl fun _ => rfl
      | some wider => exact step wider
    | _ => exact .inl fun _ => rfl

end ScanDraft

namespace Segment

/-- The segment of a traversal that a number of steps stand before. -/
def behind (distance : Nat) : Segment → Segment
  | .stray index => .stray (distance + index)
  | segment => segment

theorem fuse_behind (distance : Nat) (draft : ScanDraft) (segments : List Segment) :
    draft.fuse (segments.map (behind distance)) = (draft.fuse segments).map (behind distance) := by
  induction segments generalizing draft with
  | nil => rfl
  | cons segment segments step =>
    cases segment with
    | single prepared =>
      simp only [List.map_cons, behind, ScanDraft.fuse]
      cases draft.take? prepared.step with
      | none => rfl
      | some wider => exact step wider
    | _ => rfl

def Tail.behind (distance : Nat) (tail : Tail) : Tail :=
  { modulators := tail.modulators.map fun (modulator, index) => (modulator, distance + index)
    segments := tail.segments.map (Segment.behind distance) }

theorem close_behind (distance : Nat) (tail : Tail) :
    (tail.behind distance).close = tail.close.map (Segment.behind distance) := by
  simp [Tail.close, Tail.behind, Segment.behind]

theorem push_behind (distance : Nat) (prepared : Prepared) (index : Nat) (tail : Tail) :
    push prepared (distance + index) (tail.behind distance) = (push prepared index tail).behind distance := by
  obtain ⟨⟨action, tag⟩, inner⟩ := prepared
  cases action with
  | vertices | edges =>
    simp only [push, close_behind, fuse_behind]
    rfl
  | «by» => rfl
  | whereTags | order | group | groupCount | dedup | select => simp [push, Tail.behind, Segment.behind]
  | _ =>
    simp only [push, close_behind]
    rfl

theorem ofSteps_behind (distance index : Nat) (steps : List Prepared) :
    ofSteps (distance + index) steps = (ofSteps index steps).behind distance := by
  induction steps generalizing index with
  | nil => rfl
  | cons prepared rest step => rw [ofSteps, ofSteps, ← push_behind, Nat.add_assoc, step]

/-- Segments go on with later ones: behind them, or with what is left of those when the scan that ends them has
taken in what it can. -/
inductive Onward (later : List Segment) : List Segment → List Segment → Prop
  | parted (segments : List Segment) : Onward later segments (segments ++ later)
  | widened (front : List Segment) (draft : ScanDraft) :
      Onward later (front ++ [.scan draft]) (front ++ draft.fuse later)

namespace Onward

variable {later one joint : List Segment}

theorem append (onward : Onward later one joint) (front : List Segment) :
    Onward later (front ++ one) (front ++ joint) := by
  cases onward with
  | parted =>
    rw [← List.append_assoc]
    exact .parted _
  | widened others draft =>
    rw [← List.append_assoc, ← List.append_assoc]
    exact .widened _ draft

theorem fuse (onward : Onward later one joint) (draft : ScanDraft) :
    Onward later (draft.fuse one) (draft.fuse joint) := by
  cases onward with
  | parted =>
    obtain stopped | ⟨wider, fused, goes⟩ := draft.fuse_append one
    · rw [stopped]
      exact .parted _
    · rw [fused, goes]
      exact .widened [] wider
  | widened front last =>
    obtain stopped | ⟨wider, _, goes⟩ := draft.fuse_append front
    · rw [stopped, stopped]
      exact .widened _ last
    · obtain ⟨widest, rest, fused⟩ := last.head_fuse later
      -- Two scans behind each other stay apart.
      have apart : wider.fuse (last.fuse later) = .scan wider :: last.fuse later := by rw [fused]; rfl
      rw [goes, goes, apart]
      exact .widened [.scan wider] last

end Onward

structure Tail.Onward (later : List Segment) (one joint : Tail) : Prop where
  modulators : joint.modulators = one.modulators
  segments : Segment.Onward later one.segments joint.segments

theorem onward_close {later : List Segment} {one joint : Tail} (onward : Tail.Onward later one joint) :
    Onward later one.close joint.close := by
  rw [Tail.close, Tail.close, onward.modulators]
  exact onward.segments.append _

theorem onward_push {later : List Segment} {one joint : Tail} (onward : Tail.Onward later one joint)
    (prepared : Prepared) (index : Nat) : Tail.Onward later (push prepared index one) (push prepared index joint) := by
  obtain ⟨⟨action, tag⟩, inner⟩ := prepared
  cases action with
  | vertices | edges => exact ⟨rfl, (onward_close onward).fuse _⟩
  | «by» => exact ⟨congrArg (_ :: ·) onward.modulators, onward.segments⟩
  | whereTags | order | group | groupCount | dedup | select =>
    refine ⟨rfl, ?_⟩
    simp only [push, onward.modulators]
    exact onward.segments.append [_]
  | _ => exact ⟨rfl, (onward_close onward).append [_]⟩

theorem onward_ofSteps {later : List Segment} {back : List Prepared} (front : List Prepared) (index : Nat)
    (starts : ofSteps (index + front.length) back = { modulators := [], segments := later }) :
    Tail.Onward later (ofSteps index front) (ofSteps index (front ++ back)) := by
  induction front generalizing index with
  | nil =>
    rw [List.length_nil, Nat.add_zero] at starts
    rw [List.nil_append, starts]
    exact ⟨rfl, .parted []⟩
  | cons prepared rest step =>
    refine onward_push (step (index + 1) ?_) prepared index
    rw [← starts, List.length_cons]
    congr 1
    omega

end Segment

namespace Operator

open Segment

/-- A scan that cannot be written is none that could be written with more filters. -/
theorem fuse_fails {draft : ScanDraft} {error : Error} (failed : ofScan draft = .error error) (later : List Segment) :
    (draft.fuse later).mapM ofSegment = .error error := by
  obtain ⟨wider, rest, tested, fused, same⟩ := draft.residue_fuse later
  have unwritten : draft.residue.mapM Expression.ofFilter = .error error := by
    rcases bind_eq_error.mp failed with here | ⟨_, _, never⟩
    · exact here
    · cases never
  have wide : ofScan wider = .error error := by
    rw [ofScan, same, List.mapM_append, unwritten]
    rfl
  rw [fused, List.mapM_cons, ofSegment, wide]
  rfl

/-- A scan at the end takes nothing in of what is behind it. -/
def Closed (segments later : List Segment) : Prop :=
  ∀ front draft, segments = front ++ [.scan draft] → draft.fuse later = .scan draft :: later

theorem mapM_onward {later one joint : List Segment} (onward : Onward later one joint)
    (closed : ∀ earlier, one.mapM ofSegment = .ok earlier → Closed one later) :
    joint.mapM ofSegment = do
      let earlier ← one.mapM ofSegment
      let others ← later.mapM ofSegment
      return earlier ++ others := by
  cases onward with
  | parted => rw [List.mapM_append]
  | widened front draft =>
    cases written : ofScan draft with
    | ok operator =>
      cases first : front.mapM ofSegment with
      | ok earlier =>
        have last : (front ++ [Segment.scan draft]).mapM ofSegment = .ok (earlier ++ [operator]) := by
          rw [List.mapM_append, first, List.mapM_cons, ofSegment, written]
          rfl
        rw [closed _ last front draft rfl, List.append_cons, List.mapM_append]
      | error error =>
        rw [List.mapM_append, List.mapM_append, first]
        rfl
    | error error =>
      rw [List.mapM_append, List.mapM_append, fuse_fails written, List.mapM_cons, ofSegment, written]
      cases front.mapM ofSegment <;> rfl

end Operator

/-- The error of a traversal that a number of steps stand before. -/
inductive Error.Behind (distance : Nat) : Error → Error → Prop
  | same (error : Error) : Behind distance error error
  | place (index : Nat) : Behind distance (.unsupportedPattern (.strayModulator index))
      (.unsupportedPattern (.strayModulator (distance + index)))

namespace Operator

inductive Behind (distance : Nat) : Except Error (List Operator) → Except Error (List Operator) → Prop
  | ok (operators : List Operator) : Behind distance (.ok operators) (.ok operators)
  | error {error moved : Error} (behind : error.Behind distance moved) : Behind distance (.error error) (.error moved)

theorem mapM_behind (distance : Nat) (segments : List Segment) :
    Behind distance (segments.mapM ofSegment) ((segments.map (Segment.behind distance)).mapM ofSegment) := by
  induction segments with
  | nil => exact .ok []
  | cons segment segments step =>
    have rest (made : ofSegment (segment.behind distance) = ofSegment segment) :
        Behind distance ((segment :: segments).mapM ofSegment)
          (((segment :: segments).map (Segment.behind distance)).mapM ofSegment) := by
      rw [List.map_cons, List.mapM_cons, List.mapM_cons, made]
      cases ofSegment segment with
      | error error => exact .error (.same error)
      | ok operator =>
        generalize segments.mapM ofSegment = here, (segments.map _).mapM ofSegment = there at step
        cases step with
        | ok operators => exact .ok (operator :: operators)
        | error behind => exact .error behind
    cases segment with
    | stray index => exact .error (.place index)
    | scan | single | modulated => exact rest rfl

end Operator

namespace Traversal

/-- What comes second begins neither with a modulator nor, behind a scan, with a filter. -/
def Apart (front back : Traversal) : Prop :=
  ∀ step rest, back = step :: rest →
    (∀ modifier order, step.action ≠ .by modifier order) ∧
      ∀ earlier args tag, build front = .ok (earlier ++ [⟨.scan args, tag⟩]) → step.action.isFilter = false

variable {front back : Traversal}

theorem modulators_of_apart (apart : Apart front back) : modulators back = [] := by
  cases back with
  | nil => rfl
  | cons step rest =>
    obtain ⟨other, _⟩ := apart step rest rfl
    unfold modulators
    split
    · next modifier order role =>
      cases action : step.action with
      | «by» modifier order => exact absurd action (other modifier order)
      | _ => rw [action] at role; cases role
    · rfl

theorem fuse_of_other {step : Step} (other : step.action.isFilter = false) (rest : List Step) (draft : ScanDraft) :
    draft.fuse (segments ((step :: rest).map Step.prepared)) =
      .scan draft :: segments ((step :: rest).map Step.prepared) := by
  obtain ⟨first, others, same, alone | ⟨other, _⟩⟩ := Segment.head_segments step.prepared (rest.map Step.prepared)
  · rw [List.map_cons, same, alone, ScanDraft.fuse]
    simp only [Step.prepared, ScanDraft.take?_of_other other]
  · rw [List.map_cons, same]
    cases first with
    | single prepared => exact absurd rfl (other prepared)
    | _ => rfl

theorem build_segments (steps : List Step) :
    build steps = (segments (steps.map Step.prepared)).mapM Operator.ofSegment :=
  build_eq steps

theorem closed_of_apart (apart : Apart front back) {earlier : List Operator} (built : build front = .ok earlier) :
    Operator.Closed (segments (front.map Step.prepared))
      ((segments (back.map Step.prepared)).map (Segment.behind front.length)) := by
  intro others draft ends
  rw [Segment.fuse_behind]
  cases back with
  | nil => rfl
  | cons step rest =>
    have made : (others ++ [Segment.scan draft]).mapM Operator.ofSegment = .ok earlier := by
      rw [← ends, ← built, build_segments]
    rw [List.mapM_append] at made
    obtain ⟨first, _, made⟩ := bind_eq_ok.mp made
    obtain ⟨last, scanned, same⟩ := bind_eq_ok.mp made
    cases same
    cases mapM_eq_ok.mp scanned with
    | cons scan none =>
      cases none
      obtain ⟨args, _, rfl⟩ := ScanDraft.ofScan_eq_ok scan
      rw [fuse_of_other ((apart step rest rfl).2 first args _ built)]
      rfl

/-- The second traversal builds what it builds alone, and the first one what it builds before an end. -/
theorem build_joint (apart : Apart front back) : ∃ others, Operator.Behind front.length (build back) others ∧
    build (front ++ back) = do
      let earlier ← build front
      let later ← others
      return earlier ++ later := by
  have behind := Operator.mapM_behind front.length (segments (back.map Step.prepared))
  rw [← build_segments] at behind
  refine ⟨_, behind, ?_⟩
  have unclaimed : (Segment.ofSteps 0 (back.map Step.prepared)).modulators = [] := by
    have same := (Segment.reads_ofSteps 0 back).modulators
    rwa [modulators_of_apart apart, List.map_eq_nil_iff] at same
  have starts : Segment.ofSteps (0 + (front.map Step.prepared).length) (back.map Step.prepared) =
      { modulators := [], segments := (segments (back.map Step.prepared)).map (Segment.behind front.length) } := by
    rw [Nat.add_comm, Segment.ofSteps_behind, List.length_map, Segment.Tail.behind, segments, Segment.Tail.close,
      unclaimed]
    rfl
  have onward := Segment.onward_close (Segment.onward_ofSteps (front.map Step.prepared) 0 starts)
  rw [← List.map_append] at onward
  rw [build_segments (front ++ back), build_segments front]
  refine Operator.mapM_onward onward fun earlier built => ?_
  rw [← build_segments] at built
  exact closed_of_apart apart built

end Traversal

namespace ScanDraft

theorem whole_taken (draft : ScanDraft) (steps : List Step) :
    draft.filled (draft.taken steps) = draft.filled steps ∧ draft.left (draft.taken steps) = [] := by
  induction steps generalizing draft with
  | nil => exact ⟨rfl, rfl⟩
  | cons step rest tail =>
    cases took : draft.take? step with
    | none => simp only [taken, filled, left, took, and_self]
    | some wider =>
      simp only [taken, filled, left, took]
      exact tail wider

end ScanDraft

namespace Traversal

theorem modulators_split (steps : List Step) : ∃ front, steps = front ++ behindModulators steps ∧
    modulators front = modulators steps ∧ behindModulators front = [] := by
  induction steps with
  | nil => exact ⟨[], rfl, rfl, rfl⟩
  | cons step rest tail =>
    obtain ⟨front, same, read, whole⟩ := tail
    cases role : step.action.role with
    | modulator modifier order =>
      refine ⟨step :: front, ?_, ?_, ?_⟩
      · simp only [behindModulators, role, List.cons_append, ← same]
      · simp only [modulators, role, read]
      · simp only [behindModulators, role, whole]
    | _ => exact ⟨[], by simp only [behindModulators, role, List.nil_append], by simp only [modulators, role], rfl⟩

end Traversal

namespace Cuts

/-- Each step is part of one segment, and the segments are in the order of the steps. -/
theorem blocks {steps : List Step} {segments : List Segment} (cut : Cuts steps segments) :
    ∃ blocks : List (List Step), blocks.flatten = steps ∧
      List.Forall₂ (fun block segment => block ≠ [] ∧ Cuts block [segment]) blocks segments := by
  induction cut with
  | done => exact ⟨[], rfl, .nil⟩
  | @scan step rest target ids segments role later tail =>
    obtain ⟨blocks, same, each⟩ := tail
    obtain ⟨filled, left⟩ := (ScanDraft.start target ids step.tag).whole_taken rest
    have block := Cuts.scan role (left ▸ Cuts.done)
    rw [filled] at block
    refine ⟨(step :: (ScanDraft.start target ids step.tag).taken rest) :: blocks, ?_, .cons ⟨by simp, block⟩ each⟩
    rw [List.flatten_cons, same, List.cons_append, ScanDraft.taken_append_left]
  | @modulated step rest segments role later tail =>
    obtain ⟨blocks, same, each⟩ := tail
    obtain ⟨front, whole, read, none⟩ := modulators_split rest
    have block := Cuts.modulated role (none ▸ Cuts.done)
    rw [read] at block
    refine ⟨(step :: front) :: blocks, ?_, .cons ⟨by simp, block⟩ each⟩
    rw [List.flatten_cons, same, List.cons_append, ← whole]
  | @single step rest segments role later tail =>
    obtain ⟨blocks, same, each⟩ := tail
    exact ⟨[step] :: blocks, congrArg (step :: ·) same, .cons ⟨by simp, .single role .done⟩ each⟩
  | @stray step rest modifier order segments index role later tail =>
    obtain ⟨blocks, same, each⟩ := tail
    exact ⟨[step] :: blocks, congrArg (step :: ·) same, .cons ⟨by simp, .stray index role .done⟩ each⟩

end Cuts

namespace Traversal

/-- The traversal is made of parts in their order, each of which builds one of the operators. -/
def Consumed (traversal : Traversal) (operators : List Operator) : Prop :=
  ∃ blocks : List Traversal, blocks.flatten = traversal ∧
    List.Forall₂ (fun block operator => block ≠ [] ∧ build block = .ok [operator]) blocks operators

theorem consumed_of_built {traversal : Traversal} {operators : List Operator}
    (built : build traversal = .ok operators) : Consumed traversal operators := by
  obtain ⟨segments, cut, made⟩ := build_eq_ok.mp built
  obtain ⟨blocks, same, each⟩ := cut.blocks
  refine ⟨blocks, same, ?_⟩
  rw [mapM_eq_ok] at made
  clear same cut built
  induction each generalizing operators with
  | nil =>
    cases made
    exact .nil
  | cons here _ step =>
    cases made with
    | cons first others =>
      exact .cons ⟨here.1, build_eq_ok.mpr ⟨_, here.2, mapM_eq_ok.mpr (.cons first .nil)⟩⟩ (step others)

/-- The traversals build apart from each other what they build together. -/
structure Composes (front back : Traversal) : Prop where
  builds : ∀ operators, build (front ++ back) = .ok operators ↔
    ∃ earlier later, build front = .ok earlier ∧ build back = .ok later ∧ operators = earlier ++ later
  first : ∀ error, build front = .error error → build (front ++ back) = .error error
  second : ∀ earlier error, build front = .ok earlier → build back = .error error →
    ∃ moved, error.Behind front.length moved ∧ build (front ++ back) = .error moved
  consumed : ∀ operators, build (front ++ back) = .ok operators → Consumed (front ++ back) operators

/-- What a traversal builds is settled by what its parts build. -/
theorem composes_of_apart {front back : Traversal} (apart : Apart front back) : Composes front back := by
  obtain ⟨others, behind, joint⟩ := build_joint apart
  refine ⟨fun operators => ?_, fun error failed => ?_, fun earlier error built failed => ?_, fun _ => consumed_of_built⟩
  · rw [joint]
    constructor
    · intro built
      obtain ⟨earlier, first, built⟩ := bind_eq_ok.mp built
      obtain ⟨later, second, same⟩ := bind_eq_ok.mp built
      cases same
      generalize build back = alone at behind ⊢
      cases behind with
      | ok => exact ⟨earlier, later, first, second, rfl⟩
      | error => cases second
    · intro given
      obtain ⟨earlier, later, first, second, rfl⟩ := given
      rw [second] at behind
      cases behind
      rw [first]
      rfl
  · rw [joint, failed]
    rfl
  · rw [failed] at behind
    cases behind with
    | @error _ moved behind =>
      rw [joint, built]
      exact ⟨moved, behind, rfl⟩

def farEnds : Traversal := [⟨.edges [], some "e"⟩, ⟨.otherVertex, none⟩]

def oldest : Traversal := [⟨.hasLabel ["person"], none⟩, ⟨.order, none⟩, ⟨.by (.key "age") (some "desc"), none⟩]

/-- The filter is not the look-up's, for there is a step between them. -/
theorem composes_far_ends : Apart farEnds oldest ∧ Composes farEnds oldest := by
  have apart : Apart farEnds oldest := by
    intro step rest same
    cases same
    refine ⟨nofun, fun earlier args tag built => ?_⟩
    have last : build farEnds = .ok _ := rfl
    rw [last] at built
    have ends := congrArg (·.toOption.bind List.getLast?) built
    simp [Except.toOption] at ends
  exact ⟨apart, composes_of_apart apart⟩

end Traversal

end TraversalPlanner
