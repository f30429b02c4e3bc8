import TraversalPlanner.Error
import TraversalPlanner.Operator.Basic
import TraversalPlanner.Traversal.Basic

/-! A traversal cut into segments, one for each operator. A scan takes in the filters that directly
follow it, as long as it can answer them by a look-up or test them itself; a step that modulators can
modulate takes all that follow it; every other step stands alone. -/

namespace TraversalPlanner

/-- A step together with what the traversals nested in it have become. -/
structure Prepared where
  step : Step
  inner : List (Except Error (List Operator))

structure Modulator where
  modifier : Modifier
  order : Option String
  tag : Option String

/-- A scan with the filters it has taken in: labels and ids become look-ups, `residue` is tested. -/
structure ScanDraft where
  target : ElementKind
  labels : List String
  ids : List Literal
  residue : List Filter
  tag : Option String

inductive Segment where
  | scan (draft : ScanDraft)
  | single (prepared : Prepared)
  | modulated (action : Action) (tag : Option String) (modulators : List Modulator)
  | stray (index : Nat)

namespace ScanDraft

def start (target : ElementKind) (ids : List Literal) (tag : Option String) : ScanDraft :=
  { target, labels := [], ids, residue := [], tag }

def labelName? : Literal → Option String
  | .text name => some name
  | _ => none

/-- The labels a constant names: one text, or a list of nothing but texts. -/
def labelNames : Literal → List String
  | .text name => [name]
  | .list items => (items.mapM labelName?).getD []
  | _ => []

/-- The ids a constant names: the members of a list, or the constant itself. -/
def idValues : Literal → List Literal
  | .list items => items
  | value => [value]

/-- A filter becomes a look-up if it asks for equality or membership and the scan does not look labels
or ids up already. A look-up of nothing would ask for everything, so it stays a test. -/
def takeFilter (draft : ScanDraft) (filter : Filter) : ScanDraft :=
  let tested := { draft with residue := draft.residue ++ [filter] }
  match filter.test with
  | none => tested
  | some test =>
    if test.comparator ≠ .eq ∧ test.comparator ≠ .within then tested
    else if filter.key = "~label" ∧ draft.labels.isEmpty ∧ !(labelNames test.value).isEmpty then
      { draft with labels := labelNames test.value }
    else if filter.key = "~id" ∧ draft.ids.isEmpty ∧ !(idValues test.value).isEmpty then
      { draft with ids := idValues test.value }
    else tested

/-- Takes in a filter step. The scan has one alias, which names its elements whichever filter wrote it;
a second one is not taken in. -/
def take? (draft : ScanDraft) (step : Step) : Option ScanDraft :=
  if draft.tag.isSome ∧ step.tag.isSome then none
  else
    let tag := draft.tag.or step.tag
    match step.action with
    | .has filters => some { filters.foldl takeFilter draft with tag }
    | .hasLabel labels =>
      if draft.labels.isEmpty ∧ !labels.isEmpty then some { draft with labels, tag } else none
    | .hasId ids => if draft.ids.isEmpty ∧ !ids.isEmpty then some { draft with ids, tag } else none
    | _ => none

/-- A scan before the segments of the steps that follow it. -/
def fuse (draft : ScanDraft) : List Segment → List Segment
  | .single prepared :: rest =>
    match draft.take? prepared.step with
    | some wider => wider.fuse rest
    | none => .scan draft :: .single prepared :: rest
  | rest => .scan draft :: rest

end ScanDraft

namespace Segment

/-- The modulators that no step has claimed yet, with their places, and the segments behind them. -/
structure Tail where
  modulators : List (Modulator × Nat)
  segments : List Segment

def Tail.close (tail : Tail) : List Segment :=
  (tail.modulators.map fun (_, index) => Segment.stray index) ++ tail.segments

def push (prepared : Prepared) (index : Nat) (tail : Tail) : Tail :=
  let { action, tag } := prepared.step
  let claimed := { modulators := [], segments := .modulated action tag (tail.modulators.map Prod.fst) :: tail.segments }
  match action with
  | .by modifier order => { tail with modulators := ({ modifier, order, tag }, index) :: tail.modulators }
  | .vertices ids => { modulators := [], segments := (ScanDraft.start .vertex ids tag).fuse tail.close }
  | .edges ids => { modulators := [], segments := (ScanDraft.start .edge ids tag).fuse tail.close }
  | .whereTags .. => claimed
  | .order => claimed
  | .group => claimed
  | .groupCount => claimed
  | .dedup _ => claimed
  | .select _ => claimed
  | _ => { modulators := [], segments := .single prepared :: tail.close }

def ofSteps (index : Nat) : List Prepared → Tail
  | [] => { modulators := [], segments := [] }
  | prepared :: rest => push prepared index (ofSteps (index + 1) rest)

end Segment

def segments (steps : List Prepared) : List Segment := (Segment.ofSteps 0 steps).close

end TraversalPlanner
