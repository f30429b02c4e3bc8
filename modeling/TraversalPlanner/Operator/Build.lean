import TraversalPlanner.Expression.Condition
import TraversalPlanner.Expression.Naming
import TraversalPlanner.Operator.Segment

/-! The operators that a traversal asks for. -/

namespace TraversalPlanner

open Expression

namespace Modulator

/-- Only orders are sorted by their modulators. -/
def refuseOrder (step : String) (modulator : Modulator) : Except Error Unit :=
  match modulator.order with
  | some order => .error (.unsupportedPattern (.modulatorOrder step order))
  | none => .ok ()

/-- The property that a modulator selects from the current element, if it selects one. -/
def key (step : String) (modulator : Modulator) : Except Error (Option String) :=
  match modulator.modifier with
  | .identity => .ok none
  | .key name => .ok (some name)
  | .values [name] => .ok (some name)
  | _ => .error (.unsupportedPattern (.modulatorForm step))

/-- The reference that a modulator stands for; it may select a tag. -/
def reference (step : String) (modulator : Modulator) : Except Error Variable :=
  match modulator.modifier with
  | .select tag (some property) => .ok (.ofTagKey (.name tag) property)
  | .select tag none => .ok (.ofTag (.name tag))
  | _ => do
    match ← modulator.key step with
    | some name => return .ofKey name
    | none => return .current

end Modulator

namespace Operator

def select (predicate : String) : OperatorArguments := .select (some predicate)

/-- No labels at all are no restriction. -/
def labelChoice (labels : List String) : Option (List Identifier) :=
  if labels.isEmpty then none else some (labels.map Identifier.name)

def expandArgs (direction : Direction) (isEdge : Bool) (labels : List String) : ExpandArguments :=
  { ExpandArguments.empty with direction := some direction, isEdge := some isEdge, labels := labelChoice labels }

def projectOne (expression : String) : OperatorArguments := .project (some [{ expression, tag := none }])

/-- The number of what comes in. The alias of the step names that number. -/
def countAll (tag : Option String) : OperatorArguments :=
  .groupBy (some []) (some [{
    inputs := []
    aggregate := .count
    tag := (tag.map Alias.written).getD (.derived groupValueName) }])

def ofScan (draft : ScanDraft) : Except Error Operator := do
  let predicates ← draft.residue.mapM ofFilter
  return {
    args := .scan { ScanArguments.empty with
      target := some draft.target
      labels := labelChoice draft.labels
      ids := if draft.ids.isEmpty then none else some draft.ids
      predicate := if predicates.isEmpty then none else some (conjunction predicates) }
    tag := draft.tag.map Alias.written }

/-- A step that stands alone. -/
def ofSingle (prepared : Prepared) : Except Error Operator := do
  let { action, tag } := prepared.step
  let named (args : OperatorArguments) : Operator := { args, tag := tag.map Alias.written }
  let applied (join : JoinKind) : Except Error Operator := do
    return named (.apply (some (← prepared.inner.mapM id).flatten) none (some join))
  match action with
  | .has filters => return named (select (← ofFilters filters))
  | .hasLabel labels => return named (select (ofLabels labels))
  | .hasId ids => return named (select (ofIds ids))
  | .adjacent direction labels edge =>
    return named (.expand (expandArgs (← Vocabulary.parse "Direction" direction) edge labels))
  | .edgeVertex direction => return named (.getVertex (some (← EdgeEnd.ofDirection direction)))
  | .otherVertex => return named (.getVertex (some .other))
  | .path direction labels lower upper whole =>
    let args := expandArgs (← Vocabulary.parse "Direction" direction) false labels
    return named (.pathExpand args (some lower) (some upper) whole)
  | .whereTraversal _ => applied .semi
  | .not _ => applied .anti
  | .apply _ join => applied (← Vocabulary.parse "JoinKind" join)
  | .union _ => return named (.union (some (← prepared.inner.mapM id)) none)
  | .limit count => return named (.limit (some 0) (some count))
  | .range lower upper => return named (.limit (some lower) (some upper))
  | .count => return unnamed (countAll tag)
  | .values [key] => return named (projectOne (Variable.ofKey key).render)
  | .values _ => throw (.unsupportedPattern .valuesArity)
  | .valueMap [] => throw (.unsupportedPattern .valueMapEmpty)
  | .valueMap keys => return named (projectOne (Projection.braces (keys.map Variable.ofKey)))
  | other => throw (.unsupportedStep other.name)

def ofWhere (start : Option String) (condition : TagCondition) (modulators : List Modulator) :
    Except Error OperatorArguments := do
  let keys ← modulators.mapM fun modulator => do
    modulator.refuseOrder "where"
    modulator.key "where"
  return select (Expression.ofWhere start condition keys)

/-- Without modulators the elements themselves are sorted. -/
def ofOrder (modulators : List Modulator) : Except Error OperatorArguments := do
  let keys ← modulators.mapM fun modulator => do
    let key ← modulator.reference "order"
    let order ← match modulator.order with
      | some word => Vocabulary.parse "Order" word
      | none => .ok SortOrder.ascending
    return ({ key, order } : SortKey)
  return .orderBy (some (if keys.isEmpty then [{ key := .current, order := .ascending }] else keys)) none none

def keyOfGroup (step : String) : Option Modulator → Except Error (GroupKey Alias)
  | none => .ok { key := .current, tag := .derived (groupKeyName .current) }
  | some modulator => do
    modulator.refuseOrder step
    let key ← modulator.reference step
    return { key, tag := (modulator.tag.map Alias.written).getD (.derived (groupKeyName key)) }

def valueOfGroup (modulator : Option Modulator) : Except Error (Aggregation Alias) := do
  let aggregate ← match modulator.map Modulator.modifier with
    | none | some .identity | some .fold => .ok Aggregate.toList
    | some .count => .ok .count
    | some _ => .error (.unsupportedPattern .groupValueForm)
  modulator.forM (Modulator.refuseOrder "group")
  return {
    inputs := []
    aggregate
    tag := ((modulator.bind Modulator.tag).map Alias.written).getD (.derived groupValueName) }

def ofGroup (modulators : List Modulator) : Except Error OperatorArguments := do
  if 2 < modulators.length then throw (.unsupportedPattern .groupForm)
  let key ← keyOfGroup "group" modulators[0]?
  let value ← valueOfGroup modulators[1]?
  return .groupBy (some [key]) (some [value])

def ofGroupCount (modulators : List Modulator) : Except Error OperatorArguments := do
  if 1 < modulators.length then throw (.unsupportedPattern .groupCountForm)
  let key ← keyOfGroup "groupCount" modulators[0]?
  return .groupBy (some [key]) (some [{ inputs := [], aggregate := .count, tag := .derived groupValueName }])

/-- The modulator whose turn it is at a place, if there are any. -/
def turnOf (modulators : List Modulator) (index : Nat) : Option Modulator := modulators[index % modulators.length]?

def tagReference (tag : String) : Option String → Variable
  | some key => .ofTagKey (.name tag) key
  | none => .ofTag (.name tag)

/-- Modulators qualify the tags in turn, or are the keys themselves where there are no tags. -/
def ofDedup (tags : List String) (modulators : List Modulator) : Except Error OperatorArguments := do
  modulators.forM (Modulator.refuseOrder "dedup")
  let keys ←
    if tags.isEmpty then modulators.mapM (Modulator.reference "dedup")
    else tags.zipIdx.mapM fun (tag, index) => do
      let key ← match turnOf modulators index with
        | some modulator => modulator.key "dedup"
        | none => .ok none
      return tagReference tag key
  return .dedup (some keys)

/-- What is projected for one selected tag: the tag itself, one of its properties, or several. -/
def selected (tag : String) : Option Modulator → Except Error String
  | none => .ok (Variable.ofTag (.name tag)).render
  | some modulator => do
    modulator.refuseOrder "select"
    match modulator.modifier with
    | .valueMap (key :: keys) => return Projection.braces ((key :: keys).map (Variable.ofTagKey (.name tag)))
    | _ => return (tagReference tag (← modulator.key "select")).render

/-- A single projection keeps its result unnamed, several get names of their own. -/
def ofSelect (tags : List String) (modulators : List Modulator) : Except Error OperatorArguments := do
  if tags.isEmpty then throw .selectWithoutTags
  let expressions ← tags.zipIdx.mapM fun (tag, index) => selected tag (turnOf modulators index)
  match expressions with
  | [expression] => return projectOne expression
  | _ =>
    let columns ← expressions.mapM fun expression => do
      let name ← nameOfProjection expression
      return ({ expression, tag := some (.derived name) } : Projected Alias)
    return .project (some columns)

def ofModulated (action : Action) (modulators : List Modulator) : Except Error OperatorArguments :=
  match action with
  | .whereTags start condition => ofWhere start condition modulators
  | .order => ofOrder modulators
  | .group => ofGroup modulators
  | .groupCount => ofGroupCount modulators
  | .dedup tags => ofDedup tags modulators
  | .select tags => ofSelect tags modulators
  | other => .error (.unsupportedStep other.name)

def ofSegment : Segment → Except Error Operator
  | .scan draft => ofScan draft
  | .single prepared => ofSingle prepared
  | .modulated action tag modulators => do
    return { args := ← ofModulated action modulators, tag := tag.map Alias.written }
  | .stray index => .error (.unsupportedPattern (.strayModulator index))

def ofPrepared (steps : List Prepared) : Except Error (List Operator) := (segments steps).mapM ofSegment

end Operator

namespace Traversal

mutual
/-- Builds the traversals nested in each step. -/
def prepare : List Step → List Prepared
  | [] => []
  | step :: rest => ⟨step, prepareStep step⟩ :: prepare rest
termination_by structural steps => steps

def prepareStep : Step → List (Except Error (List Operator))
  | ⟨action, _⟩ => prepareAction action
termination_by structural step => step

def prepareAction : Action → List (Except Error (List Operator))
  | .whereTraversal inner => [Operator.ofPrepared (prepare inner)]
  | .not inner => [Operator.ofPrepared (prepare inner)]
  | .apply inner _ => [Operator.ofPrepared (prepare inner)]
  | .union branches => prepareBranches branches
  | _ => []
termination_by structural action => action

def prepareBranches : List (List Step) → List (Except Error (List Operator))
  | [] => []
  | branch :: rest => Operator.ofPrepared (prepare branch) :: prepareBranches rest
termination_by structural branches => branches
end

/-- The operators of a traversal, or the first reason why it has none. -/
def build (traversal : Traversal) : Except Error (List Operator) := Operator.ofPrepared (prepare traversal)

theorem prepareBranches_eq (branches : List Traversal) : prepareBranches branches = branches.map build := by
  induction branches with
  | nil => rfl
  | cons branch rest step => simp only [prepareBranches, List.map_cons, step, build]

theorem prepareStep_eq (step : Step) : prepareStep step = step.action.inner.map build := by
  obtain ⟨action, tag⟩ := step
  cases action <;> simp only [prepareStep, prepareAction, Action.inner, prepareBranches_eq, List.map_cons,
    List.map_nil, build]

theorem build_eq (traversal : Traversal) :
    build traversal = Operator.ofPrepared (traversal.map fun step => ⟨step, step.action.inner.map build⟩) := by
  have prepared : ∀ steps : List Step, prepare steps = steps.map fun step => ⟨step, step.action.inner.map build⟩ := by
    intro steps
    induction steps with
    | nil => rfl
    | cons step rest tail => simp only [prepare, List.map_cons, tail, prepareStep_eq]
  rw [build, prepared]

end Traversal

end TraversalPlanner
