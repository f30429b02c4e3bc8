import TraversalPlanner.Operator.Build

/-! What is nested, at any depth: traversals in the steps of a traversal, and the operators of sub-plans and
branches in the operators of a plan. Both are listed with the outermost first. -/

namespace TraversalPlanner

/-- The traversal of a modulator. -/
def Modifier.inner : Modifier → List Traversal
  | .traversal inner => [inner]
  | _ => []

/-- The traversals nested in a step, modulators included. -/
def Action.nested : Action → List Traversal
  | .by modifier _ => modifier.inner
  | action => action.inner

theorem Action.inner_subset_nested (action : Action) : action.inner ⊆ action.nested := by
  cases action <;> simp [inner, nested]

namespace Traversal

mutual
/-- The traversals nested in the steps and in each other. -/
def within : List Step → List (List Step)
  | [] => []
  | step :: rest => withinStep step ++ within rest
termination_by structural steps => steps

def withinStep : Step → List (List Step)
  | ⟨action, _⟩ => withinAction action
termination_by structural step => step

def withinAction : Action → List (List Step)
  | .whereTraversal inner => inner :: within inner
  | .not inner => inner :: within inner
  | .apply inner _ => inner :: within inner
  | .union branches => withinBranches branches
  | _ => []
termination_by structural action => action

def withinBranches : List (List Step) → List (List Step)
  | [] => []
  | branch :: rest => branch :: within branch ++ withinBranches rest
termination_by structural branches => branches
end

/-- The traversal itself and all that are nested in it. -/
def parts (traversal : Traversal) : List Traversal := traversal :: within traversal

theorem withinBranches_eq (branches : List Traversal) : withinBranches branches = branches.flatMap parts := by
  induction branches with
  | nil => rfl
  | cons branch rest step => rw [withinBranches, step, List.flatMap_cons, parts]

theorem withinStep_eq (step : Step) : withinStep step = step.action.inner.flatMap parts := by
  obtain ⟨action, tag⟩ := step
  cases action <;> simp [withinStep, withinAction, withinBranches_eq, Action.inner, parts]

theorem within_cons (step : Step) (rest : List Step) :
    within (step :: rest) = step.action.inner.flatMap parts ++ within rest := by
  rw [within, withinStep_eq]

section

variable {holds : Traversal → Prop}

/-- A traversal has the property if those nested in its steps and modulators do. -/
private def Rises (holds : Traversal → Prop) : Prop :=
  ∀ steps : List Step, (∀ step ∈ steps, ∀ inner ∈ step.action.nested, holds inner) → holds steps

mutual
private theorem holds_in_steps (rise : Rises holds) (steps : List Step) :
    ∀ step ∈ steps, ∀ inner ∈ step.action.nested, holds inner := by
  match steps with
  | [] => exact fun _ member => absurd member List.not_mem_nil
  | step :: rest => exact List.forall_mem_cons.mpr ⟨holds_in_step rise step, holds_in_steps rise rest⟩
termination_by structural steps

private theorem holds_in_step (rise : Rises holds) (step : Step) : ∀ inner ∈ step.action.nested, holds inner := by
  match step with
  | ⟨action, _⟩ => exact holds_in_action rise action
termination_by structural step

private theorem holds_in_action (rise : Rises holds) (action : Action) : ∀ inner ∈ action.nested, holds inner := by
  match action with
  | .whereTraversal inner => exact List.forall_mem_singleton.mpr (rise inner (holds_in_steps rise inner))
  | .not inner => exact List.forall_mem_singleton.mpr (rise inner (holds_in_steps rise inner))
  | .apply inner _ => exact List.forall_mem_singleton.mpr (rise inner (holds_in_steps rise inner))
  | .union branches => exact holds_in_branches rise branches
  | .by modifier _ => exact holds_in_modifier rise modifier
  | .vertices _ | .edges _ | .has _ | .hasLabel _ | .hasId _ | .adjacent .. | .edgeVertex _ | .otherVertex | .path ..
  | .whereTags .. | .limit _ | .range .. | .order | .group | .groupCount | .count | .dedup _ | .select _ | .values _
  | .valueMap _ | .unknown _ => exact fun _ member => absurd member List.not_mem_nil
termination_by structural action

private theorem holds_in_modifier (rise : Rises holds) (modifier : Modifier) :
    ∀ inner ∈ modifier.inner, holds inner := by
  match modifier with
  | .traversal inner => exact List.forall_mem_singleton.mpr (rise inner (holds_in_steps rise inner))
  | .identity | .key _ | .values _ | .valueMap _ | .select .. | .count | .fold =>
    exact fun _ member => absurd member List.not_mem_nil
termination_by structural modifier

private theorem holds_in_branches (rise : Rises holds) (branches : List (List Step)) :
    ∀ branch ∈ branches, holds branch := by
  match branches with
  | [] => exact fun _ member => absurd member List.not_mem_nil
  | branch :: rest =>
    exact List.forall_mem_cons.mpr ⟨rise branch (holds_in_steps rise branch), holds_in_branches rise rest⟩
termination_by structural branches
end

/-- What holds of a traversal if it holds of those nested in its steps and modulators holds of all. -/
theorem deep_induction
    (rise : ∀ steps : List Step, (∀ step ∈ steps, ∀ inner ∈ step.action.nested, holds inner) → holds steps)
    (traversal : Traversal) : holds traversal :=
  rise traversal (holds_in_steps rise traversal)

end

/-- What holds of a traversal if it holds of those nested in its steps holds of all. -/
theorem nested_induction {holds : Traversal → Prop}
    (rise : ∀ steps : List Step, (∀ step ∈ steps, ∀ inner ∈ step.action.inner, holds inner) → holds steps)
    (traversal : Traversal) : holds traversal :=
  deep_induction (fun steps each => rise steps fun step member inner inside =>
    each step member inner (step.action.inner_subset_nested inside)) traversal

end Traversal

namespace Operator

/-- The operators of the sub-plan or of the branches. -/
def inner : Operator → List (List Operator)
  | ⟨.apply (some sub) _ _, _⟩ => [sub]
  | ⟨.union (some branches) _, _⟩ => branches
  | _ => []

mutual
def levelsWithin : List Operator → List (List Operator)
  | [] => []
  | operator :: rest => levelsOf operator ++ levelsWithin rest
termination_by structural operators => operators

def levelsOf : Operator → List (List Operator)
  | ⟨.apply (some sub) _ _, _⟩ => sub :: levelsWithin sub
  | ⟨.union (some branches) _, _⟩ => levelsOfBranches branches
  | _ => []
termination_by structural operator => operator

def levelsOfBranches : List (List Operator) → List (List Operator)
  | [] => []
  | branch :: rest => branch :: levelsWithin branch ++ levelsOfBranches rest
termination_by structural branches => branches
end

/-- The operators themselves, and those of each sub-plan and branch in them. -/
def levels (operators : List Operator) : List (List Operator) := operators :: levelsWithin operators

theorem levelsOfBranches_eq (branches : List (List Operator)) : levelsOfBranches branches = branches.flatMap levels := by
  induction branches with
  | nil => rfl
  | cons branch rest step => rw [levelsOfBranches, step, List.flatMap_cons, levels]

theorem levelsOf_eq (operator : Operator) : levelsOf operator = operator.inner.flatMap levels := by
  unfold inner
  split
  · rw [levelsOf, List.flatMap_singleton, levels]
  · rw [levelsOf, levelsOfBranches_eq]
  · next noApply noUnion => rw [levelsOf.eq_3 operator noApply noUnion, List.flatMap_nil]

theorem levelsWithin_cons (operator : Operator) (rest : List Operator) :
    levelsWithin (operator :: rest) = operator.inner.flatMap levels ++ levelsWithin rest := by
  rw [levelsWithin, levelsOf_eq]

end Operator

end TraversalPlanner
