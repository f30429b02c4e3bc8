import TraversalPlanner.Proofs.Cuts

/-! Where in a traversal the steps stand that become operators of their own. A filter does so where no scan takes
it in. -/

namespace TraversalPlanner

namespace ScanDraft

theorem left_append_taken (draft : ScanDraft) (steps rest : List Step) :
    draft.left (draft.taken steps ++ rest) = (draft.filled steps).left rest := by
  induction steps generalizing draft with
  | nil => rfl
  | cons step steps tail =>
    cases took : draft.take? step with
    | none => simp only [taken, filled, took, List.nil_append]
    | some wider => simp only [taken, filled, took, List.cons_append, left, tail wider]

theorem role_of_taken {draft : ScanDraft} {steps : List Step} {step : Step} (member : step ∈ draft.taken steps) :
    step.action.role = .single := by
  obtain ⟨_, _, took⟩ := exists_take?_of_taken member
  exact role_of_take? took

/-- What the scan leaves begins with a step that it cannot take in. -/
theorem refused_of_left {draft : ScanDraft} {steps rest : List Step} {step : Step} (left : draft.left steps = step :: rest) :
    (draft.filled steps).take? step = none := by
  induction steps generalizing draft with
  | nil => cases left
  | cons first later tail =>
    cases took : draft.take? first with
    | none =>
      simp only [ScanDraft.left, took, List.cons.injEq] at left
      simp only [filled, took, ← left.1]
    | some wider =>
      simp only [ScanDraft.left, took] at left
      simp only [filled, took]
      exact tail left

/-- A scan that has taken in all that it can takes in nothing more. -/
theorem left_of_left {draft : ScanDraft} {steps before after : List Step} {step : Step}
    (left : draft.left steps = before ++ step :: after) :
    (draft.filled steps).left (before ++ [step]) = before ++ [step] := by
  cases before with
  | nil => simp only [List.nil_append, ScanDraft.left, refused_of_left left]
  | cons first before => simp only [List.cons_append, ScanDraft.left, refused_of_left left]

end ScanDraft

namespace Traversal

/-- A scan has taken in the step and all that stands between the two. -/
def Fused (before : List Step) (step : Step) : Prop :=
  ∃ earlier look between target ids, before = earlier ++ look :: between ∧ look.action.role = .lookup target ids ∧
    (ScanDraft.start target ids look.tag).left (between ++ [step]) = []

theorem fused_behind {front before : List Step} {step : Step}
    (apart : ∀ step ∈ front, ∀ target ids, step.action.role ≠ .lookup target ids) (fused : Fused (front ++ before) step) :
    Fused before step := by
  induction front with
  | nil => exact fused
  | cons first front tail =>
    obtain ⟨first, others⟩ := List.forall_mem_cons.mp apart
    obtain ⟨earlier, look, between, target, ids, same, role, taken⟩ := fused
    cases earlier with
    | nil =>
      cases (List.cons.inj same).1
      exact absurd role (first target ids)
    | cons _ earlier => exact tail others ⟨earlier, look, between, target, ids, (List.cons.inj same).2, role, taken⟩

/-- A scan takes in nothing of what it has once left to others. -/
theorem fused_behind_scan {look step : Step} {target : ElementKind} {ids : List Literal} {rest before after : List Step}
    (role : look.action.role = .lookup target ids)
    (left : (ScanDraft.start target ids look.tag).left rest = before ++ step :: after)
    (fused : Fused (look :: (ScanDraft.start target ids look.tag).taken rest ++ before) step) : Fused before step := by
  obtain ⟨earlier, other, between, target', ids', same, role', all⟩ := fused
  cases earlier with
  | nil =>
    have next : (ScanDraft.start target ids look.tag).taken rest ++ before = between := (List.cons.inj same).2
    cases (List.cons.inj same).1
    cases role.symm.trans role'
    rw [← next, List.append_assoc, ScanDraft.left_append_taken, ScanDraft.left_of_left left] at all
    simp at all
  | cons _ earlier =>
    have later : Fused _ _ := ⟨earlier, other, between, target', ids', (List.cons.inj same).2, role', all⟩
    refine fused_behind (fun step member target ids lookup => ?_) later
    cases (ScanDraft.role_of_taken member).symm.trans lookup

end Traversal

open Traversal

/-- What segments say of the traversal that they are cut from. -/
def Stands (steps : List Step) : Segment → Prop
  | .single prepared =>
    ∃ before step after, steps = before ++ step :: after ∧ prepared = step.prepared ∧ ¬ Fused before step
  | .modulated action tag claimed =>
    ∃ before step after, steps = before ++ step :: after ∧ action = step.action ∧ tag = step.tag ∧ claimed = modulators after
  | _ => True

private theorem Stands.behind {rest : List Step} {segment : Segment} (stands : Stands rest segment) (front : List Step)
    (apart : ∀ before step after, rest = before ++ step :: after → Fused (front ++ before) step → Fused before step) :
    Stands (front ++ rest) segment := by
  cases segment with
  | single =>
    obtain ⟨before, step, after, same, prepared, unfused⟩ := stands
    exact ⟨front ++ before, step, after, by simp [same], prepared, mt (apart before step after same) unfused⟩
  | modulated =>
    obtain ⟨before, step, after, same, claims⟩ := stands
    exact ⟨front ++ before, step, after, by simp [same], claims⟩
  | _ => trivial

theorem Cuts.stands {steps : List Step} {segments : List Segment} (cut : Cuts steps segments) :
    ∀ segment ∈ segments, Stands steps segment := by
  induction cut with
  | done => simp
  | @scan step rest target ids segments role _ tail =>
    refine List.forall_mem_cons.mpr ⟨trivial, fun segment member => ?_⟩
    have split : step :: rest = (step :: (ScanDraft.start target ids step.tag).taken rest) ++
        (ScanDraft.start target ids step.tag).left rest := congrArg _ (ScanDraft.taken_append_left _ rest).symm
    rw [split]
    exact (tail segment member).behind _ fun _ _ _ => fused_behind_scan role
  | @modulated step rest segments role _ tail =>
    refine List.forall_mem_cons.mpr ⟨⟨[], step, rest, rfl, rfl, rfl, rfl⟩, fun segment member => ?_⟩
    obtain ⟨front, split, each⟩ := behindModulators_split rest
    rw [split]
    refine (tail segment member).behind (step :: front) fun before _ _ _ => fused_behind ?_
    refine List.forall_mem_cons.mpr ⟨fun _ _ lookup => ?_, fun step member _ _ lookup => ?_⟩
    · cases role.symm.trans lookup
    · obtain ⟨modifier, word, modulates⟩ := each step member
      cases modulates.symm.trans lookup
  | @single step rest segments role _ tail =>
    refine List.forall_mem_cons.mpr ⟨⟨[], step, rest, rfl, rfl, ?_⟩, fun segment member => ?_⟩
    · intro fused
      obtain ⟨earlier, look, between, _, _, same, _⟩ := fused
      simp at same
    · refine (tail segment member).behind [step] fun before _ _ _ => fused_behind ?_
      refine List.forall_mem_singleton.mpr fun _ _ lookup => ?_
      cases role.symm.trans lookup
  | @stray step rest modifier word segments index role _ tail =>
    refine List.forall_mem_cons.mpr ⟨trivial, fun segment member => ?_⟩
    refine (tail segment member).behind [step] fun before _ _ _ => fused_behind ?_
    refine List.forall_mem_singleton.mpr fun _ _ lookup => ?_
    cases role.symm.trans lookup

namespace Traversal

open Proofs

/-- A step that takes modulators takes those behind it, and becomes an operator. -/
theorem modulated_of_built {before after : List Step} {step : Step} {operators : List Operator}
    (role : step.action.role = .modulated) (built : build (before ++ step :: after) = .ok operators) :
    ∃ args, Operator.ofModulated step.action (modulators after) = .ok args ∧
      ⟨args, step.tag.map Alias.written⟩ ∈ operators := by
  have fresh : Fresh (step :: after) := by
    refine ⟨fun _ _ modulates => ?_, fun draft => ?_⟩
    · cases role.symm.trans modulates
    · cases taken : draft.take? step with
      | none => rfl
      | some wider => cases role.symm.trans (ScanDraft.role_of_take? taken)
  obtain ⟨earlier, later, _, second, whole⟩ := build_append fresh built
  obtain ⟨segments, cut, made⟩ := build_eq_ok.mp second
  cases cut with
  | modulated _ _ =>
    obtain ⟨operator, member, done⟩ := mapM_result made List.mem_cons_self
    obtain ⟨args, wrote, same⟩ := bind_eq_ok.mp done
    cases same
    exact ⟨args, wrote, whole ▸ List.mem_append_right _ member⟩
  | scan again | single again | stray _ again => cases role.symm.trans again

end Traversal

end TraversalPlanner
