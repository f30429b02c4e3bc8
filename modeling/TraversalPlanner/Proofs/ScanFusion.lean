import TraversalPlanner.Proofs.Lookups
import TraversalPlanner.Proofs.Standing

/-! A scan asks for the same elements as the look-up and the filters that it has taken in. Taking in one filter
adds what that filter asks for, as a look-up or as a test, and changes nothing that was asked before. -/

namespace TraversalPlanner

open Proofs

namespace Action

def isFilter : Action → Bool
  | .has _ => true
  | .hasLabel _ => true
  | .hasId _ => true
  | _ => false

def filters : Action → List Filter
  | .has filters => filters
  | _ => []

end Action

namespace ScanDraft

variable {ε : Type} {elements : Elements ε} {element : ε} {draft wider : ScanDraft}

/-- The scan asks for an element. -/
structure Asks (draft : ScanDraft) (elements : Elements ε) (element : ε) : Prop where
  labels : draft.labels ≠ [] → elements.LabelAmong element draft.labels
  ids : draft.ids ≠ [] → elements.IdAmong element draft.ids
  residue : ∀ filter ∈ draft.residue, elements.Passes element filter

theorem asks_takeFilter {filter : Filter} (plain : filter.Plain) :
    (draft.takeFilter filter).Asks elements element ↔ draft.Asks elements element ∧ elements.Passes element filter := by
  rw [takeFilter_eq]
  split
  · next looked =>
    rw [elements.passes_iff_label element plain looked.2]
    constructor
    · intro asks
      exact ⟨⟨fun some => absurd looked.1 some, asks.ids, asks.residue⟩, asks.labels looked.2⟩
    · intro asks
      exact ⟨fun _ => asks.2, asks.1.ids, asks.1.residue⟩
  · split
    · next looked =>
      rw [elements.passes_iff_id element plain looked.2]
      constructor
      · intro asks
        exact ⟨⟨asks.labels, fun some => absurd looked.1 some, asks.residue⟩, asks.ids looked.2⟩
      · intro asks
        exact ⟨asks.1.labels, fun _ => asks.2, asks.1.residue⟩
    · constructor
      · intro asks
        obtain ⟨before, here⟩ := List.forall_mem_append.mp asks.residue
        exact ⟨⟨asks.labels, asks.ids, before⟩, List.forall_mem_singleton.mp here⟩
      · intro asks
        have here := List.forall_mem_singleton.mpr asks.2
        exact ⟨asks.1.labels, asks.1.ids, List.forall_mem_append.mpr ⟨asks.1.residue, here⟩⟩

theorem asks_foldl {filters : List Filter} (plain : ∀ filter ∈ filters, filter.Plain) :
    (filters.foldl takeFilter draft).Asks elements element ↔
      draft.Asks elements element ∧ ∀ filter ∈ filters, elements.Passes element filter := by
  induction filters generalizing draft with
  | nil => simp
  | cons filter filters step =>
    obtain ⟨first, others⟩ := List.forall_mem_cons.mp plain
    rw [List.foldl_cons, step others, asks_takeFilter first, List.forall_mem_cons, and_assoc]

theorem asks_take? {step : Step} (plain : ∀ filter ∈ step.action.filters, filter.Plain)
    (taken : draft.take? step = some wider) :
    wider.Asks elements element ↔ draft.Asks elements element ∧ elements.PassesStep element step.action := by
  -- The alias of a scan does not matter to what it asks.
  have renamed {draft : ScanDraft} {tag : Option String} :
      ({ draft with tag } : ScanDraft).Asks elements element ↔ draft.Asks elements element :=
    ⟨fun asks => ⟨asks.labels, asks.ids, asks.residue⟩, fun asks => ⟨asks.labels, asks.ids, asks.residue⟩⟩
  obtain ⟨_, ⟨filters, same, become⟩ | ⟨labels, same, none, some, become⟩ | ⟨ids, same, none, some, become⟩⟩ :=
    take?_cases taken
  · rw [same] at plain ⊢
    rw [become, renamed]
    exact asks_foldl plain
  · rw [same, become]
    constructor
    · intro asks
      exact ⟨⟨fun some => absurd none some, asks.ids, asks.residue⟩, asks.labels some⟩
    · intro asks
      exact ⟨fun _ => asks.2, asks.1.ids, asks.1.residue⟩
  · rw [same, become]
    constructor
    · intro asks
      exact ⟨⟨asks.labels, fun some => absurd none some, asks.residue⟩, asks.ids some⟩
    · intro asks
      exact ⟨asks.1.labels, fun _ => asks.2, asks.1.residue⟩

/-- All that a scan asks for is what it has asked for and what the filters ask for that it has taken in. -/
theorem asks_filled {steps : List Step} (plain : ∀ filter ∈ (draft.taken steps).flatMap (·.action.filters), filter.Plain) :
    (draft.filled steps).Asks elements element ↔
      draft.Asks elements element ∧ ∀ step ∈ draft.taken steps, elements.PassesStep element step.action := by
  induction steps generalizing draft with
  | nil => simp [filled, taken]
  | cons step rest tail =>
    cases took : draft.take? step with
    | none => simp [filled, taken, took]
    | some wider =>
      simp only [taken, took, List.flatMap_cons, List.forall_mem_append] at plain
      simp only [filled, taken, took, List.forall_mem_cons]
      rw [tail plain.2, asks_take? plain.1 took, and_assoc]

private theorem residue_foldl (filters : List Filter) (draft : ScanDraft) :
    ∃ tested, tested.Sublist filters ∧ (filters.foldl takeFilter draft).residue = draft.residue ++ tested := by
  rw [foldl_takeFilter]
  refine ⟨_, ?_, rfl⟩
  have labels : (if draft.labels = [] then filters.eraseP Filter.asksLabels else filters).Sublist filters := by
    split
    · exact List.eraseP_sublist
    · exact List.Sublist.refl filters
  simp only
  split
  · exact List.eraseP_sublist.trans labels
  · exact labels

/-- What is left to test are filters that were taken in, in their order. -/
theorem residue_filled (draft : ScanDraft) (steps : List Step) :
    ∃ tested, tested.Sublist ((draft.taken steps).flatMap (·.action.filters)) ∧
      (draft.filled steps).residue = draft.residue ++ tested := by
  induction steps generalizing draft with
  | nil => exact ⟨[], .slnil, by simp [filled]⟩
  | cons step rest tail =>
    cases took : draft.take? step with
    | none => exact ⟨[], List.nil_sublist _, by simp [filled, took]⟩
    | some wider =>
      obtain ⟨later, within, same⟩ := tail wider
      simp only [filled, taken, took, List.flatMap_cons]
      obtain ⟨_, ⟨filters, has, become⟩ | ⟨labels, _, _, _, become⟩ | ⟨ids, _, _, _, become⟩⟩ := take?_cases took
      · obtain ⟨here, first, added⟩ := residue_foldl filters draft
        have start : wider.residue = draft.residue ++ here := by rw [become, ← added]
        refine ⟨here ++ later, ?_, by rw [same, start, List.append_assoc]⟩
        rw [has]
        exact first.append within
      · have start : wider.residue = draft.residue := by rw [become]
        exact ⟨later, List.sublist_append_of_sublist_right within, by rw [same, start]⟩
      · have start : wider.residue = draft.residue := by rw [become]
        exact ⟨later, List.sublist_append_of_sublist_right within, by rw [same, start]⟩

theorem target_filled (draft : ScanDraft) (steps : List Step) : (draft.filled steps).target = draft.target := by
  induction steps generalizing draft with
  | nil => rfl
  | cons step rest tail =>
    cases took : draft.take? step with
    | none => simp only [filled, took]
    | some wider =>
      simp only [filled, took]
      rw [tail wider]
      obtain ⟨_, ⟨filters, _, become⟩ | ⟨_, _, _, _, become⟩ | ⟨_, _, _, _, become⟩⟩ := take?_cases took
      · rw [become, foldl_takeFilter]
      · rw [become]
      · rw [become]

theorem tag_filled (draft : ScanDraft) (steps : List Step) :
    (draft.filled steps).tag.toList = draft.tag.toList ++ (draft.taken steps).filterMap Step.tag := by
  induction steps generalizing draft with
  | nil => simp [filled, taken]
  | cons step rest tail =>
    cases took : draft.take? step with
    | none => simp [filled, taken, took]
    | some wider =>
      simp only [filled, taken, took]
      rw [tail wider, (take?_cases took).1, List.append_assoc, List.filterMap_cons]
      cases step.tag <;> rfl

/-- A step is left to others for one of these reasons. -/
theorem refusal_of_take? {draft : ScanDraft} {step : Step} (refused : draft.take? step = none) :
    (draft.tag.isSome ∧ step.tag.isSome) ∨ step.action.isFilter = false ∨
      (∃ labels, step.action = .hasLabel labels ∧ (labels = [] ∨ draft.labels ≠ [])) ∨
      ∃ ids, step.action = .hasId ids ∧ (ids = [] ∨ draft.ids ≠ []) := by
  unfold take? at refused
  split at refused
  · next both => exact .inl both
  · simp only at refused
    split at refused
    · cases refused
    · next labels same =>
      split at refused
      · cases refused
      · next fits => exact .inr (.inr (.inl ⟨labels, same, by simpa [Classical.or_iff_not_imp_right] using fits⟩))
    · next ids same =>
      split at refused
      · cases refused
      · next fits => exact .inr (.inr (.inr ⟨ids, same, by simpa [Classical.or_iff_not_imp_right] using fits⟩))
    · next noHas noLabel noId =>
      refine .inr (.inl ?_)
      cases same : step.action with
      | has filters => exact absurd same (noHas filters)
      | hasLabel labels => exact absurd same (noLabel labels)
      | hasId ids => exact absurd same (noId ids)
      | _ => rfl

theorem isFilter_of_taken {draft : ScanDraft} {steps : List Step} {step : Step} (member : step ∈ draft.taken steps) :
    step.action.isFilter := by
  obtain ⟨_, _, took⟩ := exists_take?_of_taken member
  obtain ⟨_, ⟨_, same, _⟩ | ⟨_, same, _⟩ | ⟨_, same, _⟩⟩ := take?_cases took
  all_goals rw [same]; rfl

end ScanDraft

namespace ScanArguments

variable {ε : Type}

/-- The scan's predicate is that of the filters. -/
def Tests (args : ScanArguments) (filters : List Filter) : Prop :=
  ∃ text, Expression.ofFilters filters = .ok text ∧ args.predicate = if filters.isEmpty then none else some text

/-- The scan finds an element if it is among those that it looks up, and passes what it tests. -/
structure Finds (args : ScanArguments) (tested : List Filter) (elements : Elements ε) (element : ε) : Prop where
  labels : ∀ labels, args.labels = some labels → elements.LabelIn element labels
  ids : ∀ ids, args.ids = some ids → elements.IdAmong element ids
  tested : ∀ filter ∈ tested, elements.Passes element filter

/-- Steps that a scan takes nothing in of. -/
inductive Stop (args : ScanArguments) (tag : Option Alias) : List Step → Prop
  | done : Stop args tag []
  | other {step rest} (other : step.action.isFilter = false) : Stop args tag (step :: rest)
  | named {step rest} (first : tag.isSome) (second : step.tag.isSome) : Stop args tag (step :: rest)
  | noLabels {name rest} : Stop args tag (⟨.hasLabel [], name⟩ :: rest)
  | noIds {name rest} : Stop args tag (⟨.hasId [], name⟩ :: rest)
  | labels {labels name rest} (fixed : args.labels.isSome) : Stop args tag (⟨.hasLabel labels, name⟩ :: rest)
  | ids {ids name rest} (fixed : args.ids.isSome) : Stop args tag (⟨.hasId ids, name⟩ :: rest)

/-- The scan stands for a look-up and for the filters behind it. -/
structure StandsFor (args : ScanArguments) (tag : Option Alias) (target : ElementKind) (ids : List Literal)
    (name : Option String) (steps : List Step) : Prop where
  target : args.target = some target
  unlimited : args.limit = none
  filters : ∀ step ∈ steps, step.action.isFilter
  named : tag.toList = (name.toList ++ steps.filterMap Step.tag).map Alias.written
  tested : ∃ tested, tested.Sublist (steps.flatMap (·.action.filters)) ∧ args.Tests tested ∧
    ((∀ filter ∈ steps.flatMap (·.action.filters), filter.Plain) →
      ∀ {ε : Type} (elements : Elements ε) (element : ε), args.Finds tested elements element ↔
        (ids ≠ [] → elements.IdAmong element ids) ∧ ∀ step ∈ steps, elements.PassesStep element step.action)

end ScanArguments

namespace ScanDraft

variable {draft : ScanDraft} {operator : Operator}

/-- What the arguments of a scan say is what its draft says. -/
structure Writes (draft : ScanDraft) (args : ScanArguments) : Prop where
  target : args.target = some draft.target
  unlimited : args.limit = none
  labels : args.labels = Operator.labelChoice draft.labels
  ids : args.ids = if draft.ids.isEmpty then none else some draft.ids
  residue : args.Tests draft.residue

theorem ofScan_eq_ok (built : Operator.ofScan draft = .ok operator) :
    ∃ args, draft.Writes args ∧ operator = ⟨.scan args, draft.tag.map Alias.written⟩ := by
  unfold Operator.ofScan at built
  obtain ⟨predicates, written, same⟩ := bind_eq_ok.mp built
  cases same
  refine ⟨_, ⟨rfl, rfl, rfl, rfl, Expression.conjunction predicates, ?_, ?_⟩, rfl⟩
  · rw [Expression.ofFilters, written]
    rfl
  · have length := (mapM_eq_ok.mp written).length_eq
    simp only [List.isEmpty_iff, ← List.length_eq_zero_iff, length]

namespace Writes

variable {args : ScanArguments} (writes : draft.Writes args)

include writes

theorem labels_isSome : args.labels.isSome ↔ draft.labels ≠ [] := by
  rw [writes.labels, Operator.labelChoice]
  cases draft.labels <;> simp

theorem ids_isSome : args.ids.isSome ↔ draft.ids ≠ [] := by
  rw [writes.ids]
  cases draft.ids <;> simp

theorem finds_iff {ε : Type} (elements : Elements ε) (element : ε) :
    args.Finds draft.residue elements element ↔ draft.Asks elements element := by
  have labels : (∀ labels, args.labels = some labels → elements.LabelIn element labels) ↔
      (draft.labels ≠ [] → elements.LabelAmong element draft.labels) := by
    rw [writes.labels, Operator.labelChoice]
    cases draft.labels <;> simp [Elements.LabelIn, Elements.LabelAmong]
  have ids : (∀ ids, args.ids = some ids → elements.IdAmong element ids) ↔
      (draft.ids ≠ [] → elements.IdAmong element draft.ids) := by
    rw [writes.ids]
    cases draft.ids <;> simp
  exact ⟨fun finds => ⟨labels.mp finds.labels, ids.mp finds.ids, finds.tested⟩,
    fun asks => ⟨labels.mpr asks.labels, ids.mpr asks.ids, asks.residue⟩⟩

theorem stop_left {start : ScanDraft} {steps : List Step} (whole : start.filled steps = draft) :
    ScanArguments.Stop args (draft.tag.map Alias.written) (start.left steps) := by
  cases left : start.left steps with
  | nil => exact .done
  | cons step rest =>
    have refused := refused_of_left left
    rw [whole] at refused
    obtain ⟨action, name⟩ := step
    rcases refusal_of_take? refused with ⟨first, second⟩ | other | ⟨labels, same, reason⟩ | ⟨ids, same, reason⟩
    · exact .named (by rwa [Option.isSome_map]) second
    · exact .other other
    · cases same
      rcases reason with rfl | fixed
      · exact .noLabels
      · exact .labels (writes.labels_isSome.mpr fixed)
    · cases same
      rcases reason with rfl | fixed
      · exact .noIds
      · exact .ids (writes.ids_isSome.mpr fixed)

end Writes

theorem standsFor_of_writes {args : ScanArguments} {target : ElementKind} {ids : List Literal} {name : Option String}
    {steps : List Step} (writes : ((start target ids name).filled steps).Writes args) :
    args.StandsFor (((start target ids name).filled steps).tag.map Alias.written) target ids name
      ((start target ids name).taken steps) where
  target := by rw [writes.target, target_filled]; rfl
  unlimited := writes.unlimited
  filters _ member := isFilter_of_taken member
  named := by rw [Option.toList_map, tag_filled]; rfl
  tested := by
    obtain ⟨tested, among, same⟩ := residue_filled (start target ids name) steps
    have residue : ((start target ids name).filled steps).residue = tested := same
    refine ⟨tested, among, residue ▸ writes.residue, fun plain ε elements element => ?_⟩
    have asks : (start target ids name).Asks elements element ↔ (ids ≠ [] → elements.IdAmong element ids) :=
      ⟨fun asks => asks.ids, fun ids => ⟨fun some => absurd rfl some, ids, nofun⟩⟩
    rw [← residue, writes.finds_iff, asks_filled plain, asks]

end ScanDraft

namespace Traversal

/-- Wherever a traversal looks up vertices or edges there is a scan between the operators of what comes before and
those of what comes later, which stands for the look-up and for filters behind it, as many as it can take in. -/
theorem scan_stands_for_filters {traversal part : Traversal} {operators : List Operator}
    (built : traversal.build = .ok operators) (member : part ∈ traversal.parts) {before after : List Step} {step : Step}
    (place : part = before ++ step :: after) {target : ElementKind} {ids : List Literal}
    (role : step.action.role = .lookup target ids) :
    ∃ earlier args tag later filters rest,
      earlier ++ ⟨.scan args, tag⟩ :: later ∈ Operator.levels operators ∧ after = filters ++ rest ∧
        build before = .ok earlier ∧ build rest = .ok later ∧
        args.StandsFor tag target ids step.tag filters ∧ args.Stop tag rest := by
  obtain ⟨level, found, made⟩ := related_right (builds_levels built) member
  have made : build (before ++ step :: after) = .ok level := place ▸ made
  obtain ⟨earlier, later, first, second, rfl⟩ := build_append (fresh_of_lookup role) made
  obtain ⟨segments, cut, each⟩ := build_eq_ok.mp second
  cases cut with
  | modulated other | single other | stray _ other => cases role.symm.trans other
  | @scan _ _ _ _ segments again rest =>
    cases role.symm.trans again
    obtain ⟨_, later, scan, others, rfl⟩ := List.forall₂_cons_left_iff.mp (mapM_eq_ok.mp each)
    obtain ⟨args, writes, rfl⟩ := ScanDraft.ofScan_eq_ok scan
    exact ⟨earlier, args, _, later, _, _, found, (ScanDraft.taken_append_left _ after).symm, first,
      build_eq_ok.mpr ⟨segments, rest, mapM_eq_ok.mpr others⟩, ScanDraft.standsFor_of_writes writes, writes.stop_left rfl⟩

/-- Looks up again in a branch. The ids are looked up by the first filter, and cannot be by the last one. -/
def returning : Traversal :=
  [⟨.limit 1, none⟩, ⟨.vertices [], none⟩,
    ⟨.has [⟨"~id", some ⟨.within, .list [.whole 1, .whole 2]⟩⟩, ⟨"age", some ⟨.gt, .whole 30⟩⟩], some "a"⟩,
    ⟨.hasLabel ["person"], none⟩, ⟨.hasId [.whole 1], none⟩]

theorem returning_stands_for_filters : ∃ operators, build [⟨.union [returning], none⟩] = .ok operators ∧
    (∀ step ∈ returning, ∀ filter ∈ step.action.filters, filter.Plain) ∧
      ∃ earlier args tag later filters rest,
        earlier ++ ⟨.scan args, tag⟩ :: later ∈ Operator.levels operators ∧ returning.drop 2 = filters ++ rest ∧
          build (returning.take 1) = .ok earlier ∧ build rest = .ok later ∧
          args.StandsFor tag .vertex [] none filters ∧ args.Stop tag rest := by
  have passes : (build [⟨.union [returning], none⟩]).isOk := by decide +kernel
  cases built : build [⟨.union [returning], none⟩] with
  | error error =>
    rw [built] at passes
    cases passes
  | ok operators =>
    have place : returning = returning.take 1 ++ ⟨.vertices [], none⟩ :: returning.drop 2 := rfl
    refine ⟨operators, rfl, ?_, scan_stands_for_filters built (List.mem_cons_of_mem _ List.mem_cons_self) place rfl⟩
    simp [returning, Action.filters, Filter.Plain]

end Traversal

end TraversalPlanner
