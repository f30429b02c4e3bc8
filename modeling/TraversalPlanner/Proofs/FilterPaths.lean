import TraversalPlanner.Proofs.Complaints
import TraversalPlanner.Proofs.ScanFusion

/-! The two ways of a filter step into a plan. Behind a step that is no scan it becomes a condition, and each of its
filters has to be well-formed. Behind a scan the first filters that ask for ids and for labels are looked up, and
what they ask for is not checked. -/

namespace TraversalPlanner

open Proofs Expression

namespace Filter

/-- Membership in what is no list. -/
def Malformed (filter : Filter) : Prop :=
  ∃ test, filter.test = some test ∧ (test.comparator = .within ∨ test.comparator = .without) ∧
    ∀ items, test.value ≠ .list items

theorem malformed_iff {filter : Filter} : filter.Malformed ↔ ∃ error, error.Illegal ∧ ofFilter filter = .error error := by
  obtain ⟨key, test⟩ := filter
  cases test with
  | none => simp [Malformed, ofFilter]
  | some test =>
    obtain ⟨comparator, value⟩ := test
    cases comparator <;> cases value <;> simp [Malformed, ofFilter, ofTest, Error.Illegal]

theorem illegal_of_ofFilter {filter : Filter} {error : Error} (failed : ofFilter filter = .error error) : error.Illegal := by
  unfold ofFilter at failed
  simp only at failed
  split at failed
  · unfold ofTest at failed
    split at failed <;> cases failed <;> trivial
  · cases failed

/-- Filters can be written out unless one of them is malformed. -/
theorem malformed_of_mapM {filters : List Filter} :
    (∃ filter ∈ filters, filter.Malformed) ↔ ∃ error, error.Illegal ∧ filters.mapM ofFilter = .error error := by
  constructor
  · intro some
    obtain ⟨filter, member, malformed⟩ := some
    obtain ⟨_, _, failed⟩ := malformed_iff.mp malformed
    cases written : filters.mapM ofFilter with
    | error error =>
      obtain ⟨_, _, failed⟩ := mapM_eq_error written
      exact ⟨error, illegal_of_ofFilter failed, rfl⟩
    | ok texts =>
      obtain ⟨_, _, passed⟩ := mapM_result written member
      cases failed.symm.trans passed
  · intro failed
    obtain ⟨error, illegal, failed⟩ := failed
    obtain ⟨filter, member, failed⟩ := mapM_eq_error failed
    exact ⟨filter, member, malformed_iff.mpr ⟨error, illegal, failed⟩⟩

end Filter

open TraversalPlanner.Filter

namespace Traversal

open Operator

/-- An argument of the traversal is found to be illegal when it is built, or when it is appended to a fresh plan. -/
def Rejected (schema : Option Schema) (traversal : Traversal) : Prop :=
  ∃ error : Error, error.Illegal ∧ (traversal.build = .error error ∨ ∃ operators, traversal.build = .ok operators ∧
    ((Assembly.appendAll PlanGraph.accumulator (-1) operators).run (Assembly.start (.empty schema))).1 = .error error)

/-- Filters behind a step that is no scan. -/
def filteredLater (filters : List Filter) (name : Option String) : Traversal :=
  [⟨.vertices [], none⟩, ⟨.adjacent "out" [] false, none⟩, ⟨.has filters, name⟩]

def filteredAtOnce (filters : List Filter) (name : Option String) : Traversal :=
  [⟨.vertices [], none⟩, ⟨.has filters, name⟩]

private theorem build_filteredLater (filters : List Filter) (name : Option String) :
    ∃ direction, build (filteredLater filters name) = (ofFilters filters).map fun text =>
      [⟨.scan { ScanArguments.empty with target := some .vertex }, none⟩, ⟨.expand (expandArgs direction false []), none⟩,
        ⟨select text, name.map Alias.written⟩] := by
  have known : (Vocabulary.parse "Direction" "out" : Except Error Direction).isOk := by decide +kernel
  cases parsed : (Vocabulary.parse "Direction" "out" : Except Error Direction) with
  | error error =>
    rw [parsed] at known
    cases known
  | ok direction =>
    refine ⟨direction, ?_⟩
    have cut : build (filteredLater filters name) =
        [.scan (.start .vertex [] none), .single ⟨⟨.adjacent "out" [] false, none⟩, []⟩,
          .single ⟨⟨.has filters, name⟩, []⟩].mapM ofSegment := rfl
    have goes : ofSegment (.single ⟨⟨.adjacent "out" [] false, none⟩, []⟩) =
        .ok ⟨.expand (expandArgs direction false []), none⟩ := bind_eq_ok.mpr ⟨direction, parsed, rfl⟩
    have filtered : ofSegment (.single ⟨⟨.has filters, name⟩, []⟩) =
        (ofFilters filters).map fun text => ⟨select text, name.map Alias.written⟩ := rfl
    rw [cut, List.mapM_cons, List.mapM_cons, List.mapM_cons, goes, filtered]
    cases ofFilters filters <;> rfl

/-- The scan that looks up what it can and tests the others. -/
def scanOf (filters : List Filter) (name : Option String) : ScanDraft where
  target := .vertex
  labels := labelsOf filters
  ids := idsOf filters
  residue := tested filters
  tag := name

private theorem build_filteredAtOnce (filters : List Filter) (name : Option String) :
    build (filteredAtOnce filters name) = (ofScan (scanOf filters name)).map fun operator => [operator] := by
  have fused : build (filteredAtOnce filters name) =
      (ofScan { filters.foldl ScanDraft.takeFilter (.start .vertex [] none) with tag := name }).map
        fun operator => [operator] := rfl
  rw [fused, ScanDraft.foldl_takeFilter]
  rfl

/-- Nothing else can be wrong with steps that neither nest nor are modulated and ask for no window. -/
private theorem empty_of_flaw {before after : List Step} {step : Step} (flaw : Flaw before step after)
    (windowless : step.action.window? = none) (plain : step.action.nests = false) (single : step.action.role ≠ .modulated) :
    step.action = .has [] ∧ ¬ Fused before step := by
  cases flaw with
  | window given => cases given.symm.trans windowless
  | has empty unfused => exact ⟨empty, unfused⟩
  | union empty =>
    rw [empty] at plain
    cases plain
  | sub empty => cases plain.symm.trans (Action.nests_of_sub? empty)
  | select several =>
    rw [several] at single
    exact absurd rfl single

theorem rejected_filteredLater_iff (schema : Option Schema) (filters : List Filter) (name : Option String) :
    Rejected schema (filteredLater filters name) ↔ filters = [] ∨ ∃ filter ∈ filters, filter.Malformed := by
  obtain ⟨direction, built⟩ := build_filteredLater filters name
  constructor
  · intro rejected
    obtain ⟨error, illegal, failed | ⟨operators, passed, failed⟩⟩ := rejected
    · refine .inr (malformed_of_mapM.mpr ⟨error, illegal, ?_⟩)
      rw [built, ofFilters] at failed
      cases written : filters.mapM ofFilter with
      | error other =>
        rw [written] at failed
        cases failed
        rfl
      | ok texts =>
        rw [written] at failed
        cases failed
    · obtain ⟨part, member, earlier, step, later, place, flaw⟩ := Assembly.flaw_of_illegal passed failed illegal
      cases List.mem_singleton.mp member
      have stands : step ∈ filteredLater filters name := place ▸ List.mem_append_right _ List.mem_cons_self
      simp only [filteredLater, List.mem_cons, List.not_mem_nil, or_false] at stands
      rcases stands with rfl | rfl | rfl
      · cases (empty_of_flaw flaw rfl rfl (by simp [Action.role])).1
      · cases (empty_of_flaw flaw rfl rfl (by simp [Action.role])).1
      · exact .inl (Action.has.inj (empty_of_flaw flaw rfl rfl (by simp [Action.role])).1)
  · intro faulty
    rcases faulty with rfl | malformed
    · refine ⟨.illegalSlot .select .predicate .blankPredicate, trivial, .inr ⟨_, built, ?_⟩⟩
      cases schema <;> rfl
    · obtain ⟨error, illegal, failed⟩ := malformed_of_mapM.mp malformed
      refine ⟨error, illegal, .inl ?_⟩
      rw [built, ofFilters, failed]
      rfl

theorem rejected_filteredAtOnce_iff (schema : Option Schema) (filters : List Filter) (name : Option String) :
    Rejected schema (filteredAtOnce filters name) ↔ ∃ filter ∈ tested filters, filter.Malformed := by
  have built := build_filteredAtOnce filters name
  rw [malformed_of_mapM]
  constructor
  · intro rejected
    obtain ⟨error, illegal, failed | ⟨operators, passed, failed⟩⟩ := rejected
    · refine ⟨error, illegal, ?_⟩
      rw [built, ofScan, scanOf] at failed
      cases written : (tested filters).mapM ofFilter with
      | error other =>
        rw [written] at failed
        cases failed
        rfl
      | ok texts =>
        rw [written] at failed
        cases failed
    · obtain ⟨part, member, earlier, step, later, place, flaw⟩ := Assembly.flaw_of_illegal passed failed illegal
      cases List.mem_singleton.mp member
      match earlier, place with
      | [], place =>
        cases place
        cases (empty_of_flaw flaw rfl rfl (by simp [Action.role])).1
      | [_], place =>
        cases place
        obtain ⟨empty, unfused⟩ := empty_of_flaw flaw rfl rfl (by simp [Action.role])
        cases Action.has.inj empty
        exact absurd ⟨[], _, [], .vertex, [], rfl, rfl, rfl⟩ unfused
      | _ :: _ :: _, place => simp [filteredAtOnce] at place
  · intro failed
    obtain ⟨error, illegal, failed⟩ := failed
    refine ⟨error, illegal, .inl ?_⟩
    rw [built, ofScan, scanOf, failed]
    rfl

/-- Malformed filters that compare with lists where they should are no look-ups, so they stay to be tested. -/
private theorem mem_tested {filters : List Filter} {filter : Filter} (member : filter ∈ filters) (plain : filter.Plain)
    (malformed : filter.Malformed) : filter ∈ tested filters := by
  obtain ⟨test, given, membership, unlisted⟩ := malformed
  have labels : ¬ filter.asksLabels := by
    intro asks
    obtain ⟨_, ⟨name, same, _⟩ | ⟨names, same, _⟩⟩ := lookupLabels_cases plain (asksLabels_iff.mp asks)
    all_goals cases given.symm.trans same
    · simp at membership
    · exact unlisted _ rfl
  have ids : ¬ filter.asksIds := by
    intro asks
    obtain ⟨_, ⟨value, same, _⟩ | ⟨items, same, _⟩⟩ := lookupIds_cases plain (asksIds_iff.mp asks)
    all_goals cases given.symm.trans same
    · simp at membership
    · exact unlisted _ rfl
  exact (List.mem_eraseP_of_neg ids).mpr ((List.mem_eraseP_of_neg labels).mpr member)

/-- Behind a scan a filter step is only rejected for filters that the scan tests, and its ids and labels are those of the
first filters that ask for some, also if these ask for equality with a list. Elsewhere every malformed filter is found, and
so is the lack of any. The two places agree on filters that compare ids and labels with lists where they should. -/
theorem filters_checked_where_tested (schema : Option Schema) (filters : List Filter) (name : Option String) :
    (Rejected schema (filteredLater filters name) ↔ filters = [] ∨ ∃ filter ∈ filters, filter.Malformed) ∧
      (Rejected schema (filteredAtOnce filters name) ↔ ∃ filter ∈ tested filters, filter.Malformed) ∧
      build (filteredAtOnce filters name) = (ofScan (scanOf filters name)).map (fun operator => [operator]) ∧
      (filters ≠ [] → (∀ filter ∈ filters, filter.Plain) →
        (Rejected schema (filteredLater filters name) ↔ Rejected schema (filteredAtOnce filters name))) := by
  refine ⟨rejected_filteredLater_iff schema filters name, rejected_filteredAtOnce_iff schema filters name,
    build_filteredAtOnce filters name, fun some plain => ?_⟩
  rw [rejected_filteredLater_iff, rejected_filteredAtOnce_iff, or_iff_right some]
  constructor
  · intro malformed
    obtain ⟨filter, member, malformed⟩ := malformed
    exact ⟨filter, mem_tested member (plain filter member) malformed, malformed⟩
  · intro malformed
    obtain ⟨filter, member, malformed⟩ := malformed
    exact ⟨filter, List.mem_of_mem_eraseP (List.mem_of_mem_eraseP member), malformed⟩

/-- Looking up an id among what is no list is an error elsewhere. -/
theorem unlisted_ids_looked_up :
    ¬ ∀ filters : List Filter, Rejected none (filteredLater filters none) → Rejected none (filteredAtOnce filters none) := by
  intro alike
  have malformed : Filter.Malformed ⟨"~id", some ⟨.within, .whole 5⟩⟩ := ⟨_, rfl, .inl rfl, nofun⟩
  have rejected := alike [⟨"~id", some ⟨.within, .whole 5⟩⟩]
    ((rejected_filteredLater_iff none _ none).mpr (.inr ⟨_, List.mem_cons_self, malformed⟩))
  obtain ⟨filter, member, _⟩ := (rejected_filteredAtOnce_iff none _ none).mp rejected
  simp [tested, asksIds, lookupIds, operand?, ScanDraft.idValues, asksLabels, lookupLabels] at member

end Traversal

end TraversalPlanner
