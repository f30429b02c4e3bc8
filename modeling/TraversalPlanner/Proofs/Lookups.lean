import Mathlib.Logic.Basic
import TraversalPlanner.Operator.Build

/-! Filters that a scan can look up instead of testing them. What is looked up is what the filter asks for, if
equality is with a single constant and membership in a list. -/

namespace TraversalPlanner

/-- What filters see of elements. Constants are compared by whatever equality the graph has for them, and
what other tests come to is left open. -/
structure Elements (ε : Type) where
  id : ε → Literal
  label : ε → String
  equal : Literal → Literal → Prop
  tests : ε → Filter → Prop

namespace Elements

variable {ε : Type} (elements : Elements ε) (element : ε)

def IdAmong (ids : List Literal) : Prop := ∃ id ∈ ids, elements.equal (elements.id element) id

def LabelAmong (labels : List String) : Prop :=
  ∃ label ∈ labels, elements.equal (.text (elements.label element)) (.text label)

/-- The labels of an operator may be numbers too, which no label is equal to. -/
def LabelIn (labels : List Identifier) : Prop :=
  ∃ label, .name label ∈ labels ∧ elements.equal (.text (elements.label element)) (.text label)

/-- What a filter on the id or on the label looks at. -/
def subject? (key : String) : Option Literal :=
  if key = "~id" then some (elements.id element)
  else if key = "~label" then some (.text (elements.label element))
  else none

/-- On ids and labels, equality and membership are what they say. -/
def Passes (filter : Filter) : Prop :=
  match elements.subject? element filter.key, filter.test with
  | some subject, some ⟨.eq, value⟩ => elements.equal subject value
  | some subject, some ⟨.within, .list items⟩ => ∃ item ∈ items, elements.equal subject item
  | _, _ => elements.tests element filter

/-- What a filter step asks for. -/
def PassesStep : Action → Prop
  | .has filters => ∀ filter ∈ filters, elements.Passes element filter
  | .hasLabel labels => elements.LabelAmong element labels
  | .hasId ids => elements.IdAmong element ids
  | _ => True

end Elements

/-- On ids and labels, equality is with a single constant and membership in a list. -/
def Filter.Plain (filter : Filter) : Prop :=
  filter.key = "~id" ∨ filter.key = "~label" → ∀ test, filter.test = some test →
    (test.comparator = .eq → ∀ items, test.value ≠ .list items) ∧
      (test.comparator = .within → ∃ items, test.value = .list items)

namespace Filter

/-- What the filter asks equality with or membership in. -/
def operand? (filter : Filter) : Option Literal :=
  match filter.test with
  | some ⟨.eq, value⟩ => some value
  | some ⟨.within, value⟩ => some value
  | _ => none

/-- The labels that a scan can look up instead of testing the filter. -/
def lookupLabels (filter : Filter) : List String :=
  if filter.key = "~label" then (filter.operand?.map ScanDraft.labelNames).getD [] else []

def lookupIds (filter : Filter) : List Literal :=
  if filter.key = "~id" then (filter.operand?.map ScanDraft.idValues).getD [] else []

end Filter

theorem ScanDraft.eq_text_of_names {items : List Literal} {names : List String} (read : items.mapM labelName? = some names) :
    items = names.map Literal.text := by
  induction items generalizing names with
  | nil =>
    cases read
    rfl
  | cons item items step =>
    simp only [List.mapM_cons, Option.bind_eq_bind, Option.bind_eq_some_iff, Option.pure_def, Option.some.injEq] at read
    obtain ⟨name, here, others, later, same⟩ := read
    cases item with
    | text text =>
      cases here
      rw [step later, ← same, List.map_cons]
    | _ => cases here

namespace Filter

variable {filter : Filter}

theorem operand?_eq_some {value : Literal} (asked : filter.operand? = some value) :
    filter.test = some ⟨.eq, value⟩ ∨ filter.test = some ⟨.within, value⟩ := by
  unfold operand? at asked
  split at asked
  · next same => exact .inl (Option.some.inj asked ▸ same)
  · next same => exact .inr (Option.some.inj asked ▸ same)
  · cases asked

theorem lookupLabels_ne_nil (looked : filter.lookupLabels ≠ []) :
    filter.key = "~label" ∧ ∃ value, filter.operand? = some value ∧ filter.lookupLabels = ScanDraft.labelNames value := by
  unfold lookupLabels at looked ⊢
  split at looked
  · next label =>
    cases asked : filter.operand? with
    | none => exact absurd (by rw [asked]; rfl) looked
    | some value => exact ⟨label, value, rfl, by rw [if_pos label]; rfl⟩
  · exact absurd rfl looked

theorem lookupIds_ne_nil (looked : filter.lookupIds ≠ []) :
    filter.key = "~id" ∧ ∃ value, filter.operand? = some value ∧ filter.lookupIds = ScanDraft.idValues value := by
  unfold lookupIds at looked ⊢
  split at looked
  · next id =>
    cases asked : filter.operand? with
    | none => exact absurd (by rw [asked]; rfl) looked
    | some value => exact ⟨id, value, rfl, by rw [if_pos id]; rfl⟩
  · exact absurd rfl looked

theorem lookupLabels_cases (plain : filter.Plain) (looked : filter.lookupLabels ≠ []) :
    filter.key = "~label" ∧
      ((∃ name, filter.test = some ⟨.eq, .text name⟩ ∧ filter.lookupLabels = [name]) ∨
        ∃ names, filter.test = some ⟨.within, .list (names.map .text)⟩ ∧ filter.lookupLabels = names) := by
  obtain ⟨label, value, asked, same⟩ := lookupLabels_ne_nil looked
  refine ⟨label, ?_⟩
  rw [same] at looked ⊢
  rcases operand?_eq_some asked with test | test
  · have single := (plain (.inr label) _ test).1 rfl
    cases value with
    | text name => exact .inl ⟨name, test, rfl⟩
    | list items => exact absurd rfl (single items)
    | _ => exact absurd rfl looked
  · obtain ⟨items, list⟩ := (plain (.inr label) _ test).2 rfl
    cases list
    cases read : items.mapM ScanDraft.labelName? with
    | none => exact absurd (by rw [ScanDraft.labelNames, read]; rfl) looked
    | some names =>
      rw [ScanDraft.eq_text_of_names read] at test
      exact .inr ⟨names, test, by rw [ScanDraft.labelNames, read]; rfl⟩

theorem lookupIds_cases (plain : filter.Plain) (looked : filter.lookupIds ≠ []) :
    filter.key = "~id" ∧
      ((∃ value, filter.test = some ⟨.eq, value⟩ ∧ filter.lookupIds = [value]) ∨
        ∃ items, filter.test = some ⟨.within, .list items⟩ ∧ filter.lookupIds = items) := by
  obtain ⟨id, value, asked, same⟩ := lookupIds_ne_nil looked
  refine ⟨id, ?_⟩
  rw [same]
  rcases operand?_eq_some asked with test | test
  · have single := (plain (.inl id) _ test).1 rfl
    refine .inl ⟨value, test, ?_⟩
    cases value with
    | list items => exact absurd rfl (single items)
    | _ => rfl
  · obtain ⟨items, list⟩ := (plain (.inl id) _ test).2 rfl
    cases list
    exact .inr ⟨items, test, rfl⟩

end Filter

namespace Elements

variable {ε : Type} (elements : Elements ε) (element : ε) {filter : Filter}

theorem passes_iff_label (plain : filter.Plain) (looked : filter.lookupLabels ≠ []) :
    elements.Passes element filter ↔ elements.LabelAmong element filter.lookupLabels := by
  obtain ⟨label, ⟨name, test, same⟩ | ⟨names, test, same⟩⟩ := filter.lookupLabels_cases plain looked
  · simp [Passes, LabelAmong, subject?, label, test, same]
  · simp [Passes, LabelAmong, subject?, label, test, same]

theorem passes_iff_id (plain : filter.Plain) (looked : filter.lookupIds ≠ []) :
    elements.Passes element filter ↔ elements.IdAmong element filter.lookupIds := by
  obtain ⟨id, ⟨value, test, same⟩ | ⟨items, test, same⟩⟩ := filter.lookupIds_cases plain looked
  · simp [Passes, IdAmong, subject?, id, test, same]
  · simp [Passes, IdAmong, subject?, id, test, same]

end Elements

namespace ScanDraft

/-- A filter is looked up if the scan looks up nothing of its kind yet, and tested otherwise. -/
theorem takeFilter_eq (draft : ScanDraft) (filter : Filter) :
    draft.takeFilter filter =
      if draft.labels = [] ∧ filter.lookupLabels ≠ [] then { draft with labels := filter.lookupLabels }
      else if draft.ids = [] ∧ filter.lookupIds ≠ [] then { draft with ids := filter.lookupIds }
      else { draft with residue := draft.residue ++ [filter] } := by
  obtain ⟨key, test⟩ := filter
  unfold takeFilter Filter.lookupLabels Filter.lookupIds Filter.operand?
  cases test with
  | none => simp
  | some test =>
    obtain ⟨comparator, value⟩ := test
    by_cases label : key = "~label"
    · subst label
      cases comparator <;> simp
    · by_cases id : key = "~id"
      · subst id
        cases comparator <;> simp
      · simp [label, id]

end ScanDraft

namespace Filter

/-- A scan that looks up no labels yet looks up those that the filter asks for. -/
def asksLabels (filter : Filter) : Bool := !filter.lookupLabels.isEmpty

def asksIds (filter : Filter) : Bool := !filter.lookupIds.isEmpty

theorem asksLabels_iff {filter : Filter} : filter.asksLabels = true ↔ filter.lookupLabels ≠ [] := by simp [asksLabels]

theorem asksIds_iff {filter : Filter} : filter.asksIds = true ↔ filter.lookupIds ≠ [] := by simp [asksIds]

theorem asksLabels_eq_false {filter : Filter} : filter.asksLabels = false ↔ filter.lookupLabels = [] := by simp [asksLabels]

theorem asksIds_eq_false {filter : Filter} : filter.asksIds = false ↔ filter.lookupIds = [] := by simp [asksIds]

theorem asksIds_of_asksLabels {filter : Filter} (labels : filter.asksLabels) : filter.asksIds = false := by
  have key := (lookupLabels_ne_nil (asksLabels_iff.mp labels)).1
  simp [asksIds, lookupIds, key]

/-- The labels that a scan looks up for some filters. -/
def labelsOf (filters : List Filter) : List String := ((filters.find? asksLabels).map lookupLabels).getD []

def idsOf (filters : List Filter) : List Literal := ((filters.find? asksIds).map lookupIds).getD []

theorem labelsOf_cons (filter : Filter) (filters : List Filter) :
    labelsOf (filter :: filters) = if filter.asksLabels then filter.lookupLabels else labelsOf filters := by
  unfold labelsOf
  cases asks : filter.asksLabels <;> simp [asks]

theorem idsOf_cons (filter : Filter) (filters : List Filter) :
    idsOf (filter :: filters) = if filter.asksIds then filter.lookupIds else idsOf filters := by
  unfold idsOf
  cases asks : filter.asksIds <;> simp [asks]

/-- The filters that are left to be tested. -/
def tested (filters : List Filter) : List Filter := (filters.eraseP asksLabels).eraseP asksIds

end Filter

open TraversalPlanner.Filter

/-- Of several filters the first that asks for labels and the first that asks for ids are looked up. -/
theorem ScanDraft.foldl_takeFilter (filters : List Filter) (draft : ScanDraft) :
    filters.foldl takeFilter draft =
      { draft with
        labels := if draft.labels = [] then labelsOf filters else draft.labels
        ids := if draft.ids = [] then idsOf filters else draft.ids
        residue := draft.residue ++
          (let others := if draft.labels = [] then filters.eraseP asksLabels else filters
            if draft.ids = [] then others.eraseP asksIds else others) } := by
  induction filters generalizing draft with
  | nil =>
    obtain ⟨target, labels, ids, residue, tag⟩ := draft
    cases labels <;> cases ids <;> simp [labelsOf, idsOf]
  | cons filter filters step =>
    obtain ⟨target, labels, ids, residue, tag⟩ := draft
    rw [List.foldl_cons, step, takeFilter_eq, labelsOf_cons, idsOf_cons]
    cases first : filter.asksLabels with
    | true =>
      have apart := asksIds_of_asksLabels first
      have looked := asksLabels_iff.mp first
      cases labels <;> cases ids <;> simp [first, apart, looked, asksIds_eq_false.mp apart]
    | false =>
      have none := asksLabels_eq_false.mp first
      cases second : filter.asksIds with
      | true =>
        have looked := asksIds_iff.mp second
        cases labels <;> cases ids <;> simp [first, second, looked, none]
      | false =>
        have last := asksIds_eq_false.mp second
        cases labels <;> cases ids <;> simp [first, second, none, last]

end TraversalPlanner
