import TraversalPlanner.Operator.Build
import TraversalPlanner.Proofs.ListEffects
import TraversalPlanner.Text.Classes

/-! Conditions that are written out begin with a reference, so none of them is blank. -/

namespace TraversalPlanner

open Proofs

namespace Expression

/-- A text that begins with a reference. -/
def Marked (text : String) : Prop := ∃ rest, text.toList = '@' :: rest

theorem blank_of_marked {text : String} (marked : Marked text) : Text.blank text = false := by
  obtain ⟨rest, same⟩ := marked
  rw [Text.blank, same, List.all_cons, show Text.isBlank '@' = false by decide, Bool.false_and]

theorem marked_append {text : String} (marked : Marked text) (more : String) : Marked (text ++ more) := by
  obtain ⟨rest, same⟩ := marked
  exact ⟨rest ++ more.toList, by rw [String.toList_append, same, List.cons_append]⟩

theorem marked_render (reference : Variable) : Marked reference.render := by
  unfold Variable.render
  exact marked_append (marked_append ⟨[], rfl⟩ _) _

theorem marked_comparison {subject : String} (marked : Marked subject) (comparator : Comparator) (value : String) :
    Marked (comparison subject comparator value) := by
  unfold comparison
  rw [String.append_assoc, String.append_assoc, String.append_assoc]
  exact marked_append marked _

theorem marked_conjunction {part : String} (marked : Marked part) (parts : List String) :
    Marked (conjunction (part :: parts)) := by
  unfold conjunction
  cases parts with
  | nil => rwa [String.intercalate_singleton]
  | cons next parts =>
    rw [String.intercalate_cons_cons, String.append_assoc]
    exact marked_append marked _

theorem marked_ofTest {subject text : String} {test : Test} (marked : Marked subject)
    (written : ofTest subject test = .ok text) : Marked text := by
  unfold ofTest at written
  split at written
  · cases written
    exact marked_comparison marked _ _
  · cases written
    exact marked_comparison marked _ _
  · cases written
  · cases written
  · cases written
    exact marked_comparison marked _ _

theorem marked_ofFilter {filter : Filter} {text : String} (written : ofFilter filter = .ok text) : Marked text := by
  unfold ofFilter at written
  simp only at written
  split at written
  · exact marked_ofTest (marked_render _) written
  · cases written
    exact marked_render _

theorem marked_ofFilters {filters : List Filter} {text : String} (written : ofFilters filters = .ok text)
    (some : filters ≠ []) : Marked text := by
  obtain ⟨parts, each, same⟩ := bind_eq_ok.mp written
  cases same
  cases mapM_eq_ok.mp each with
  | nil => exact absurd rfl some
  | cons here _ => exact marked_conjunction (marked_ofFilter here) _

theorem marked_oneOf {subject : String} (marked : Marked subject) (values : List Literal) :
    Marked (oneOf subject values) := by
  unfold oneOf
  split
  · exact marked_comparison marked _ _
  · exact marked_comparison marked _ _

theorem marked_ofIds (ids : List Literal) : Marked (ofIds ids) := marked_oneOf ⟨_, rfl⟩ ids

theorem marked_ofLabels (labels : List String) : Marked (ofLabels labels) := marked_oneOf ⟨_, rfl⟩ _

theorem marked_guarded (left right : Variable) (comparator : Comparator) : Marked (guarded left comparator right) := by
  unfold guarded
  simp only
  split
  · exact marked_conjunction (marked_render left) _
  · split
    · exact marked_conjunction (marked_render right) _
    · exact marked_conjunction (marked_comparison (marked_render left) _ _) _

theorem marked_ofTagCondition (start : Variable) (keys : List (Option String)) (condition : TagCondition) (index : Nat) :
    Marked (ofTagCondition start keys condition index).1 := by
  induction condition generalizing index with
  | compare comparator tag => exact marked_guarded _ _ _
  | and left right first _ =>
    rw [ofTagCondition]
    exact marked_append (marked_append (marked_append (first index) _) _) _
  | or left right first _ =>
    rw [ofTagCondition]
    exact marked_append (marked_append (marked_append (first index) _) _) _

theorem marked_ofWhere (start : Option String) (condition : TagCondition) (keys : List (Option String)) :
    Marked (ofWhere start condition keys) := marked_ofTagCondition _ keys condition 1

end Expression

end TraversalPlanner
