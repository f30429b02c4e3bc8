import TraversalPlanner.Json.Basic

/-! What a JSON value is made of in the end. A value is readable if all its leaves are, and no part of a container is
nested as deeply as the container. -/

namespace TraversalPlanner.Json

variable {part value : Json} {name : String} {entries : List (String × Json)} {holds : Json → Prop}

def isContainer : Json → Bool
  | .array _ => true
  | .object _ => true
  | _ => false

mutual
/-- The parts of a value that have no parts themselves. -/
def leaves : Json → List Json
  | .array items => leavesOfItems items
  | .object entries => leavesOfEntries entries
  | leaf => [leaf]
termination_by structural json => json

def leavesOfItems : List Json → List Json
  | [] => []
  | item :: rest => leaves item ++ leavesOfItems rest
termination_by structural items => items

def leavesOfEntries : List (String × Json) → List Json
  | [] => []
  | (_, value) :: rest => leaves value ++ leavesOfEntries rest
termination_by structural entries => entries
end

theorem mem_leavesOfItems {items : List Json} : part ∈ leavesOfItems items ↔ ∃ item ∈ items, part ∈ item.leaves := by
  induction items with
  | nil => simp [leavesOfItems]
  | cons item items tail => simp [leavesOfItems, tail]

theorem mem_leavesOfEntries : part ∈ leavesOfEntries entries ↔ ∃ entry ∈ entries, part ∈ entry.2.leaves := by
  induction entries with
  | nil => simp [leavesOfEntries]
  | cons entry entries tail => simp [leavesOfEntries, tail]

theorem depth_le_of_mem (member : (name, value) ∈ entries) : value.depth ≤ depthOfEntries entries := by
  induction entries with
  | nil => exact absurd member List.not_mem_nil
  | cons entry entries tail =>
    rcases List.mem_cons.mp member with rfl | later
    · exact Nat.le_max_left _ _
    · exact Nat.le_trans (tail later) (Nat.le_max_right _ _)

theorem depth_le_of_mem_items {item : Json} {items : List Json} (member : item ∈ items) :
    item.depth ≤ depthOfItems items := by
  induction items with
  | nil => exact absurd member List.not_mem_nil
  | cons first items tail =>
    rcases List.mem_cons.mp member with rfl | later
    · exact Nat.le_max_left _ _
    · exact Nat.le_trans (tail later) (Nat.le_max_right _ _)

mutual
theorem readable_of_leaves (json : Json) (clean : .unreadable ∉ json.leaves) : json.readable = true := by
  match json with
  | .null | .bool _ | .whole _ | .real _ | .text _ => rfl
  | .unreadable => exact absurd List.mem_cons_self clean
  | .array items => exact readable_of_leavesOfItems items clean
  | .object entries => exact readable_of_leavesOfEntries entries clean
termination_by structural json

theorem readable_of_leavesOfItems (items : List Json) (clean : .unreadable ∉ leavesOfItems items) :
    readableItems items = true := by
  match items with
  | [] => rfl
  | item :: items =>
    rw [leavesOfItems, List.mem_append, not_or] at clean
    rw [readableItems, readable_of_leaves item clean.1, readable_of_leavesOfItems items clean.2, Bool.and_self]
termination_by structural items

theorem readable_of_leavesOfEntries (entries : List (String × Json)) (clean : .unreadable ∉ leavesOfEntries entries) :
    readableEntries entries = true := by
  match entries with
  | [] => rfl
  | (name, value) :: entries =>
    rw [leavesOfEntries, List.mem_append, not_or] at clean
    rw [readableEntries, readable_of_leaves value clean.1, readable_of_leavesOfEntries entries clean.2, Bool.and_self]
termination_by structural entries
end

/-- A property of all leaves. -/
def Throughout (holds : Json → Prop) (json : Json) : Prop := ∀ leaf ∈ json.leaves, holds leaf

theorem throughout_leaf {json : Json} (lone : json.isContainer = false) : Throughout holds json ↔ holds json := by
  cases json with
  | array => cases lone
  | object => cases lone
  | _ => simp [Throughout, leaves]

@[simp]
theorem throughout_null : Throughout holds .null ↔ holds .null := throughout_leaf rfl

@[simp]
theorem throughout_bool {value : Bool} : Throughout holds (.bool value) ↔ holds (.bool value) := throughout_leaf rfl

@[simp]
theorem throughout_whole {n : Int} : Throughout holds (.whole n) ↔ holds (.whole n) := throughout_leaf rfl

@[simp]
theorem throughout_real {x : Number.Binary64} : Throughout holds (.real x) ↔ holds (.real x) := throughout_leaf rfl

@[simp]
theorem throughout_text {content : String} : Throughout holds (.text content) ↔ holds (.text content) :=
  throughout_leaf rfl

@[simp]
theorem throughout_array {items : List Json} :
    Throughout holds (.array items) ↔ ∀ item ∈ items, Throughout holds item := by
  simp only [Throughout, leaves, mem_leavesOfItems]
  exact ⟨fun all item member leaf inside => all leaf ⟨item, member, inside⟩,
    fun each leaf ⟨item, member, inside⟩ => each item member leaf inside⟩

@[simp]
theorem throughout_object {entries : List (String × Json)} :
    Throughout holds (.object entries) ↔ ∀ entry ∈ entries, Throughout holds entry.2 := by
  simp only [Throughout, leaves, mem_leavesOfEntries]
  exact ⟨fun all entry member leaf inside => all leaf ⟨entry, member, inside⟩,
    fun each leaf ⟨entry, member, inside⟩ => each entry member leaf inside⟩

end TraversalPlanner.Json
