import TraversalPlanner.Json.Record
import TraversalPlanner.Proofs.JsonLeaves
import TraversalPlanner.Proofs.ListEffects

/-! Restated values: the same up to the order of entries in objects, and up to entries that stand for what a reader
takes in their absence. Readers that look entries up by name do not tell a value from what it is restated as. -/

namespace TraversalPlanner.Json

open Proofs

/-- What an object may leave out, going by all of its entries. -/
abbrev Omission := List (String × Json) → List (String × Json)

mutual
/-- The second value says the same as the first one. -/
inductive Restated (omits : Omission) : Json → Json → Prop
  | leaf {json : Json} (lone : json.isContainer = false) : Restated omits json json
  | array {items others : List Json} (each : RestatedItems omits items others) :
      Restated omits (.array items) (.array others)
  | object {entries kept others : List (String × Json)} (each : RestatedEntries omits (omits entries) entries kept)
      (order : others.Perm kept) : Restated omits (.object entries) (.object others)

inductive RestatedItems (omits : Omission) : List Json → List Json → Prop
  | nil : RestatedItems omits [] []
  | cons {item other : Json} {items others : List Json} (here : Restated omits item other)
      (later : RestatedItems omits items others) : RestatedItems omits (item :: items) (other :: others)

inductive RestatedEntries (omits : Omission) :
    List (String × Json) → List (String × Json) → List (String × Json) → Prop
  | nil {omitted : List (String × Json)} : RestatedEntries omits omitted [] []
  | kept {omitted entries others : List (String × Json)} {name : String} {value other : Json}
      (here : Restated omits value other) (later : RestatedEntries omits omitted entries others) :
      RestatedEntries omits omitted ((name, value) :: entries) ((name, other) :: others)
  | left {omitted entries others : List (String × Json)} {entry : String × Json} (optional : entry ∈ omitted)
      (later : RestatedEntries omits omitted entries others) : RestatedEntries omits omitted (entry :: entries) others
end

variable {omits : Omission}

mutual
theorem Restated.refl (json : Json) : Restated omits json json := by
  match json with
  | .null => exact .leaf rfl
  | .bool _ => exact .leaf rfl
  | .whole _ => exact .leaf rfl
  | .real _ => exact .leaf rfl
  | .text _ => exact .leaf rfl
  | .unreadable => exact .leaf rfl
  | .array items => exact .array (.refl items)
  | .object entries => exact .object (.refl _ entries) (.refl entries)
termination_by structural json

theorem RestatedItems.refl (items : List Json) : RestatedItems omits items items := by
  match items with
  | [] => exact .nil
  | item :: items => exact .cons (.refl item) (.refl items)
termination_by structural items

theorem RestatedEntries.refl (omitted entries : List (String × Json)) :
    RestatedEntries omits omitted entries entries := by
  match entries with
  | [] => exact .nil
  | (name, value) :: entries => exact .kept (.refl value) (.refl omitted entries)
termination_by structural entries
end

variable {entries others kept omitted offered : List (String × Json)} {json value : Json} {name key : String}
  {levels : Nat}

mutual
/-- Nothing new comes in. -/
theorem Restated.leaves {json other : Json} (restated : Restated omits json other) : other.leaves ⊆ json.leaves := by
  match restated with
  | .leaf _ => exact List.Subset.refl _
  | .array each => exact each.leaves
  | .object each order =>
    intro leaf member
    obtain ⟨entry, held, inside⟩ := mem_leavesOfEntries.mp member
    exact each.leaves (mem_leavesOfEntries.mpr ⟨entry, order.mem_iff.mp held, inside⟩)
termination_by structural restated

theorem RestatedItems.leaves {items others : List Json} (restated : RestatedItems omits items others) :
    leavesOfItems others ⊆ leavesOfItems items := by
  match restated with
  | .nil => exact List.Subset.refl _
  | .cons here later =>
    exact List.append_subset.mpr ⟨List.subset_append_of_subset_left _ here.leaves,
      List.subset_append_of_subset_right _ later.leaves⟩
termination_by structural restated

theorem RestatedEntries.leaves {omitted entries others : List (String × Json)}
    (restated : RestatedEntries omits omitted entries others) : leavesOfEntries others ⊆ leavesOfEntries entries := by
  match restated with
  | .nil => exact List.Subset.refl _
  | .kept here later =>
    exact List.append_subset.mpr ⟨List.subset_append_of_subset_left _ here.leaves,
      List.subset_append_of_subset_right _ later.leaves⟩
  | .left _ later => exact List.subset_append_of_subset_right _ later.leaves
termination_by structural restated
end

/-! What a restated object holds. -/

/-- What stands for a value: a restated one or, where it may be missing, nothing. -/
inductive Stands (omits : Omission) (levels : Nat) (optional : Prop) (value : Json) : Option Json → Prop
  | held {json : Json} (restated : Restated omits value json) (shallow : json.depth ≤ levels) :
      Stands omits levels optional value (some json)
  | missing (left : optional) : Stands omits levels optional value none

/-- An object from which entries can be taken by their names, apart from those that may be missing. -/
structure Offers (omits : Omission) (levels : Nat) (omitted entries offered : List (String × Json)) : Prop where
  distinct : (offered.map Prod.fst).Nodup
  stands : ∀ name value, (name, value) ∈ entries →
    Stands omits levels ((name, value) ∈ omitted) value (offered.lookup name)

theorem lookup_of_mem (distinct : (entries.map Prod.fst).Nodup) (member : (name, value) ∈ entries) :
    entries.lookup name = some value := by
  induction entries with
  | nil => exact absurd member List.not_mem_nil
  | cons entry entries tail =>
    obtain ⟨fresh, apart⟩ := List.nodup_cons.mp distinct
    rcases List.mem_cons.mp member with rfl | later
    · exact List.lookup_cons_self
    · have other : (name == entry.1) = false := by
        rw [beq_eq_false_iff_ne]
        rintro rfl
        exact fresh (List.mem_map.mpr ⟨_, later, rfl⟩)
      rw [List.lookup_cons, other]
      exact tail apart later

/-- The only entry of a name. -/
theorem filter_of_lookup (distinct : (entries.map Prod.fst).Nodup) (found : entries.lookup name = some value) :
    entries.filter (fun entry => entry.1 = name) = [(name, value)] := by
  induction entries with
  | nil => cases found
  | cons entry entries tail =>
    obtain ⟨other, held⟩ := entry
    obtain ⟨fresh, apart⟩ := List.nodup_cons.mp distinct
    by_cases same : name = other
    · subst same
      rw [List.lookup_cons_self] at found
      have alone : entries.filter (fun entry => entry.1 = name) = [] := by
        refine List.filter_eq_nil_iff.mpr fun entry member named => ?_
        rw [decide_eq_true_iff] at named
        exact fresh (List.mem_map.mpr ⟨entry, member, named⟩)
      rw [List.filter_cons_of_pos (by simp), alone, Option.some.inj found]
    · rw [List.lookup_cons, beq_eq_false_iff_ne.mpr same] at found
      rw [List.filter_cons_of_neg (by simpa using Ne.symm same)]
      exact tail apart found

theorem RestatedEntries.names {omitted entries kept : List (String × Json)}
    (restated : RestatedEntries omits omitted entries kept) : (kept.map Prod.fst).Sublist (entries.map Prod.fst) := by
  match restated with
  | .nil => exact List.Sublist.refl _
  | .kept _ later => exact later.names.cons_cons _
  | .left _ later => exact later.names.cons _
termination_by structural restated

theorem RestatedEntries.stands {omitted entries kept : List (String × Json)} {name : String} {value : Json}
    (restated : RestatedEntries omits omitted entries kept) (distinct : (entries.map Prod.fst).Nodup)
    (member : (name, value) ∈ entries) :
    (∃ json, Restated omits value json ∧ (name, json) ∈ kept) ∨
      ((name, value) ∈ omitted ∧ name ∉ kept.map Prod.fst) := by
  match restated with
  | .nil => exact absurd member List.not_mem_nil
  | .kept here later =>
    obtain ⟨fresh, apart⟩ := List.nodup_cons.mp distinct
    rcases List.mem_cons.mp member with same | behind
    · cases same
      exact .inl ⟨_, here, List.mem_cons_self⟩
    · rcases later.stands apart behind with ⟨json, restated, held⟩ | ⟨left, missing⟩
      · exact .inl ⟨json, restated, List.mem_cons_of_mem _ held⟩
      · refine .inr ⟨left, fun again => ?_⟩
        rcases List.mem_cons.mp again with rfl | again
        · exact fresh (List.mem_map.mpr ⟨_, behind, rfl⟩)
        · exact missing again
  | .left optional later =>
    obtain ⟨fresh, apart⟩ := List.nodup_cons.mp distinct
    rcases List.mem_cons.mp member with same | behind
    · subst same
      exact .inr ⟨optional, fun again => fresh (later.names.subset again)⟩
    · exact later.stands apart behind
termination_by structural restated

/-- A restated object still offers its entries. -/
theorem Restated.offers (restated : Restated omits (.object entries) json) (known : omits entries = omitted)
    (distinct : (entries.map Prod.fst).Nodup) (shallow : json.depth ≤ levels + 1) :
    ∃ offered, json = .object offered ∧ Offers omits levels omitted entries offered := by
  subst known
  cases restated with
  | leaf lone => cases lone
  | @object _ kept others each order =>
    have apart : (others.map Prod.fst).Nodup := (order.map Prod.fst).nodup_iff.mpr (distinct.sublist each.names)
    refine ⟨others, rfl, apart, fun name value member => ?_⟩
    rcases each.stands distinct member with ⟨other, restated, held⟩ | ⟨left, missing⟩
    · have present := order.mem_iff.mpr held
      rw [lookup_of_mem apart present]
      exact .held restated (Nat.le_trans (depth_le_of_mem present) (Nat.le_of_succ_le_succ shallow))
    · have none : others.lookup name = none := by
        refine List.lookup_eq_none_iff.mpr fun entry held => bne_iff_ne.mpr ?_
        rintro rfl
        exact missing (List.mem_map.mpr ⟨_, order.mem_iff.mp held, rfl⟩)
      rw [none]
      exact .missing left


/-! What readers make of it. -/

namespace Offers

theorem subset (offers : Offers omits levels omitted entries offered) (fewer : kept ⊆ entries) :
    Offers omits levels omitted kept offered :=
  ⟨offers.distinct, fun name value member => offers.stands name value (fewer member)⟩

/-- Entries of other names are still offered. -/
theorem without (offers : Offers omits levels omitted entries offered) (apart : key ∉ entries.map Prod.fst) :
    Offers omits levels omitted entries (offered.filter fun entry => entry.1 ≠ key) := by
  refine ⟨offers.distinct.sublist (List.filter_sublist.map _), fun name value member => ?_⟩
  rw [lookup_filter fun json => ?_]
  · exact offers.stands name value member
  · rw [decide_eq_true_iff]
    rintro rfl
    exact apart (List.mem_map.mpr ⟨_, member, rfl⟩)

/-- The fields of a record can be taken from the object. -/
theorem fields (offers : Offers omits levels omitted entries offered) (names : List String) :
    ∃ fields, (Json.object offered).fields? names = some fields ∧
      ∀ name ∈ names, ∀ value, (name, value) ∈ entries →
      Stands omits levels ((name, value) ∈ omitted) value (fields.value? name) := by
  have distinct := offers.distinct.sublist ((List.filter_sublist (p := fun entry => names.contains entry.1)).map _)
  refine ⟨_, if_pos distinct, fun name listed value member => ?_⟩
  have found : (offered.filter fun entry => names.contains entry.1).lookup name = offered.lookup name :=
    lookup_filter fun _ => List.contains_iff_mem.mpr listed
  rw [Fields.value?, found]
  exact offers.stands name value member

/-- The tag of a record is told apart from its other fields. -/
theorem tagged {word : String} {words : List String} (spelling : Spelling)
    (offers : Offers omits levels omitted ((key, .text word) :: entries) offered)
    (required : (key, .text word) ∉ omitted) (listed : words.contains word = true) (apart : key ∉ entries.map Prod.fst) :
    ∃ content, (Json.object offered).tagged? spelling key words = some (word, .object content) ∧
      Offers omits levels omitted entries content := by
  refine ⟨_, ?_, (offers.subset (List.subset_cons_self _ _)).without apart⟩
  have present : offered.lookup key = some (.text word) := by
    have stands := offers.stands key (.text word) List.mem_cons_self
    generalize offered.lookup key = found at stands ⊢
    cases stands with
    | held restated _ =>
      cases restated
      rfl
    | missing left => exact absurd left required
  rw [tagged?, filter_of_lookup offers.distinct present]
  simp only [tagged?.word?, listed]
  rfl

end Offers

/-- However the value is restated, this is what is read of it, as long as it is not nested more deeply. -/
def ReadsAs {α : Type} (omits : Omission) (levels : Nat) (read : Json → Option α) (value : Json) (result : α) :
    Prop :=
  ∀ json, Restated omits value json → json.depth ≤ levels → read json = some result

section

variable {α : Type} {read : Json → Option α} {result : α} {fields : Fields} {optional : Prop}

theorem Stands.required (stands : Stands omits levels optional value (fields.value? name)) (needed : ¬ optional)
    (reads : ReadsAs omits levels read value result) : fields.required? name read = some result := by
  rw [Fields.required?]
  generalize fields.value? name = found at stands ⊢
  cases stands with
  | held restated shallow => exact reads _ restated shallow
  | missing left => exact absurd left needed

theorem Stands.orElse (stands : Stands omits levels optional value (fields.value? name)) (default : α)
    (same : optional → result = default) (reads : ReadsAs omits levels read value result) :
    fields.orElse? name default read = some result := by
  rw [Fields.orElse?]
  generalize fields.value? name = found at stands ⊢
  cases stands with
  | held restated shallow => exact reads _ restated shallow
  | missing left => exact congrArg some (same left).symm

/-- Reading goes on with what has been read. -/
theorem read_on {β : Type} {first : Option α} {next : α → Option β} {last : β} (found : first = some result)
    (onward : next result = some last) : (first >>= next) = some last := by
  rw [found]
  exact onward

/-- A record with one field. -/
theorem Offers.only {β : Type} (offers : Offers omits levels omitted [(name, value)] offered) (wrap : α → β)
    (required : (name, value) ∉ omitted) (reads : ReadsAs omits levels read value result) :
    (do
      let fields ← (Json.object offered).fields? [name]
      return wrap (← fields.required? name read)) = some (wrap result) := by
  obtain ⟨fields, found, stands⟩ := offers.fields [name]
  have field := (stands name List.mem_cons_self value List.mem_cons_self).required required reads
  exact read_on found (read_on field rfl)

/-- A record with one field that may be left out. -/
theorem Offers.onlyOrElse {β : Type} (offers : Offers omits levels omitted [(name, value)] offered) (wrap : α → β)
    (default : α) (same : (name, value) ∈ omitted → result = default) (reads : ReadsAs omits levels read value result) :
    (do
      let fields ← (Json.object offered).fields? [name]
      return wrap (← fields.orElse? name default read)) = some (wrap result) := by
  obtain ⟨fields, found, stands⟩ := offers.fields [name]
  have field := (stands name List.mem_cons_self value List.mem_cons_self).orElse default same reads
  exact read_on found (read_on field rfl)

theorem ReadsAs.leaf (lone : value.isContainer = false) (reads : read value = some result) :
    ReadsAs omits levels read value result := by
  intro json restated _
  cases restated with
  | leaf => exact reads
  | array => cases lone
  | object => cases lone

theorem ReadsAs.nullable {write : α → Json} {option : Option α} (strict : read .null = none)
    (each : ∀ value ∈ option, ReadsAs omits levels read (write value) value) :
    ReadsAs omits levels (nullable? read) (.ofOption write option) option := by
  cases option with
  | none => exact .leaf rfl rfl
  | some value =>
    intro json restated shallow
    have found := each value rfl json restated shallow
    cases json with
    | null => exact absurd (strict.symm.trans found) nofun
    | _ => exact congrArg (Option.map some) found

theorem RestatedItems.mapM {write : α → Json} {values : List α} {others : List Json}
    (restated : RestatedItems omits (values.map write) others)
    (each : ∀ value ∈ values, ReadsAs omits levels read (write value) value)
    (shallow : ∀ other ∈ others, other.depth ≤ levels) : others.mapM read = some values := by
  induction values generalizing others with
  | nil =>
    cases restated
    rfl
  | cons value values tail =>
    obtain ⟨first, behind⟩ := List.forall_mem_cons.mp each
    cases restated with
    | cons here later =>
      obtain ⟨fits, others⟩ := List.forall_mem_cons.mp shallow
      rw [List.mapM_cons, first _ here fits, tail later behind others]
      rfl

theorem ReadsAs.list {write : α → Json} {values : List α}
    (each : ∀ value ∈ values, ReadsAs omits levels read (write value) value) :
    ReadsAs omits levels (listOf? read) (.ofList write values) values := by
  intro json restated shallow
  cases restated with
  | leaf lone => cases lone
  | array items =>
    refine items.mapM each fun other member => ?_
    exact Nat.le_trans (depth_le_of_mem_items member) (Nat.le_of_succ_le shallow)

/-- An object is read as its entries are, wherever they stand. -/
theorem ReadsAs.object (omitted : List (String × Json)) (known : omits entries = omitted)
    (distinct : (entries.map Prod.fst).Nodup)
    (reads : ∀ offered, Offers omits levels omitted entries offered → read (.object offered) = some result) :
    ReadsAs omits levels read (.object entries) result := by
  intro json restated shallow
  obtain ⟨offered, rfl, offers⟩ := restated.offers known distinct (Nat.le_succ_of_le shallow)
  exact reads offered offers

/-- A record with a tag is read as the tag and the other fields are. -/
theorem ReadsAs.tagged {word : String} (words : List String) (omitted : List (String × Json))
    (known : omits ((key, .text word) :: entries) = omitted) (distinct : (key :: entries.map Prod.fst).Nodup)
    (required : (key, .text word) ∉ omitted) (listed : words.contains word = true)
    (reads : ∀ json content, json.tagged? .free key words = some (word, .object content) →
      Offers omits levels omitted entries content → read json = some result) :
    ReadsAs omits levels read (.object ((key, .text word) :: entries)) result := by
  refine .object omitted known distinct fun offered offers => ?_
  obtain ⟨content, tagged, offers⟩ := offers.tagged .free required listed (List.nodup_cons.mp distinct).1
  exact reads (.object offered) content tagged offers

/-- The only entry of an object, unless it may be missing. -/
theorem ReadsAs.single (omitted : List (String × Json)) (known : omits [(name, value)] = omitted)
    (required : (name, value) ∉ omitted)
    (reads : ∀ json, Restated omits value json → json.depth ≤ levels → read (.object [(name, json)]) = some result) :
    ReadsAs omits levels read (.object [(name, value)]) result := by
  intro json restated shallow
  cases restated with
  | leaf lone => cases lone
  | object each order =>
    cases each with
    | left optional => exact absurd (known ▸ optional) required
    | @kept _ _ _ _ _ other here later =>
      cases later
      cases List.perm_singleton.mp order
      have inside : other.depth ≤ depthOfEntries [(name, other)] := Nat.le_max_left _ _
      exact reads other here (Nat.le_trans inside (Nat.le_of_succ_le shallow))

end

end TraversalPlanner.Json
