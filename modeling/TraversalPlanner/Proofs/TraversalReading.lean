import TraversalPlanner.Proofs.Nesting
import TraversalPlanner.Proofs.Restatement
import TraversalPlanner.Traversal.Text

/-! Reading traversals that were restated. Each kind of step has its own tag, fields and defaults, and writing and
reading agree on all of them, so a restated traversal is read as the one that was written, however deep it is nested. -/

namespace TraversalPlanner

open Json

namespace Traversal

/-- The fields of a step that may be left out, each with the value that it then has. -/
def actionDefaults : String → List (String × Json)
  | "v" => [("ids", .array [])]
  | "e" => [("ids", .array [])]
  | "vertex" => [("labels", .array []), ("edge", .bool false)]
  | "path_expand" => [("labels", .array []), ("whole_path", .null)]
  | "where_predicate" => [("start_tag", .null)]
  | "dedup" => [("tags", .array [])]
  | "value_map" => [("keys", .array [])]
  | "by" => [("order", .null)]
  | _ => []

/-- What the objects of a traversal may leave out. Steps and modulators are known by their tags; of the other records
only filters have a field with a default. -/
def omissible : Omission := fun entries =>
  match entries.lookup "step", entries.lookup "by" with
  | some (.text word), _ => ("alias", .null) :: actionDefaults word
  | none, some (.text "select") => [("property", .null)]
  | none, none => [("predicate", .null)]
  | _, _ => []

variable {levels : Nat}

@[simp]
theorem optionalText_eq_null {text : Option String} : ofOption Json.text text = .null ↔ text = none := by
  cases text <;> simp [ofOption]

@[simp]
theorem optionalBool_eq_null {value : Option Bool} : ofOption Json.bool value = .null ↔ value = none := by
  cases value <;> simp [ofOption]

@[simp]
theorem optionalTest_eq_null {test : Option Test} : ofOption Test.toJson test = .null ↔ test = none := by
  cases test <;> simp [ofOption, Test.toJson]

@[simp]
theorem texts_eq_nil {values : List String} : texts values = .array [] ↔ values = [] := by
  simp [texts, ofList]

@[simp]
theorem literals_eq_nil {values : List Literal} : literals values = .array [] ↔ values = [] := by
  simp [literals, ofList]

theorem reads_text (text : String) : ReadsAs omissible levels Json.text? (.text text) text := .leaf rfl rfl

theorem reads_bool (value : Bool) : ReadsAs omissible levels Json.bool? (.bool value) value := .leaf rfl rfl

theorem reads_int32 (n : Int32) : ReadsAs omissible levels Json.int32? (.whole n.toInt) n := by
  refine .leaf rfl ?_
  have lower := Int32.le_toInt n
  have upper := Int32.toInt_lt n
  rw [int32?, wholeBetween?, if_pos (by omega), Option.map_some, Int32.ofInt_toInt]

theorem reads_int64 (n : Int64) : ReadsAs omissible levels Json.int64? (.whole n.toInt) n := by
  refine .leaf rfl ?_
  have lower := Int64.le_toInt n
  have upper := Int64.toInt_lt n
  rw [int64?, wholeBetween?, if_pos (by omega), Option.map_some, Int64.ofInt_toInt]

theorem reads_real (x : Number.Binary64) : ReadsAs omissible levels Json.real? (.real x) x := .leaf rfl rfl

theorem reads_comparator (spelling : Spelling) (comparator : Comparator) :
    ReadsAs omissible levels (Vocabulary.ofSpelled? spelling) (Vocabulary.toJson comparator) comparator := by
  refine .leaf rfl ?_
  cases spelling <;> cases comparator <;> rfl

theorem reads_optionalText (text : Option String) :
    ReadsAs omissible levels optionalText? (.ofOption Json.text text) text :=
  .nullable rfl fun text _ => reads_text text

theorem reads_optionalBool (value : Option Bool) :
    ReadsAs omissible levels (nullable? Json.bool?) (.ofOption Json.bool value) value :=
  .nullable rfl fun value _ => reads_bool value

theorem reads_texts (values : List String) : ReadsAs omissible levels texts? (texts values) values :=
  .list fun text _ => reads_text text

theorem toJsonAll_eq (items : List Literal) : Literal.toJsonAll items = items.map Literal.toJson := by
  induction items with
  | nil => rfl
  | cons item items tail => rw [Literal.toJsonAll, tail, List.map_cons]

theorem ofJsonAll?_eq (items : List Json) : Literal.ofJsonAll? items = items.mapM Literal.ofJson? := by
  induction items with
  | nil => rfl
  | cons item items tail => rw [Literal.ofJsonAll?, tail, List.mapM_cons]

mutual
theorem reads_literal (literal : Literal) : ReadsAs omissible levels Literal.ofJson? literal.toJson literal := by
  match literal with
  | .bool value =>
    refine .single [("predicate", .null)] rfl (by simp) fun json restated shallow => ?_
    rw [Literal.ofJson?, reads_bool value json restated shallow]
    rfl
  | .whole n =>
    refine .single [("predicate", .null)] rfl (by simp) fun json restated shallow => ?_
    rw [Literal.ofJson?, reads_int64 n json restated shallow]
    rfl
  | .real x =>
    refine .single [("predicate", .null)] rfl (by simp) fun json restated shallow => ?_
    rw [Literal.ofJson?, reads_real x json restated shallow]
    rfl
  | .text content =>
    refine .single [("predicate", .null)] rfl (by simp) fun json restated shallow => ?_
    rw [Literal.ofJson?, reads_text content json restated shallow]
    rfl
  | .list items =>
    refine .single [("predicate", .null)] rfl (by simp) fun json restated shallow => ?_
    rw [toJsonAll_eq] at restated
    have found := ReadsAs.list (reads_literals items) json restated shallow
    cases json with
    | array others =>
      rw [listOf?, ← ofJsonAll?_eq] at found
      rw [Literal.ofJson?, found]
      rfl
    | _ => cases found
termination_by structural literal

theorem reads_literals (items : List Literal) :
    ∀ item ∈ items, ReadsAs omissible levels Literal.ofJson? item.toJson item := by
  match items with
  | [] => exact fun _ member => absurd member List.not_mem_nil
  | item :: items => exact List.forall_mem_cons.mpr ⟨reads_literal item, reads_literals items⟩
termination_by structural items
end

theorem reads_test (spelling : Spelling) (test : Test) :
    ReadsAs omissible levels (Test.ofJson? spelling) test.toJson test := by
  refine .object [("predicate", .null)] rfl (by simp) fun offered offers => ?_
  obtain ⟨fields, found, stands⟩ := offers.fields ["cmp", "value"]
  have comparator := (stands "cmp" (by simp) _ (by simp)).required (by simp) (reads_comparator spelling test.comparator)
  have value := (stands "value" (by simp) _ (by simp)).required (by simp) (reads_literal test.value)
  exact read_on found (read_on comparator (read_on value rfl))

theorem reads_optionalTest (spelling : Spelling) (test : Option Test) :
    ReadsAs omissible levels (nullable? (Test.ofJson? spelling)) (.ofOption Test.toJson test) test :=
  .nullable (by cases spelling <;> rfl) fun test _ => reads_test spelling test

theorem reads_filter (spelling : Spelling) (filter : Filter) :
    ReadsAs omissible levels (Filter.ofJson? spelling) filter.toJson filter := by
  refine .object [("predicate", .null)] rfl (by simp) fun offered offers => ?_
  obtain ⟨fields, found, stands⟩ := offers.fields ["key", "predicate"]
  have key := (stands "key" (by simp) _ (by simp)).required (by simp) (reads_text filter.key)
  have test := (stands "predicate" (by simp) _ (by simp)).orElse none
    (by simp) (reads_optionalTest spelling filter.test)
  exact read_on found (read_on key (read_on test rfl))

theorem reads_comparison (comparator : Comparator) (tag : String) :
    ReadsAs omissible levels (TagCondition.comparison? .free)
      (.object [("cmp", Vocabulary.toJson comparator), ("tag", .text tag)]) (.compare comparator tag) := by
  refine .object [("predicate", .null)] rfl (by simp) fun offered offers => ?_
  obtain ⟨fields, found, stands⟩ := offers.fields ["cmp", "tag"]
  have cmp := (stands "cmp" (by simp) _ (by simp)).required (by simp) (reads_comparator .free comparator)
  have tag := (stands "tag" (by simp) _ (by simp)).required (by simp) (reads_text tag)
  have parts : (Json.object offered).parts? .free ["cmp", "tag"] = some fields := found
  simp only [TagCondition.comparison?, parts, cmp, tag, Option.bind_eq_bind, Option.bind_some]
  rfl

/-- Two restated items are still two. -/
theorem pair_of_restated {first second json : Json} (restated : Restated omissible (.array [first, second]) json) :
    ∃ left right, json = .array [left, right] ∧ Restated omissible first left ∧ Restated omissible second right := by
  cases restated with
  | leaf lone => cases lone
  | array each =>
    cases each with
    | cons here later =>
      cases later with
      | cons there behind =>
        cases behind
        exact ⟨_, _, rfl, here, there⟩

theorem reads_condition (condition : TagCondition) :
    ReadsAs omissible levels (TagCondition.ofJson? .free) condition.toJson condition := by
  induction condition with
  | compare comparator tag =>
    refine .single [("predicate", .null)] rfl (by simp) fun json restated shallow => ?_
    exact reads_comparison comparator tag json restated shallow
  | and left right here there =>
    refine .single [("predicate", .null)] rfl (by simp) fun json restated shallow => ?_
    obtain ⟨first, second, rfl, left, right⟩ := pair_of_restated restated
    have inside : first.depth ≤ levels ∧ second.depth ≤ levels := by
      simp only [depth, depthOfItems] at shallow
      omega
    rw [TagCondition.ofJson?, here first left inside.1, there second right inside.2]
    rfl
  | or left right here there =>
    refine .single [("predicate", .null)] rfl (by simp) fun json restated shallow => ?_
    obtain ⟨first, second, rfl, left, right⟩ := pair_of_restated restated
    have inside : first.depth ≤ levels ∧ second.depth ≤ levels := by
      simp only [depth, depthOfItems] at shallow
      omega
    rw [TagCondition.ofJson?, here first left inside.1, there second right inside.2]
    rfl

theorem stepsToJson_eq (steps : List Step) : stepsToJson steps = steps.map stepToJson := by
  induction steps with
  | nil => rfl
  | cons step steps tail => rw [stepsToJson, tail, List.map_cons]

theorem branchesToJson_eq (branches : List Traversal) : branchesToJson branches = branches.map toJson := by
  induction branches with
  | nil => rfl
  | cons branch branches tail =>
    rw [branchesToJson, tail, List.map_cons]
    rfl

variable {nested : Json → Option Traversal}

theorem reads_modifier (modifier : Modifier)
    (each : ∀ inner ∈ modifier.inner, ReadsAs omissible levels nested (toJson inner) inner) :
    ReadsAs omissible levels (modifierOfJson? .free nested) (modifierToJson modifier) modifier := by
  cases modifier with
  | identity | count | fold =>
    refine .tagged modifierWords [] rfl (by simp) (by simp) rfl fun json content tagged offers => ?_
    obtain ⟨fields, found, -⟩ := offers.fields []
    exact read_on tagged (read_on found rfl)
  | key name =>
    refine .tagged modifierWords [] rfl (by simp) (by simp) rfl fun json content tagged offers => ?_
    rw [modifierOfJson?, tagged]
    exact offers.only Modifier.key (by simp) (reads_text name)
  | values keys =>
    refine .tagged modifierWords [] rfl (by simp) (by simp) rfl fun json content tagged offers => ?_
    rw [modifierOfJson?, tagged]
    exact offers.only Modifier.values (by simp) (reads_texts keys)
  | valueMap keys =>
    refine .tagged modifierWords [] rfl (by simp) (by simp) rfl fun json content tagged offers => ?_
    rw [modifierOfJson?, tagged]
    exact offers.only Modifier.valueMap (by simp) (reads_texts keys)
  | select tag property =>
    refine .tagged modifierWords [("property", .null)] rfl (by simp) (by simp) rfl fun json content tagged offers => ?_
    obtain ⟨fields, found, stands⟩ := offers.fields ["tag", "property"]
    have key := (stands "tag" (by simp) _ (by simp)).required (by simp) (reads_text tag)
    have property := (stands "property" (by simp) _ (by simp)).orElse none (by simp) (reads_optionalText property)
    exact read_on tagged (read_on found (read_on key (read_on property rfl)))
  | traversal inner =>
    refine .tagged modifierWords [] rfl (by simp) (by simp) rfl fun json content tagged offers => ?_
    rw [modifierOfJson?, tagged]
    exact offers.only Modifier.traversal (by simp) (each inner List.mem_cons_self)

/-- The tag and the alias of a step are no fields of its action. -/
theorem outer_not_default {name : String} (outer : name = "step" ∨ name = "alias") (value : Json) (word : String) :
    (name, value) ∉ actionDefaults word := by
  unfold actionDefaults
  rcases outer with rfl | rfl <;> split <;> simp

/-- A step is read as its action is, and its alias beside it. -/
theorem reads_action {action : Action} {word : String} {parts : List (String × Json)} (tag : Option String)
    (written : actionEntries action = ("step", .text word) :: parts) (listed : actionWords.contains word = true)
    (distinct : ("step" :: "alias" :: parts.map Prod.fst).Nodup)
    (reads : ∀ content, Offers omissible levels (("alias", .null) :: actionDefaults word) parts content →
      actionOfJson? nested word (.object content) = some action) :
    ReadsAs omissible levels (stepOfJson? nested) (stepToJson ⟨action, tag⟩) ⟨action, tag⟩ := by
  obtain ⟨unstepped, unaliased, _⟩ : "step" ∉ "alias" :: parts.map Prod.fst ∧ "alias" ∉ parts.map Prod.fst ∧
      (parts.map Prod.fst).Nodup := by simpa only [List.nodup_cons] using distinct
  rw [stepToJson, written, List.cons_append]
  refine .object (("alias", .null) :: actionDefaults word) rfl ?_ fun offered offers => ?_
  · refine (List.Perm.nodup_iff ?_).mpr distinct
    rw [List.map_cons, List.map_append]
    exact (List.perm_append_singleton _ _).cons _
  · obtain ⟨fields, found, stands⟩ := offers.fields ["alias"]
    have own := (stands "alias" (by simp) _ (by simp)).orElse none (by simp [outer_not_default]) (reads_optionalText tag)
    have others : Offers omissible levels (("alias", .null) :: actionDefaults word) (("step", .text word) :: parts)
        (offered.filter fun entry => entry.1 ≠ "alias") := by
      refine (offers.subset (List.cons_subset_cons _ (List.subset_append_left _ _))).without ?_
      simpa using unaliased
    obtain ⟨content, tagged, rest⟩ := others.tagged .free (by simp [outer_not_default]) listed
      fun again => unstepped (List.mem_cons_of_mem _ again)
    simp only [stepOfJson?, tagged, found, own, reads content rest, Option.bind_eq_bind, Option.bind_some]
    rfl

theorem reads_branches {branches : List Traversal}
    (each : ∀ branch ∈ branches, ReadsAs omissible levels nested (toJson branch) branch) :
    ReadsAs omissible levels (listOf? nested) (.array (branchesToJson branches)) branches := by
  rw [branchesToJson_eq]
  exact .list each

theorem reads_step (step : Step)
    (each : ∀ inner ∈ step.action.nested, ReadsAs omissible levels nested (toJson inner) inner) :
    ReadsAs omissible levels (stepOfJson? nested) (stepToJson step) step := by
  obtain ⟨action, tag⟩ := step
  match action, each with
  | .vertices ids, _ =>
    refine reads_action tag rfl rfl (by simp) fun content offers => ?_
    exact offers.onlyOrElse Action.vertices [] (by simp [actionDefaults]) (.list fun id _ => reads_literal id)
  | .edges ids, _ =>
    refine reads_action tag rfl rfl (by simp) fun content offers => ?_
    exact offers.onlyOrElse Action.edges [] (by simp [actionDefaults]) (.list fun id _ => reads_literal id)
  | .has filters, _ =>
    refine reads_action tag rfl rfl (by simp) fun content offers => ?_
    exact offers.only Action.has (by simp [actionDefaults]) (.list fun filter _ => reads_filter .free filter)
  | .hasLabel labels, _ =>
    refine reads_action tag rfl rfl (by simp) fun content offers => ?_
    exact offers.only Action.hasLabel (by simp [actionDefaults]) (reads_texts labels)
  | .hasId ids, _ =>
    refine reads_action tag rfl rfl (by simp) fun content offers => ?_
    exact offers.only Action.hasId (by simp [actionDefaults]) (.list fun id _ => reads_literal id)
  | .adjacent direction labels edge, _ =>
    refine reads_action tag rfl rfl (by simp) fun content offers => ?_
    obtain ⟨fields, found, stands⟩ := offers.fields ["direction", "labels", "edge"]
    have directionRead := (stands "direction" (by simp) _ (by simp)).required (by simp [actionDefaults])
      (reads_text direction)
    have labelsRead := (stands "labels" (by simp) _ (by simp)).orElse [] (by simp [actionDefaults]) (reads_texts labels)
    have edgeRead := (stands "edge" (by simp) _ (by simp)).orElse false (by simp [actionDefaults]) (reads_bool edge)
    exact read_on found (read_on directionRead (read_on labelsRead (read_on edgeRead rfl)))
  | .edgeVertex direction, _ =>
    refine reads_action tag rfl rfl (by simp) fun content offers => ?_
    exact offers.only Action.edgeVertex (by simp [actionDefaults]) (reads_text direction)
  | .otherVertex, _ | .order, _ | .group, _ | .groupCount, _ | .count, _ =>
    exact reads_action tag rfl rfl (by simp) fun content offers => rfl
  | .path direction labels lower upper entire, _ =>
    refine reads_action tag rfl rfl (by simp) fun content offers => ?_
    obtain ⟨fields, found, stands⟩ := offers.fields ["direction", "labels", "lower", "upper", "whole_path"]
    have directionRead := (stands "direction" (by simp) _ (by simp)).required (by simp [actionDefaults])
      (reads_text direction)
    have labelsRead := (stands "labels" (by simp) _ (by simp)).orElse [] (by simp [actionDefaults]) (reads_texts labels)
    have lowerRead := (stands "lower" (by simp) _ (by simp)).required (by simp [actionDefaults]) (reads_int32 lower)
    have upperRead := (stands "upper" (by simp) _ (by simp)).required (by simp [actionDefaults]) (reads_int32 upper)
    have wholePathRead := (stands "whole_path" (by simp) _ (by simp)).orElse none (by simp [actionDefaults])
      (reads_optionalBool entire)
    refine read_on found (read_on directionRead (read_on labelsRead ?_))
    exact read_on lowerRead (read_on upperRead (read_on wholePathRead rfl))
  | .whereTags start condition, _ =>
    refine reads_action tag rfl rfl (by simp) fun content offers => ?_
    obtain ⟨fields, found, stands⟩ := offers.fields ["start_tag", "predicate"]
    have startTagRead := (stands "start_tag" (by simp) _ (by simp)).orElse none (by simp [actionDefaults])
      (reads_optionalText start)
    have predicateRead := (stands "predicate" (by simp) _ (by simp)).required (by simp [actionDefaults])
      (reads_condition condition)
    exact read_on found (read_on startTagRead (read_on predicateRead rfl))
  | .whereTraversal inner, each =>
    refine reads_action tag rfl rfl (by simp) fun content offers => ?_
    exact offers.only Action.whereTraversal (by simp [actionDefaults]) (each inner List.mem_cons_self)
  | .not inner, each =>
    refine reads_action tag rfl rfl (by simp) fun content offers => ?_
    exact offers.only Action.not (by simp [actionDefaults]) (each inner List.mem_cons_self)
  | .apply inner join, each =>
    refine reads_action tag rfl rfl (by simp) fun content offers => ?_
    obtain ⟨fields, found, stands⟩ := offers.fields ["traversal", "join_kind"]
    have traversalRead := (stands "traversal" (by simp) _ (by simp [toJson])).required (by simp [actionDefaults])
      (each inner List.mem_cons_self)
    have joinKindRead := (stands "join_kind" (by simp) _ (by simp)).required (by simp [actionDefaults]) (reads_text join)
    exact read_on found (read_on traversalRead (read_on joinKindRead rfl))
  | .union branches, each =>
    refine reads_action tag rfl rfl (by simp) fun content offers => ?_
    exact offers.only Action.union (by simp [actionDefaults]) (reads_branches each)
  | .limit count, _ =>
    refine reads_action tag rfl rfl (by simp) fun content offers => ?_
    exact offers.only Action.limit (by simp [actionDefaults]) (reads_int32 count)
  | .range lower upper, _ =>
    refine reads_action tag rfl rfl (by simp) fun content offers => ?_
    obtain ⟨fields, found, stands⟩ := offers.fields ["lower", "upper"]
    have lowerRead := (stands "lower" (by simp) _ (by simp)).required (by simp [actionDefaults]) (reads_int32 lower)
    have upperRead := (stands "upper" (by simp) _ (by simp)).required (by simp [actionDefaults]) (reads_int32 upper)
    exact read_on found (read_on lowerRead (read_on upperRead rfl))
  | .dedup tags, _ =>
    refine reads_action tag rfl rfl (by simp) fun content offers => ?_
    exact offers.onlyOrElse Action.dedup [] (by simp [actionDefaults]) (reads_texts tags)
  | .select tags, _ =>
    refine reads_action tag rfl rfl (by simp) fun content offers => ?_
    exact offers.only Action.select (by simp [actionDefaults]) (reads_texts tags)
  | .values keys, _ =>
    refine reads_action tag rfl rfl (by simp) fun content offers => ?_
    exact offers.only Action.values (by simp [actionDefaults]) (reads_texts keys)
  | .valueMap keys, _ =>
    refine reads_action tag rfl rfl (by simp) fun content offers => ?_
    exact offers.onlyOrElse Action.valueMap [] (by simp [actionDefaults]) (reads_texts keys)
  | .by modifier order, each =>
    refine reads_action tag rfl rfl (by simp) fun content offers => ?_
    obtain ⟨fields, found, stands⟩ := offers.fields ["modifier", "order"]
    have modifierRead := (stands "modifier" (by simp) _ (by simp)).required (by simp [actionDefaults])
      (reads_modifier modifier each)
    have orderRead := (stands "order" (by simp) _ (by simp)).orElse none (by simp [actionDefaults])
      (reads_optionalText order)
    exact read_on found (read_on modifierRead (read_on orderRead rfl))
  | .unknown name, _ =>
    refine reads_action tag rfl rfl (by simp) fun content offers => ?_
    exact offers.only Action.unknown (by simp [actionDefaults]) (reads_text name)

theorem reads_traversal (traversal : Traversal) (levels : Nat) :
    ReadsAs omissible levels (ofJsonWithin? levels) traversal.toJson traversal := by
  induction traversal using deep_induction generalizing levels with
  | rise steps each =>
    intro json restated shallow
    have known : omissible [("steps", .array (stepsToJson steps))] = [("predicate", .null)] := rfl
    cases levels with
    | zero =>
      obtain ⟨offered, rfl, -⟩ := restated.offers known (by simp) (Nat.le_succ_of_le shallow)
      cases shallow
    | succ levels =>
      obtain ⟨offered, rfl, offers⟩ := restated.offers known (by simp) shallow
      obtain ⟨fields, found, stands⟩ := offers.fields ["steps"]
      have reads : ReadsAs omissible levels (listOf? (stepOfJson? (ofJsonWithin? levels)))
          (.array (stepsToJson steps)) steps := by
        rw [stepsToJson_eq]
        exact .list fun step member => reads_step step fun inner inside => each step member inner inside levels
      have stepsRead := (stands "steps" (by simp) _ (by simp)).required (by simp) reads
      exact read_on found stepsRead

end Traversal

end TraversalPlanner
