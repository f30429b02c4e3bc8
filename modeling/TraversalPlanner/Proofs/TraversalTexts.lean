import TraversalPlanner.Proofs.JsonTexts
import TraversalPlanner.Proofs.TraversalReading

/-! The texts of traversals. What is written of a traversal has no unreadable parts, so it is read back from its text,
and from the text of anything it is restated as. -/

namespace TraversalPlanner

open Json

namespace Traversal

/-- What the leaves of a written traversal are: whole numbers of 64 bits, or anything else that stands for a value. -/
def Plain : Json → Prop
  | .whole n => -0x8000000000000000 ≤ n ∧ n ≤ 0x7FFFFFFFFFFFFFFF
  | .unreadable => False
  | _ => True

@[simp]
theorem plain_null : Plain .null := trivial

@[simp]
theorem plain_bool (value : Bool) : Plain (.bool value) := trivial

@[simp]
theorem plain_real (x : Number.Binary64) : Plain (.real x) := trivial

@[simp]
theorem plain_text (content : String) : Plain (.text content) := trivial

@[simp]
theorem plain_texts (values : List String) : Throughout Plain (texts values) := by
  simp [texts, ofList]

@[simp]
theorem plain_optionalText (text : Option String) : Throughout Plain (ofOption Json.text text) := by
  cases text <;> simp [ofOption]

@[simp]
theorem plain_optionalBool (value : Option Bool) : Throughout Plain (ofOption Json.bool value) := by
  cases value <;> simp [ofOption]

@[simp]
theorem plain_int32 (n : Int32) : Plain (.whole n.toInt) := by
  have lower := Int32.le_toInt n
  have upper := Int32.toInt_lt n
  constructor <;> omega

@[simp]
theorem plain_int64 (n : Int64) : Plain (.whole n.toInt) := by
  have lower := Int64.le_toInt n
  have upper := Int64.toInt_lt n
  constructor <;> omega

mutual
theorem plain_literal (literal : Literal) : Throughout Plain literal.toJson := by
  match literal with
  | .bool _ | .whole _ | .real _ | .text _ => simp [Literal.toJson]
  | .list items => simpa [Literal.toJson, toJsonAll_eq] using plain_literals items
termination_by structural literal

theorem plain_literals (items : List Literal) : ∀ item ∈ items, Throughout Plain item.toJson := by
  match items with
  | [] => exact fun _ member => absurd member List.not_mem_nil
  | item :: items => exact List.forall_mem_cons.mpr ⟨plain_literal item, plain_literals items⟩
termination_by structural items
end

@[simp]
theorem plain_ids (ids : List Literal) : Throughout Plain (literals ids) := by
  simpa [literals, ofList] using plain_literals ids

@[simp]
theorem plain_comparator (comparator : Comparator) : Throughout Plain (Vocabulary.toJson comparator) := by
  simp [Vocabulary.toJson]

@[simp]
theorem plain_filter (filter : Filter) : Throughout Plain filter.toJson := by
  cases tested : filter.test with
  | none => simp [Filter.toJson, tested, ofOption]
  | some test => simp [Filter.toJson, tested, ofOption, Test.toJson, plain_literal]

@[simp]
theorem plain_condition (condition : TagCondition) : Throughout Plain condition.toJson := by
  induction condition with
  | compare comparator tag => simp [TagCondition.toJson]
  | and left right here there => simp [TagCondition.toJson, here, there]
  | or left right here there => simp [TagCondition.toJson, here, there]

theorem plain_modifier (modifier : Modifier) (each : ∀ inner ∈ modifier.inner, Throughout Plain (toJson inner)) :
    Throughout Plain (modifierToJson modifier) := by
  cases modifier with
  | traversal inner =>
    have nested : Throughout Plain (record (stepsToJson inner)) := each inner List.mem_cons_self
    simp [modifierToJson, nested]
  | _ => simp [modifierToJson]

theorem plain_step (step : Step) (each : ∀ inner ∈ step.action.nested, Throughout Plain (toJson inner)) :
    Throughout Plain (stepToJson step) := by
  obtain ⟨action, tag⟩ := step
  have entries : ∀ entry ∈ actionEntries action, Throughout Plain entry.2 := by
    match action, each with
    | .whereTraversal inner, each =>
      have nested : Throughout Plain (record (stepsToJson inner)) := each inner List.mem_cons_self
      simp [actionEntries, nested]
    | .not inner, each =>
      have nested : Throughout Plain (record (stepsToJson inner)) := each inner List.mem_cons_self
      simp [actionEntries, nested]
    | .apply inner _, each =>
      have nested : Throughout Plain (record (stepsToJson inner)) := each inner List.mem_cons_self
      simp [actionEntries, nested]
    | .union branches, each =>
      have nested : ∀ branch ∈ branches, Throughout Plain (toJson branch) := each
      simpa [actionEntries, branchesToJson_eq] using nested
    | .by modifier _, each => simp [actionEntries, plain_modifier modifier each]
    | .vertices _, _ | .edges _, _ | .has _, _ | .hasLabel _, _ | .hasId _, _ | .adjacent .., _ | .edgeVertex _, _
    | .otherVertex, _ | .path .., _ | .whereTags .., _ | .limit _, _ | .range .., _ | .order, _ | .group, _
    | .groupCount, _ | .count, _ | .dedup _, _ | .select _, _ | .values _, _ | .valueMap _, _ | .unknown _, _ =>
      simp [actionEntries, ofList]
  rw [stepToJson, throughout_object]
  exact List.forall_mem_append.mpr ⟨entries, by simp⟩

/-- Every part of a written traversal stands for a value. -/
theorem plain_traversal (traversal : Traversal) : Throughout Plain traversal.toJson := by
  induction traversal using deep_induction with
  | rise steps each =>
    have every : ∀ step ∈ steps, Throughout Plain (stepToJson step) := fun step member =>
      plain_step step (each step member)
    simpa [toJson, record, stepsToJson_eq] using every

/-- A restated traversal is read as the traversal. -/
theorem ofJson?_of_restated {traversal : Traversal} {json : Json} (restated : Restated omissible traversal.toJson json) :
    ofJson? json = some traversal := by
  have within := reads_traversal traversal json.depth json restated (Nat.le_refl _)
  obtain ⟨offered, rfl, offers⟩ := restated.offers (show omissible _ = [("predicate", .null)] from rfl) (by simp)
    (Nat.le_succ _)
  obtain ⟨fields, found, stands⟩ := offers.fields ["steps"]
  have standing := stands "steps" List.mem_cons_self _ List.mem_cons_self
  generalize taken : fields.value? "steps" = held at standing
  cases standing with
  | missing left => simp at left
  | held inside _ =>
    have plain : Throughout Plain (.array (stepsToJson traversal)) := by
      simpa [toJson, record] using plain_traversal traversal
    have kept := inside.leaves
    cases inside with
    | leaf lone => cases lone
    | @array _ others _ =>
      have steps : fields.required? "steps" (listOf? some) = some others := by
        rw [Fields.required?, taken]
        exact (List.mapM_pure (m := Option) (f := id)).trans (congrArg some (List.map_id others))
      have readable : others.all Json.readable = true := by
        refine List.all_eq_true.mpr fun other member => readable_of_leaves other fun broken => ?_
        exact plain _ (kept (mem_leavesOfItems.mpr ⟨other, member, broken⟩))
      exact read_on found (read_on steps ((if_pos readable).trans within))

/-- A traversal whose constants hold finite doubles only, each read back from the numeral that is written of it, is read
back from its text, and from any text of what it is restated as: with the entries of objects in another order, without
null aliases and without fields that stand at their defaults. -/
theorem restated_texts_read_back (traversal : Traversal)
    (finite : ∀ x, .real x ∈ traversal.toJson.leaves → x.isFinite = true)
    (codec : ∀ x, .real x ∈ traversal.toJson.leaves → x.isFinite = true → Recovered x) :
    (traversal.toJson.depth ≤ Expectation.nestingLimit → parse? traversal.toJson.compact = some traversal) ∧
    ∀ json, Restated omissible traversal.toJson json →
      (∀ text, Json.parse? text = some json → parse? text = some traversal) ∧
      (json.depth ≤ Expectation.nestingLimit → parse? json.compact = some traversal) := by
  have sound : ∀ leaf ∈ traversal.toJson.leaves, leaf.Recoverable := by
    intro leaf member
    have plain := plain_traversal traversal leaf member
    cases leaf with
    | whole n => exact ⟨plain.1, by have := plain.2; omega⟩
    | real x => exact codec x member (finite x member)
    | unreadable => exact plain
    | _ => exact trivial
  have reads {json : Json} (restated : Restated omissible traversal.toJson json) (text : String)
      (parsed : Json.parse? text = some json) : parse? text = some traversal := by
    rw [parse?, parsed]
    exact ofJson?_of_restated restated
  refine ⟨fun shallow => ?_, fun json restated => ⟨reads restated, fun shallow => ?_⟩⟩
  · exact reads (.refl _) _ (parse?_compact sound shallow)
  · exact reads restated _ (parse?_compact (fun leaf member => sound leaf (restated.leaves member)) shallow)

def half : Number.Binary64 := ⟨0x3FE0000000000000⟩

theorem half_recovered : Recovered half := by decide +kernel

def weightFilters : List Filter := [⟨"weight", some ⟨.gt, .real half⟩⟩, ⟨"name", none⟩]

def weighed : Traversal :=
  [⟨.vertices [], none⟩, ⟨.has weightFilters, some "a"⟩, ⟨.whereTraversal [⟨.values ["name"], none⟩], none⟩]

def terseFilters : Json := .array [
  .object [("predicate", .object [("value", .object [("float", .real half)]), ("cmp", .text "gt")]), ("key", .text "weight")],
  .object [("key", .text "name")]]

def terseNested : Json :=
  .object [("steps", .array [.object [("keys", .array [.text "name"]), ("step", .text "values")]])]

/-- The same traversal with fields in another order and without what may be left out. -/
def tersely : Json := .object [("steps", .array [
  .object [("step", .text "v")],
  .object [("alias", .text "a"), ("step", .text "has"), ("containers", terseFilters)],
  .object [("traversal", terseNested), ("step", .text "where_traversal")]])]

theorem weighed_restated : Restated omissible weighed.toJson tersely := by
  have filters : Restated omissible (.ofList Filter.toJson weightFilters) terseFilters := by
    refine .array (.cons (.object (.kept (.refl _) (.kept ?_ .nil)) (.swap _ _ _)) (.cons ?_ .nil))
    · exact .object (.kept (.refl _) (.kept (.refl _) .nil)) (.swap _ _ _)
    · exact .object (.kept (.refl _) (.left (.head _) .nil)) (.refl _)
  have nested : Restated omissible (toJson [⟨.values ["name"], none⟩]) terseNested := by
    refine .object (.kept (.array (.cons ?_ .nil)) .nil) (.refl _)
    exact .object (.kept (.refl _) (.kept (.refl _) (.left (.head _) .nil))) (.swap _ _ _)
  refine .object (.kept (.array (.cons ?_ (.cons ?_ (.cons ?_ .nil)))) .nil) (.refl _)
  · exact .object (.kept (.refl _) (.left (.tail _ (.head _)) (.left (.head _) .nil))) (.refl _)
  · refine .object (.kept (.refl _) (.kept filters (.kept (.refl _) .nil))) ?_
    exact (List.Perm.swap _ _ _).trans (.cons _ (.swap _ _ _))
  · exact .object (.kept (.refl _) (.kept nested (.left (.head _) .nil))) (.swap _ _ _)

theorem weighed_read_back :
    (∀ x, .real x ∈ weighed.toJson.leaves → x.isFinite = true) ∧
      (∀ x, .real x ∈ weighed.toJson.leaves → x.isFinite = true → Recovered x) ∧
      Restated omissible weighed.toJson tersely ∧ parse? tersely.compact = some weighed := by
  have only : ∀ x, .real x ∈ weighed.toJson.leaves → x = half := by
    intro x member
    have listed : Json.real x ∈ [.text "v", .null, .text "has", .text "weight", .text "gt", .real half, .text "name",
      .null, .text "a", .text "where_traversal", .text "values", .text "name", .null, .null] := member
    simpa using listed
  have finite : ∀ x, .real x ∈ weighed.toJson.leaves → x.isFinite = true := fun x member =>
    only x member ▸ show half.isFinite = true by decide +kernel
  have codec : ∀ x, .real x ∈ weighed.toJson.leaves → x.isFinite = true → Recovered x := fun x member _ =>
    only x member ▸ half_recovered
  refine ⟨finite, codec, weighed_restated, ?_⟩
  exact ((restated_texts_read_back weighed finite codec).2 tersely weighed_restated).2 (by decide)

end Traversal

end TraversalPlanner
