import Mathlib.Data.List.TakeWhile
import TraversalPlanner.Expression.Projection
import TraversalPlanner.Proofs.ListEffects
import TraversalPlanner.Proofs.QuotedTexts

/-! Finding the keys that have been written into an expression. A key is written as it is, so of the characters in
it only those are read that a property's name can begin with, and a quote in it can hide what is written behind. -/

namespace TraversalPlanner

open Proofs

namespace Expression

variable {front chars rest : List Char} {key text : String}

/-- What can be read of a key. -/
def stem (key : String) : String := String.ofList (key.toList.takeWhile isPropertyCharacter)

theorem stem_eq_self (plain : ∀ c ∈ key.toList, isPropertyCharacter c = true) : stem key = key := by
  rw [stem, List.takeWhile_eq_self_iff.mpr plain, String.ofList_toList]

/-- The name of a property cannot go on with these characters. -/
def Apart (chars : List Char) : Prop := ∀ c ∈ chars.head?, isPropertyCharacter c = false

theorem apart_nil : Apart [] := nofun

theorem apart_cons {c : Char} (outside : isPropertyCharacter c = false) (chars : List Char) : Apart (c :: chars) := by
  rintro _ ⟨⟩
  exact outside

theorem Apart.append (apart : Apart chars) (behind : Apart rest) : Apart (chars ++ rest) := by
  cases chars with
  | nil => exact behind
  | cons c chars => exact apart

theorem Apart.takeWhile_eq (apart : Apart rest) (chars : List Char) :
    (chars ++ rest).takeWhile isPropertyCharacter = chars.takeWhile isPropertyCharacter := by
  rw [List.takeWhile_append]
  split
  · next all =>
    have none : rest.takeWhile isPropertyCharacter = [] := by
      cases rest with
      | nil => rfl
      | cons c rest => exact List.takeWhile_cons_of_neg (Bool.eq_false_iff.mp (apart c rfl))
    rw [none, List.append_nil]
    exact ((List.takeWhile_prefix _).eq_of_length all).symm
  · rfl

theorem reference_key (apart : Apart rest) (legible : stem key ≠ "") :
    (reference ('.' :: (key.toList ++ rest))).1 = Variable.ofKey (stem key) := by
  have point : isTagCharacter '.' = false := by decide
  have read : property? ('.' :: (key.toList ++ rest)) =
      (some (Property.ofName (stem key)), (key.toList ++ rest).dropWhile isPropertyCharacter) := by
    rw [property?, apart.takeWhile_eq]
    split
    · next none => exact absurd (by rw [stem, none]) legible
    · rfl
  rw [reference, List.takeWhile_cons_of_neg (by simp [point]), List.dropWhile_cons_of_neg (by simp [point]), read]
  rfl

/-- The text is about a key of the current element. -/
def Mentions (key text : String) : Prop :=
  ∃ tail, text.toList = '@' :: '.' :: (key.toList ++ tail) ∧ Apart tail ∧ Paired tail

theorem render_ofKey (key : String) : (Variable.ofKey key).render = "@." ++ key := by
  simp only [Variable.render, Variable.ofKey, Option.map_none, Option.getD_none, Option.map_some, Option.getD_some,
    Property.name_ofName, String.append_empty, ← String.append_assoc]
  rfl

theorem mentions_subject (key : String) : Mentions key (Variable.ofKey key).render := by
  refine ⟨[], ?_, apart_nil, .nil⟩
  simp [render_ofKey]

theorem mentions_comparison (key : String) (comparator : Comparator) (value : Literal) :
    Mentions key (comparison (Variable.ofKey key).render comparator value.render) := by
  refine ⟨' ' :: (comparator.symbol.toList ++ ' ' :: value.render.toList), ?_, ?_, ?_⟩
  · simp [comparison, render_ofKey]
  · exact apart_cons (by decide) _
  · have symbol : '"' ∉ comparator.symbol.toList := by cases comparator <;> decide
    exact .plain (by decide) ((paired_of_unquoted symbol).append (.plain (by decide) (paired_render value)))

theorem mentions_ofTest {test : Test} (written : ofTest (Variable.ofKey key).render test = .ok text) : Mentions key text := by
  unfold ofTest at written
  split at written
  · cases written
    exact mentions_comparison key .within _
  · cases written
    exact mentions_comparison key .without _
  · cases written
  · cases written
  · cases written
    exact mentions_comparison key _ _

theorem mentions_ofFilter {filter : Filter} (written : ofFilter filter = .ok text) : Mentions filter.key text := by
  unfold ofFilter at written
  simp only at written
  split at written
  · exact mentions_ofTest written
  · cases written
    exact mentions_subject filter.key

/-- A text leaves all quotes paired if its key has none. -/
theorem Mentions.paired (mentions : Mentions key text) (unquoted : Unquoted key) : Paired text.toList := by
  obtain ⟨tail, same, _, paired⟩ := mentions
  rw [same]
  exact .plain (by decide) (.plain (by decide) ((paired_of_unquoted unquoted).append paired))

theorem Mentions.found (mentions : Mentions key text) (paired : Paired front) (apart : Apart rest) (legible : stem key ≠ "") :
    Variable.ofKey (stem key) ∈ references (front ++ text.toList ++ rest) := by
  obtain ⟨tail, same, ends, _⟩ := mentions
  have written : front ++ text.toList ++ rest = front ++ '@' :: '.' :: (key.toList ++ (tail ++ rest)) := by
    simp [same]
  rw [written]
  refine mem_references_behind paired ?_
  rw [references, reference_key (ends.append apart) legible]
  exact List.mem_cons_self

/-- Of several texts with something between them, the key of one is found unless there is a quote in one before. -/
theorem stem_found {separator : String} (clean : Unquoted separator) (divides : ∀ more, Apart (separator.toList ++ more))
    {before after texts : List String} (each : List.Forall₂ Mentions (before ++ key :: after) texts) (paired : Paired front)
    (apart : Apart rest) (unquoted : ∀ other ∈ before, Unquoted other) (legible : stem key ≠ "") :
    Variable.ofKey (stem key) ∈ references (front ++ (separator.intercalate texts).toList ++ rest) := by
  induction before generalizing texts front with
  | nil =>
    cases each with
    | @cons _ text _ texts mentions others =>
      cases texts with
      | nil =>
        rw [String.intercalate_singleton]
        exact mentions.found paired apart legible
      | cons next texts =>
        have written : front ++ (separator.intercalate (text :: next :: texts)).toList ++ rest =
            front ++ text.toList ++ (separator.toList ++ ((separator.intercalate (next :: texts)).toList ++ rest)) := by
          simp [String.intercalate_cons_cons]
        rw [written]
        exact mentions.found paired (divides _) legible
  | cons first before tail =>
    rw [List.cons_append] at each
    cases each with
    | @cons _ text _ texts mentions others =>
      obtain ⟨here, later⟩ := List.forall_mem_cons.mp unquoted
      cases texts with
      | nil => simpa using others.length_eq
      | cons next texts =>
        have written : front ++ (separator.intercalate (text :: next :: texts)).toList ++ rest =
            front ++ text.toList ++ separator.toList ++ (separator.intercalate (next :: texts)).toList ++ rest := by
          simp [String.intercalate_cons_cons]
        rw [written]
        exact tail others ((paired.append (mentions.paired here)).append (paired_of_unquoted clean)) later

/-- The texts of filters that all have to hold. -/
theorem stem_found_conjunction {before after : List String} {filters : List Filter} {texts : List String}
    (written : filters.mapM ofFilter = .ok texts) (keys : filters.map Filter.key = before ++ key :: after)
    (unquoted : ∀ other ∈ before, Unquoted other) (legible : stem key ≠ "") :
    Variable.ofKey (stem key) ∈ referencesOf (conjunction texts) := by
  have each : List.Forall₂ Mentions (filters.map Filter.key) texts :=
    List.forall₂_map_left_iff.mpr ((mapM_eq_ok.mp written).imp fun _ _ => mentions_ofFilter)
  have divides (more : List Char) : Apart (" && ".toList ++ more) := apart_cons (by decide) _
  rw [keys] at each
  have found := stem_found (by decide) divides each .nil apart_nil unquoted legible
  rwa [List.nil_append, List.append_nil] at found

theorem stem_found_single (legible : stem key ≠ "") :
    Variable.ofKey (stem key) ∈ referencesOf (Variable.ofKey key).render := by
  have found := (mentions_subject key).found .nil apart_nil legible
  rwa [List.nil_append, List.append_nil] at found

theorem stem_found_braces {before after : List String} (unquoted : ∀ other ∈ before, Unquoted other) (legible : stem key ≠ "") :
    Variable.ofKey (stem key) ∈ referencesOf (Projection.braces ((before ++ key :: after).map Variable.ofKey)) := by
  have each : ∀ keys : List String, List.Forall₂ Mentions keys ((keys.map Variable.ofKey).map Variable.render) := by
    intro keys
    rw [List.map_map, List.forall₂_map_right_iff, List.forall₂_same]
    exact fun key _ => mentions_subject key
  have divides (more : List Char) : Apart (", ".toList ++ more) := apart_cons (by decide) _
  have opened : Paired "\x7b".toList := paired_of_unquoted (by decide)
  have closed : Apart "\x7d".toList := apart_cons (by decide) _
  have found := stem_found (by decide) divides (each (before ++ key :: after)) opened closed unquoted legible
  rwa [← String.toList_append, ← String.toList_append] at found

end Expression

end TraversalPlanner
