import Mathlib.Data.List.Forall2
import TraversalPlanner.Expression.Condition
import TraversalPlanner.Proofs.LegibleReferences
import TraversalPlanner.Proofs.ListEffects
import TraversalPlanner.Proofs.Scanning

/-! What a scan finds in texts that are written out. Constants show nothing, whatever is in them, and hide nothing
that stands behind them; so a condition on an element shows the keys that it tests, each once and in order. -/

namespace TraversalPlanner

open Proofs

namespace Expression

variable {front chars more : List Char} {names others : List Variable} {v : Variable} {key text : String}

/-- A scan passes over the text and goes on behind it. -/
def Silent (chars : List Char) : Prop := ∀ rest, references (chars ++ rest) = references rest

theorem silent_nil : Silent [] := fun _ => rfl

theorem Silent.append (one : Silent front) (other : Silent chars) : Silent (front ++ chars) := by
  intro rest
  rw [List.append_assoc, one, other]

theorem silent_cons {c : Char} (plain : c ≠ '"' ∧ c ≠ '@') (later : Silent chars) : Silent (c :: chars) := by
  intro rest
  rw [List.cons_append, references_other plain.1 plain.2, later]

theorem silent_of_plain {text : String} (plain : Plain text) : Silent text.toList := by
  unfold Plain at plain
  generalize text.toList = chars at plain ⊢
  induction chars with
  | nil => exact silent_nil
  | cons c chars tail =>
    obtain ⟨here, later⟩ := List.forall_mem_cons.mp plain
    exact silent_cons here (tail later)

theorem silent_quote (text : String) : Silent (Literal.quote text).toList := by
  intro rest
  have written : (Literal.quote text).toList ++ rest = '"' :: (text.toList.flatMap Literal.escape ++ '"' :: rest) := by
    simp [Literal.quote]
  rw [written, references_closed (closeQuote?_escaped _ _)]

theorem silent_render (literal : Literal) : Silent literal.render.toList :=
  built_render silent_of_plain Silent.append silent_quote literal

/-- A scan finds these references in the text, as long as the last of them does not go on behind it. -/
def Shows (names : List Variable) (chars : List Char) : Prop :=
  ∀ rest, Ends rest → references (chars ++ rest) = names ++ references rest

theorem Silent.shows (silent : Silent chars) : Shows [] chars := fun rest _ => silent rest

theorem shows_render (legible : Legible v) : Shows [v] v.render.toList := by
  intro rest ends
  have found := reference?_render legible ends
  rw [toList_render, List.cons_append] at found ⊢
  rw [references, Option.some.inj found]
  rfl

theorem Shows.append (shows : Shows names front) (later : Shows others chars) (ends : Ends chars) :
    Shows (names ++ others) (front ++ chars) := by
  intro rest behind
  rw [List.append_assoc, shows _ (ends.append behind), later rest behind, List.append_assoc]

theorem Silent.before (silent : Silent front) (shows : Shows names chars) : Shows names (front ++ chars) := by
  intro rest behind
  rw [List.append_assoc, silent, shows rest behind]

/-- Nothing stands behind the whole text. -/
theorem Shows.found (shows : Shows names text.toList) : Scanner.references? text = some names := by
  have found := shows [] ends_nil
  rw [List.append_nil, references, List.append_nil] at found
  rw [Scanner.references?_eq, referencesOf, found]

theorem shows_intercalate {separator : String} (plain : Plain separator) (ends : ∀ more, Ends (separator.toList ++ more))
    {shown : List (List Variable)} {texts : List String}
    (each : List.Forall₂ (fun names text => Shows names text.toList) shown texts) :
    Shows shown.flatten (separator.intercalate texts).toList := by
  induction each with
  | nil => exact silent_nil.shows
  | @cons names text shown texts here later tail =>
    cases texts with
    | nil =>
      cases later
      simpa using here
    | cons next texts =>
      rw [String.intercalate_cons_cons, String.toList_append, String.toList_append, List.append_assoc, List.flatten_cons]
      exact here.append ((silent_of_plain plain).before tail) (ends _)

/-! Conditions on the current element. -/

theorem legible_ofKey (word : Word isPropertyCharacter key) : Legible (Variable.ofKey key) where
  tag := nofun
  property := by
    rintro _ ⟨⟩
    exact ⟨key, rfl, word⟩

theorem shows_comparison (legible : Legible v) (comparator : Comparator) (shows : Shows names text.toList) :
    Shows (v :: names) (comparison v.render comparator text).toList := by
  have symbol : Plain comparator.symbol := by cases comparator <;> decide
  have between : Silent (" " ++ comparator.symbol ++ " ").toList :=
    silent_of_plain (plain_append (plain_append (by decide) symbol) (by decide))
  have written : (comparison v.render comparator text).toList =
      v.render.toList ++ ((" " ++ comparator.symbol ++ " ").toList ++ text.toList) := by
    simp [comparison]
  rw [written]
  refine (shows_render legible).append (between.before shows) ?_
  simp only [String.toList_append, List.append_assoc]
  exact ends_cons (by decide) _

/-- No constant shows. -/
theorem shows_literal (legible : Legible v) (comparator : Comparator) (value : Literal) :
    Shows [v] (comparison v.render comparator value.render).toList :=
  shows_comparison legible comparator (silent_render value).shows

theorem shows_ofTest {test : Test} (legible : Legible v) (written : ofTest v.render test = .ok text) :
    Shows [v] text.toList := by
  unfold ofTest at written
  split at written
  · cases written
    exact shows_literal legible .within _
  · cases written
    exact shows_literal legible .without _
  · cases written
  · cases written
  · cases written
    exact shows_literal legible _ _

theorem shows_ofFilter {filter : Filter} (word : Word isPropertyCharacter filter.key) (written : ofFilter filter = .ok text) :
    Shows [Variable.ofKey filter.key] text.toList := by
  unfold ofFilter at written
  simp only at written
  split at written
  · exact shows_ofTest (legible_ofKey word) written
  · cases written
    exact shows_render (legible_ofKey word)

theorem shows_ofFilters {filters : List Filter} (words : ∀ filter ∈ filters, Word isPropertyCharacter filter.key)
    (written : ofFilters filters = .ok text) : Shows (filters.map fun filter => Variable.ofKey filter.key) text.toList := by
  obtain ⟨parts, each, same⟩ := bind_eq_ok.mp written
  cases same
  have shown : List.Forall₂ (fun names text => Shows names text.toList)
      (filters.map fun filter => [Variable.ofKey filter.key]) parts := by
    rw [List.forall₂_map_left_iff]
    exact ((List.forall₂_and_left _ _).mpr ⟨words, mapM_eq_ok.mp each⟩).imp fun _ _ both => shows_ofFilter both.1 both.2
  have separated (more : List Char) : Ends (" && ".toList ++ more) := ends_cons (by decide) _
  rw [List.map_eq_flatMap, List.flatMap_def]
  exact shows_intercalate (by decide) separated shown

theorem shows_oneOf (legible : Legible v) (values : List Literal) : Shows [v] (oneOf v.render values).toList := by
  unfold oneOf
  split
  · exact shows_literal legible _ _
  · exact shows_literal legible _ _

/-- No scan fails. Conditions on elements show the keys that they test and nothing else: neither does a constant
bring a reference of its own, nor is one lost behind it. -/
theorem conditions_show_their_keys :
    (∀ text, Scanner.references? text = some (referencesOf text)) ∧
    (∀ filters text, (∀ filter ∈ filters, Word isPropertyCharacter filter.key) → ofFilters filters = .ok text →
      Scanner.references? text = some (filters.map fun filter => Variable.ofKey filter.key)) ∧
    (∀ ids, Scanner.references? (ofIds ids) = some [{ tag := none, property := some .id }]) ∧
    ∀ labels, Scanner.references? (ofLabels labels) = some [{ tag := none, property := some .label }] := by
  have own (key : String) (word : Word isPropertyCharacter key) (values : List Literal) :
      Scanner.references? (oneOf (Variable.ofKey key).render values) = some [Variable.ofKey key] :=
    (shows_oneOf (legible_ofKey word) values).found
  refine ⟨Scanner.references?_eq, fun filters text words written => ?_, fun ids => ?_, fun labels => ?_⟩
  · exact (shows_ofFilters words written).found
  · exact own "~id" (by decide) ids
  · exact own "~label" (by decide) (labels.map Literal.text)

/-- Constants with all that a scan looks for in them. -/
def trickyFilters : List Filter := [
  ⟨"name", some ⟨.eq, .text "\\\"@a.b"⟩⟩,
  ⟨"~id", some ⟨.within, .list [.text "x\" && @.age == \"", .list [.text "\\", .text ""], .whole 3]⟩⟩,
  ⟨"age", none⟩]

theorem trickyFilters_show_their_keys : (∀ filter ∈ trickyFilters, Word isPropertyCharacter filter.key) ∧
    ∃ text, ofFilters trickyFilters = .ok text ∧
      Scanner.references? text = some [.ofKey "name", .ofKey "~id", .ofKey "age"] := by
  have words : ∀ filter ∈ trickyFilters, Word isPropertyCharacter filter.key := by decide
  exact ⟨words, _, rfl, conditions_show_their_keys.2.1 trickyFilters _ words rfl⟩

end Expression

end TraversalPlanner
