import TraversalPlanner.Proofs.Complaints
import TraversalPlanner.Proofs.ProjectionGrammar

/-! The names that are made up for the columns of a select. A tag and its property are joined by an underscore, which
may stand in either of them, so different columns can come to the same name; the node that would bind it twice is then
refused. -/

namespace TraversalPlanner

open Proofs Expression Traversal

/-- What is selected for a tag: what it names, a property of that, or several in one column. -/
inductive Selection where
  | whole
  | key (name : String)
  | keys (first : String) (others : List String)

namespace Selection

/-- The projected expression. -/
def text (tag : String) : Selection → String
  | .whole => (Variable.ofTag (.name tag)).render
  | .key name => (Variable.ofTagKey (.name tag) name).render
  | .keys first others => Projection.braces ((first :: others).map (Variable.ofTagKey (.name tag)))

/-- The name of the column. -/
def label (tag : String) : Selection → String
  | .whole => "project_" ++ tag
  | .key name => tag ++ "_" ++ name
  | .keys first others => tag ++ "_" ++ ("\x7b" ++ ", ".intercalate (first :: others) ++ "\x7d")

def names : Selection → List String
  | .whole => []
  | .key name => [name]
  | .keys first others => first :: others

end Selection

namespace Modifier

/-- What a modulator selects for a tag, if it has one of the forms that a select knows. -/
def selection? : Modifier → Option Selection
  | .identity => some .whole
  | .key name => some (.key name)
  | .values [name] => some (.key name)
  | .valueMap (first :: others) => some (.keys first others)
  | _ => none

end Modifier

namespace Expression

variable {tag : String}

theorem parse?_of_body {projection : Projection} {chars : List Char} (body : Projection.Body projection chars) :
    Projection.parse? projection.render = some projection :=
  Projection.parseChars?_written ⟨[], _, [], Projection.spaces_nil, body.rendered, Projection.spaces_nil,
    (List.append_nil _).symm⟩

theorem legible_ofTag (word : Word isTagCharacter tag) : Legible (.ofTag (.name tag)) := by
  refine ⟨?_, nofun⟩
  rintro _ ⟨⟩
  exact ⟨tag, rfl, word⟩

theorem legible_ofTagKey {key : String} (word : Word isTagCharacter tag) (legible : Word isPropertyCharacter key) :
    Legible (.ofTagKey (.name tag) key) := by
  refine ⟨?_, ?_⟩
  · rintro _ ⟨⟩
    exact ⟨tag, rfl, word⟩
  · rintro _ ⟨⟩
    exact ⟨key, rfl, legible⟩

theorem nameOfGroup_keys (text first : String) (others : List String) :
    nameOfGroup text ((first :: others).map (Variable.ofTagKey (.name tag))) =
      .ok (Selection.label tag (.keys first others)) := by
  rw [nameOfGroup]
  refine bind_eq_ok.mpr ⟨first :: others, ?_, rfl⟩
  rw [mapM_eq_ok, List.forall₂_map_left_iff, List.forall₂_same]
  exact fun key _ => congrArg Except.ok (Property.name_ofName key)

/-- The names are made up of what the projected expressions say. -/
theorem nameOfProjection_text {selection : Selection} (word : Word isTagCharacter tag)
    (legible : ∀ name ∈ selection.names, Word isPropertyCharacter name) :
    nameOfProjection (selection.text tag) = .ok (selection.label tag) := by
  cases selection with
  | whole =>
    have read := parse?_of_body (.single (legible_ofTag word))
    rw [Projection.render] at read
    rw [nameOfProjection, Selection.text, read]
    rfl
  | key name =>
    have read := parse?_of_body (.single (legible_ofTagKey word (legible name (List.mem_singleton_self name))))
    rw [Projection.render] at read
    rw [nameOfProjection, Selection.text, read]
    exact congrArg (fun text => Except.ok (tag ++ "_" ++ text)) (Property.name_ofName name)
  | keys first others =>
    obtain ⟨here, later⟩ := List.forall_mem_cons.mp legible
    have each : ∀ reference ∈ others.map (Variable.ofTagKey (.name tag)), Legible reference := by
      intro reference member
      obtain ⟨name, listed, rfl⟩ := List.mem_map.mp member
      exact legible_ofTagKey word (later name listed)
    have read := parse?_of_body
      (.group Projection.spaces_nil (legible_ofTagKey word here) (Projection.tail_render each))
    rw [Projection.render] at read
    rw [nameOfProjection, Selection.text, List.map_cons, read]
    exact nameOfGroup_keys _ first others

end Expression

/-- Texts that go on with the same character agree before it, if neither has it there. -/
theorem front_eq {c : Char} {front other rest onward : List Char} (free : c ∉ front) (without : c ∉ other)
    (same : front ++ c :: rest = other ++ c :: onward) : front = other := by
  have taken {front : List Char} (rest) (free : c ∉ front) : (front ++ c :: rest).takeWhile (· != c) = front := by
    refine (run_taken (fun d member => bne_iff_ne.mpr (ne_of_mem_of_not_mem member free)) ?_).1
    rintro _ ⟨⟩
    exact bne_self_eq_false c
  rw [← taken rest free, same, taken onward without]

theorem place_unique {α : Type} {items : List α} {item : α} {first second : Nat} (apart : items.Nodup)
    (here : items[first]? = some item) (there : items[second]? = some item) : first = second := by
  obtain ⟨inside, _⟩ := List.getElem?_eq_some_iff.mp here
  exact (List.getElem?_inj inside apart).mp (here.trans there.symm)

namespace Selection

variable {tag other : String} {one two : Selection}

theorem not_mem_of_word {p : Char → Bool} {c : Char} {text : String} (word : Word p text) (outside : p c = false) :
    c ∉ text.toList := by
  intro member
  rw [word.2 c member] at outside
  cases outside

/-- The characters of a name are no brace. -/
structure Plain (tag : String) (selection : Selection) : Prop where
  tag : '\x7b' ∉ tag.toList
  names : ∀ name ∈ selection.names, '\x7b' ∉ name.toList

/-- Labels of different tags that agree although nothing but a whole or a single property is selected. -/
inductive Meets (tag other : String) : Selection → Selection → Prop
  | keys {key name} (same : tag ++ "_" ++ key = other ++ "_" ++ name) : Meets tag other (.key key) (.key name)
  | whole {name} (same : "project_" ++ tag = other ++ "_" ++ name) : Meets tag other .whole (.key name)

theorem label_eq (plain : Plain tag one) (simple : Plain other two) (apart : tag ≠ other)
    (same : one.label tag = two.label other) : Meets tag other one two ∨ Meets other tag two one := by
  have braced {tag first : String} {others : List String} : '\x7b' ∈ (label tag (.keys first others)).toList := by
    simp [label]
  have unbraced {tag : String} {selection : Selection} (plain : Plain tag selection)
      (few : ∀ first others, selection ≠ .keys first others) : '\x7b' ∉ (selection.label tag).toList := by
    cases selection with
    | whole => simp [label, plain.tag]
    | key name => simp [label, plain.tag, plain.names name (List.mem_singleton_self name)]
    | keys first others => exact absurd rfl (few first others)
  cases one with
  | whole =>
    cases two with
    | whole => exact absurd (by simpa [label] using same) apart
    | key name => exact .inl (.whole same)
    | keys => exact absurd (same ▸ braced) (unbraced plain nofun)
  | key name =>
    cases two with
    | whole => exact .inr (.whole same.symm)
    | key other => exact .inl (.keys same)
    | keys => exact absurd (same ▸ braced) (unbraced plain nofun)
  | keys first others =>
    cases two with
    | whole | key => exact absurd (same ▸ braced) (unbraced simple nofun)
    | keys =>
      have written (tag first : String) (others : List String) : (label tag (.keys first others)).toList =
          (tag ++ "_").toList ++ '\x7b' :: (", ".intercalate (first :: others) ++ "\x7d").toList := by
        simp [label]
      have free {tag : String} {selection : Selection} (plain : Plain tag selection) :
          '\x7b' ∉ (tag ++ "_").toList := by
        simp [plain.tag]
      have characters := congrArg String.toList same
      rw [written, written] at characters
      have fronts := String.toList_injective (front_eq (free plain) (free simple) characters)
      exact absurd (by simpa using fronts) apart

theorem Meets.label_eq (meets : Meets tag other one two) : one.label tag = two.label other := by
  cases meets with
  | keys same => exact same
  | whole same => exact same

/-- Tags without an underscore cannot take a part of each other's properties. -/
theorem Meets.underscored (meets : Meets tag other one two) (apart : tag ≠ other) :
    '_' ∈ tag.toList ∨ '_' ∈ other.toList ∨ other = "project" := by
  by_contra free
  simp only [not_or] at free
  cases meets with
  | keys same =>
    have characters := congrArg String.toList same
    simp only [String.toList_append, List.append_assoc] at characters
    exact apart (String.toList_injective (front_eq free.1 free.2.1 characters))
  | whole same =>
    have characters := congrArg String.toList same
    simp only [String.toList_append, List.append_assoc] at characters
    have front : "project".toList = other.toList := front_eq (by decide) free.2.1 characters
    exact free.2.2 (String.toList_injective front.symm)

end Selection

namespace Operator

variable {tags : List String} {claimed : List Modulator} {args : OperatorArguments} {index : Nat} {tag : String}

/-- What the modulators select for the tag at a place. -/
def selectionAt (modulators : List Modulator) (index : Nat) : Option Selection :=
  match turnOf modulators index with
  | none => some .whole
  | some modulator => modulator.modifier.selection?

theorem selected_eq_ok {expression : String} (made : selected tag (turnOf claimed index) = .ok expression) :
    ∃ selection, selectionAt claimed index = some selection ∧ expression = selection.text tag := by
  unfold selectionAt
  generalize turnOf claimed index = turn at made ⊢
  cases turn with
  | none =>
    cases made
    exact ⟨.whole, rfl, rfl⟩
  | some modulator =>
    obtain ⟨_, _, made⟩ := bind_eq_ok.mp made
    obtain ⟨modifier, order, name⟩ := modulator
    cases modifier with
    | identity =>
      cases made
      exact ⟨.whole, rfl, rfl⟩
    | key name =>
      cases made
      exact ⟨.key name, rfl, rfl⟩
    | values names =>
      match names with
      | [] => cases made
      | [name] =>
        cases made
        exact ⟨.key name, rfl, rfl⟩
      | _ :: _ :: _ => cases made
    | valueMap names =>
      cases names with
      | nil => cases made
      | cons first others =>
        cases made
        exact ⟨.keys first others, rfl, rfl⟩
    | select | count | fold | traversal => cases made

/-- Different tags and the properties that are selected for them, all of them names. -/
structure Named (tags : List String) (claimed : List Modulator) : Prop where
  apart : tags.Nodup
  tags : ∀ tag ∈ tags, Word isTagCharacter tag
  keys : ∀ modulator ∈ claimed, ∀ selection ∈ modulator.modifier.selection?, ∀ name ∈ selection.names,
    Word isPropertyCharacter name

/-- Two of the columns come to the same name. -/
def Collides (tags : List String) (claimed : List Modulator) : Prop :=
  ∃ first second tag other one two, tags[first]? = some tag ∧ tags[second]? = some other ∧ first ≠ second ∧
    selectionAt claimed first = some one ∧ selectionAt claimed second = some two ∧ Selection.Meets tag other one two

theorem Named.legible (named : Named tags claimed) {selection : Selection}
    (selects : selectionAt claimed index = some selection) :
    ∀ name ∈ selection.names, Word isPropertyCharacter name := by
  unfold selectionAt at selects
  split at selects
  · cases selects
    exact nofun
  · next modulator turn => exact named.keys modulator (List.mem_of_getElem? turn) selection selects

/-- The names are those of the columns, in their order. -/
structure Labelled (tags : List String) (claimed : List Modulator) (names : List Identifier) : Prop where
  source : ∀ {index : Nat} {name : Identifier}, names[index]? = some name → ∃ tag selection, tags[index]? = some tag ∧
    selectionAt claimed index = some selection ∧ name = .name (selection.label tag)
  column : ∀ {index : Nat} {tag : String} {selection : Selection}, tags[index]? = some tag →
    selectionAt claimed index = some selection → names[index]? = some (.name (selection.label tag))

theorem label_of_nameOfSelected (named : Named tags claimed) (member : tags[index]? = some tag) {text : String}
    (made : nameOfSelected claimed index tag = .ok text) :
    ∃ selection, selectionAt claimed index = some selection ∧ text = selection.label tag := by
  obtain ⟨expression, wrote, made⟩ := bind_eq_ok.mp made
  obtain ⟨selection, selects, rfl⟩ := selected_eq_ok wrote
  rw [nameOfProjection_text (named.tags tag (List.mem_of_getElem? member)) (named.legible selects)] at made
  exact ⟨selection, selects, (Except.ok.inj made).symm⟩

theorem labelled_of_names (named : Named tags claimed) {names : List Identifier}
    (each : List.Forall₂
      (fun entry name => ∃ text, nameOfSelected claimed entry.2 entry.1 = .ok text ∧ name = .name text)
      tags.zipIdx names) : Labelled tags claimed names := by
  refine ⟨fun {index name} found => ?_, fun {index tag selection} found selects => ?_⟩
  · obtain ⟨⟨tag, place⟩, there, text, made, rfl⟩ := related_at each found
    rw [List.getElem?_zipIdx, Option.map_eq_some_iff] at there
    obtain ⟨_, there, same⟩ := there
    cases same
    rw [Nat.zero_add] at made
    obtain ⟨selection, selects, rfl⟩ := label_of_nameOfSelected named there made
    exact ⟨tag, selection, there, selects, rfl⟩
  · have there : tags.zipIdx[index]? = some (tag, index) := by simp [found]
    obtain ⟨name, here, text, made, rfl⟩ := related_at each.flip there
    obtain ⟨_, same, rfl⟩ := label_of_nameOfSelected named found made
    cases selects.symm.trans same
    exact here

theorem repeated_iff_collides (named : Named tags claimed) {names : List Identifier}
    (labelled : Labelled tags claimed names) :
    (∃ name, projectNode.repeated names = some name) ↔ Collides tags claimed := by
  constructor
  · intro given
    obtain ⟨name, twice⟩ := given
    obtain ⟨first, second, earlier, here, there⟩ := repeated_eq_some twice
    obtain ⟨tag, one, found, selects, rfl⟩ := labelled.source here
    obtain ⟨other, two, again, chooses, same⟩ := labelled.source there
    have differ : tag ≠ other := by
      rintro rfl
      exact absurd (place_unique named.apart found again) (Nat.ne_of_lt earlier)
    have plain {tag : String} {index : Nat} {selection : Selection} (found : tags[index]? = some tag)
        (selects : selectionAt claimed index = some selection) : Selection.Plain tag selection :=
      ⟨Selection.not_mem_of_word (named.tags tag (List.mem_of_getElem? found)) (by decide),
        fun name listed => Selection.not_mem_of_word (named.legible selects name listed) (by decide)⟩
    rcases Selection.label_eq (plain found selects) (plain again chooses) differ (Identifier.name.inj same) with
      meets | meets
    · exact ⟨first, second, tag, other, one, two, found, again, by omega, selects, chooses, meets⟩
    · exact ⟨second, first, other, tag, two, one, again, found, by omega, chooses, selects, meets⟩
  · intro collides
    obtain ⟨first, second, tag, other, one, two, found, again, apart, selects, chooses, meets⟩ := collides
    cases repeated : projectNode.repeated names with
    | some name => exact ⟨name, rfl⟩
    | none =>
      have here := labelled.column found selects
      have there := labelled.column again chooses
      rw [meets.label_eq] at here
      exact absurd (place_unique (nodup_of_unrepeated repeated) here there) apart

theorem toNode_columns {columns : List (Projected Alias)} (several : columns ≠ []) (links : Links) :
    toNode ⟨.project (some columns), none⟩ links =
      match projectNode.repeated (columns.filterMap fun column => column.tag.map Alias.name) with
      | some name => .error (.illegalSlot .project .exprWithAlias (.repeatedAlias name))
      | none => .ok (.project (columns.map fun column =>
          { expression := column.expression, tag := column.tag.map Alias.name }) true) := by
  cases columns with
  | nil => exact absurd rfl several
  | cons first others =>
    simp only [toNode, projectNode, filled, present, bind, Except.bind, pure, Except.pure, List.filterMap_map]
    rfl

theorem not_collides_single : ¬ Collides [tag] claimed := by
  rintro ⟨first, second, _, _, _, _, here, there, apart, _⟩
  obtain ⟨inside, _⟩ := List.getElem?_eq_some_iff.mp here
  obtain ⟨within, _⟩ := List.getElem?_eq_some_iff.mp there
  simp only [List.length_singleton] at inside within
  omega

/-- What a select builds becomes a node unless two of its columns come to the same name. -/
structure NamesColumns (tags : List String) (claimed : List Modulator) (args : OperatorArguments) : Prop where
  blames : ∀ links error, toNode ⟨args, none⟩ links = .error error →
    ∃ name, error = .illegalSlot .project .exprWithAlias (.repeatedAlias name)
  lowers : ∀ links, (∃ op, toNode ⟨args, none⟩ links = .ok op) ↔ ¬ Collides tags claimed

theorem namesColumns_of_select (named : Named tags claimed) (made : ofSelect tags claimed = .ok args) :
    NamesColumns tags claimed args := by
  obtain ⟨tag, expression, rfl, rfl⟩ | ⟨one, other, rest, expressions, columns, rfl, read, wrote, rfl⟩ :=
    ofSelect_eq_ok made
  · refine ⟨fun links error failed => ?_, fun links => iff_of_true ⟨_, rfl⟩ not_collides_single⟩
    cases failed
  · have labelled := labelled_of_names named (names_of_selected (mapM_eq_ok.mp read) wrote)
    have several : columns ≠ [] := by
      rintro rfl
      cases mapM_eq_ok.mp wrote
      cases mapM_eq_ok.mp read
    have collides := repeated_iff_collides named labelled
    refine ⟨fun links error failed => ?_, fun links => ?_⟩
    · rw [toNode_columns several] at failed
      split at failed
      · cases failed
        exact ⟨_, rfl⟩
      · cases failed
    · rw [toNode_columns several, ← collides]
      cases projectNode.repeated (columns.filterMap fun column => column.tag.map Alias.name) with
      | some name => exact iff_of_false nofun fun free => free ⟨name, rfl⟩
      | none => exact iff_of_true ⟨_, rfl⟩ nofun

/-- Tags without underscores give different names to all columns, unless one of them is that of whole columns. -/
theorem not_collides_of_free (apart : tags.Nodup) (free : ∀ tag ∈ tags, '_' ∉ tag.toList ∧ tag ≠ "project") :
    ¬ Collides tags claimed := by
  rintro ⟨first, second, tag, other, one, two, here, there, differ, _, _, meets⟩
  have distinct : tag ≠ other := by
    rintro rfl
    exact differ (place_unique apart here there)
  obtain ⟨plain, _⟩ := free tag (List.mem_of_getElem? here)
  obtain ⟨simple, unlike⟩ := free other (List.mem_of_getElem? there)
  rcases meets.underscored distinct with under | under | same
  · exact plain under
  · exact simple under
  · exact unlike same

end Operator

namespace Traversal

open Operator

/-- A select of different tags becomes a node, unless a tag and a property of it come to the name of another column.
They do not if there are no underscores in the tags and none of them is the name that whole columns begin with. -/
theorem selected_names_collide {before after : List Step} {tags : List String} {operators : List Operator}
    (built : build (before ++ ⟨.select tags, none⟩ :: after) = .ok operators) (named : Named tags (modulators after)) :
    ∃ args, ofSelect tags (modulators after) = .ok args ∧ ⟨args, none⟩ ∈ operators ∧
      NamesColumns tags (modulators after) args ∧
      ((∀ tag ∈ tags, '_' ∉ tag.toList ∧ tag ≠ "project") → ¬ Collides tags (modulators after)) := by
  obtain ⟨args, made, member⟩ := modulated_of_built rfl built
  exact ⟨args, made, member, namesColumns_of_select named made, not_collides_of_free named.apart⟩

def agesAndPlaces : List Step := [⟨.by (.key "age") none, none⟩, ⟨.by (.valueMap ["city", "country"]) none, none⟩]

theorem agesAndPlaces_collide : ∃ operators,
    build ([⟨.vertices [], some "person"⟩, ⟨.adjacent "out" ["lives"] false, some "home"⟩] ++
      ⟨.select ["person", "home"], none⟩ :: agesAndPlaces) = .ok operators ∧
      Named ["person", "home"] (modulators agesAndPlaces) ∧
      ∃ args, ofSelect ["person", "home"] (modulators agesAndPlaces) = .ok args ∧ ⟨args, none⟩ ∈ operators ∧
        NamesColumns ["person", "home"] (modulators agesAndPlaces) args ∧
        ((∀ tag ∈ ["person", "home"], '_' ∉ tag.toList ∧ tag ≠ "project") →
          ¬ Collides ["person", "home"] (modulators agesAndPlaces)) := by
  have passes : (build ([⟨.vertices [], some "person"⟩, ⟨.adjacent "out" ["lives"] false, some "home"⟩] ++
      ⟨.select ["person", "home"], none⟩ :: agesAndPlaces)).isOk := by decide +kernel
  have named : Named ["person", "home"] (modulators agesAndPlaces) := ⟨by decide, by decide, by decide⟩
  obtain ⟨operators, built⟩ := ok_of_isOk passes
  exact ⟨operators, built, named, selected_names_collide built named⟩

def underscored : List Step := [⟨.by (.key "b_c") none, none⟩, ⟨.by (.key "c") none, none⟩]

/-- Both columns are called `a_b_c`. -/
theorem underscored_refused : Named ["a", "a_b"] (modulators underscored) ∧ ∃ operators args,
    build ([⟨.vertices [], some "a"⟩, ⟨.adjacent "out" [] false, some "a_b"⟩] ++
      ⟨.select ["a", "a_b"], none⟩ :: underscored) = .ok operators ∧ ⟨args, none⟩ ∈ operators ∧
      ∀ links, ∃ name,
        toNode ⟨args, none⟩ links = .error (.illegalSlot .project .exprWithAlias (.repeatedAlias name)) := by
  have passes : (build ([⟨.vertices [], some "a"⟩, ⟨.adjacent "out" [] false, some "a_b"⟩] ++
      ⟨.select ["a", "a_b"], none⟩ :: underscored)).isOk := by decide +kernel
  have named : Named ["a", "a_b"] (modulators underscored) := ⟨by decide, by decide, by decide⟩
  obtain ⟨operators, built⟩ := ok_of_isOk passes
  obtain ⟨args, made, member⟩ := modulated_of_built rfl built
  have columns := namesColumns_of_select named made
  have collides : Collides ["a", "a_b"] (modulators underscored) :=
    ⟨0, 1, "a", "a_b", _, _, rfl, rfl, by decide, rfl, rfl, .keys rfl⟩
  refine ⟨named, operators, args, built, member, fun links => ?_⟩
  cases lowered : toNode ⟨args, none⟩ links with
  | ok op => exact absurd collides ((columns.lowers links).mp ⟨op, lowered⟩)
  | error error =>
    obtain ⟨name, rfl⟩ := columns.blames links error lowered
    exact ⟨name, rfl⟩

end Traversal

end TraversalPlanner
