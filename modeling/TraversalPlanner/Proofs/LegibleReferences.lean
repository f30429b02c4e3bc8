import TraversalPlanner.Expression.Projection
import TraversalPlanner.Proofs.WrittenKeys

/-! Reading references back. A reference whose names are made of the characters that the scan takes is read back
exactly as it was written, whatever stands behind it that cannot go on with it; and nothing else is ever read. -/

namespace TraversalPlanner

namespace Expression

variable {p : Char → Bool} {text : String} {chars word rest : List Char} {v : Variable} {tag : Option Identifier}
  {property : Option Property}

/-- A name made of some kind of characters. -/
def Word (p : Char → Bool) (text : String) : Prop := text ≠ "" ∧ ∀ c ∈ text.toList, p c = true

instance : Decidable (Word p text) :=
  @instDecidableAnd _ _ inferInstance (List.decidableBAll (fun c => p c = true) text.toList)

theorem Word.toList_ne_nil (word : Word p text) : text.toList ≠ [] :=
  fun empty => word.1 (String.toList_eq_nil_iff.mp empty)

theorem word_ofList (all : ∀ c ∈ word, p c = true) (filled : word ≠ []) : Word p (String.ofList word) := by
  refine ⟨fun empty => filled ?_, by rwa [String.toList_ofList]⟩
  rw [← String.toList_ofList (l := word), empty]
  rfl

theorem all_takeWhile (p : Char → Bool) (chars : List Char) : ∀ c ∈ chars.takeWhile p, p c = true :=
  List.all_eq_true.mp List.all_takeWhile

/-- A run of characters is taken, and nothing of what follows it. -/
theorem run_taken (all : ∀ c ∈ word, p c = true) (stops : ∀ c ∈ rest.head?, p c = false) :
    (word ++ rest).takeWhile p = word ∧ (word ++ rest).dropWhile p = rest := by
  rw [List.takeWhile_append_of_pos all, List.dropWhile_append_of_pos all]
  cases rest with
  | nil => exact ⟨List.append_nil _, rfl⟩
  | cons c rest =>
    have stop : ¬p c = true := Bool.eq_false_iff.mp (stops c rfl)
    rw [List.takeWhile_cons_of_neg stop, List.dropWhile_cons_of_neg stop]
    exact ⟨List.append_nil _, rfl⟩

/-- No reference can go on with these characters. -/
def Ends (chars : List Char) : Prop := ∀ c ∈ chars.head?, isPropertyCharacter c = false ∧ c ≠ '.'

theorem ends_nil : Ends [] := nofun

theorem ends_cons {c : Char} (outside : isPropertyCharacter c = false ∧ c ≠ '.') (chars : List Char) : Ends (c :: chars) := by
  rintro _ ⟨⟩
  exact outside

theorem Ends.append (ends : Ends chars) (behind : Ends rest) : Ends (chars ++ rest) := by
  cases chars with
  | nil => exact behind
  | cons c chars => exact ends

/-- The names in a reference can be read. -/
structure Legible (reference : Variable) : Prop where
  tag : ∀ tag ∈ reference.tag, ∃ name, tag = .name name ∧ Word isTagCharacter name
  property : ∀ property ∈ reference.property, ∃ name, property = .ofName name ∧ Word isPropertyCharacter name

/-! How the two parts of a reference are written. -/

def tagText (tag : Option Identifier) : String := (tag.map Identifier.render).getD ""

def propertyText (property : Option Property) : String := (property.map fun property => "." ++ property.name).getD ""

/-- The tag that is read of the characters before a point. -/
def tagOf (word : List Char) : Option Identifier := if word.isEmpty then none else some (.name (String.ofList word))

theorem toList_render (v : Variable) :
    v.render.toList = '@' :: ((tagText v.tag).toList ++ (propertyText v.property).toList) := by
  simp [Variable.render, tagText, propertyText]

theorem propertyText_ofName (name : String) :
    (propertyText (some (.ofName name))).toList = '.' :: name.toList := by
  simp [propertyText, Property.name_ofName]

/-! What was written is read. -/

theorem property?_written (legible : ∀ found ∈ property, ∃ name, found = .ofName name ∧ Word isPropertyCharacter name)
    (ends : Ends rest) : property? ((propertyText property).toList ++ rest) = (property, rest) := by
  cases property with
  | none =>
    change property? rest = (none, rest)
    rw [property?.eq_2]
    rintro rest rfl
    exact (ends '.' rfl).2 rfl
  | some property =>
    obtain ⟨name, rfl, named⟩ := legible property rfl
    obtain ⟨taken, left⟩ := run_taken named.2 fun c head => (ends c head).1
    rw [propertyText_ofName, List.cons_append, property?, taken, left]
    split
    · next empty => exact absurd empty named.toList_ne_nil
    · rw [String.ofList_toList]

theorem propertyText_stops (legible : ∀ found ∈ property, ∃ name, found = .ofName name ∧ Word isPropertyCharacter name)
    (ends : Ends rest) : ∀ c ∈ ((propertyText property).toList ++ rest).head?, isTagCharacter c = false := by
  intro c head
  cases property with
  | none => exact (Bool.or_eq_false_iff.mp (ends c head).1).1
  | some property =>
    obtain ⟨name, rfl, named⟩ := legible property rfl
    rw [propertyText_ofName] at head
    cases head
    decide

theorem tagText_read (legible : ∀ found ∈ tag, ∃ name, found = .name name ∧ Word isTagCharacter name) :
    (∀ c ∈ (tagText tag).toList, isTagCharacter c = true) ∧ tagOf (tagText tag).toList = tag := by
  cases tag with
  | none => exact ⟨nofun, rfl⟩
  | some tag =>
    obtain ⟨name, rfl, named⟩ := legible tag rfl
    have written : tagText (some (.name name)) = name := rfl
    rw [written, tagOf, List.isEmpty_eq_false_iff.mpr named.toList_ne_nil, String.ofList_toList]
    exact ⟨named.2, rfl⟩

theorem reference?_render (legible : Legible v) (ends : Ends rest) :
    Projection.reference? (v.render.toList ++ rest) = some (v, rest) := by
  obtain ⟨all, read⟩ := tagText_read legible.tag
  obtain ⟨taken, left⟩ := run_taken all (propertyText_stops legible.property ends)
  rw [toList_render, List.cons_append, List.append_assoc]
  change some (reference _) = _
  rw [reference, taken, left, property?_written legible.property ends]
  change some (Variable.mk (tagOf (tagText v.tag).toList) v.property, rest) = _
  rw [read]

/-! Whatever is read was written. -/

theorem property?_legible (chars : List Char) :
    (∀ found ∈ (property? chars).1, ∃ name, found = .ofName name ∧ Word isPropertyCharacter name) ∧
      chars = (propertyText (property? chars).1).toList ++ (property? chars).2 := by
  unfold property?
  split
  · next rest =>
    split
    · exact ⟨nofun, rfl⟩
    · next filled =>
      refine ⟨?_, ?_⟩
      · rintro _ ⟨⟩
        exact ⟨_, rfl, word_ofList (all_takeWhile _ _) filled⟩
      · rw [propertyText_ofName, String.toList_ofList, List.cons_append, List.takeWhile_append_dropWhile]
  · exact ⟨nofun, rfl⟩

theorem tagOf_legible (all : ∀ c ∈ word, isTagCharacter c = true) :
    (∀ found ∈ tagOf word, ∃ name, found = .name name ∧ Word isTagCharacter name) ∧ (tagText (tagOf word)).toList = word := by
  cases word with
  | nil => exact ⟨nofun, rfl⟩
  | cons c others =>
    refine ⟨?_, String.toList_ofList⟩
    rintro _ ⟨⟩
    exact ⟨_, rfl, word_ofList all (List.cons_ne_nil c others)⟩

theorem reference?_eq_some (found : Projection.reference? chars = some (v, rest)) :
    Legible v ∧ chars = v.render.toList ++ rest := by
  unfold Projection.reference? at found
  split at found
  · next chars =>
    cases found
    obtain ⟨tagged, written⟩ := tagOf_legible (all_takeWhile isTagCharacter chars)
    obtain ⟨qualified, behind⟩ := property?_legible (chars.dropWhile isTagCharacter)
    refine ⟨⟨tagged, qualified⟩, ?_⟩
    rw [toList_render, List.cons_append, List.append_assoc]
    change '@' :: chars = '@' :: ((tagText (tagOf (chars.takeWhile isTagCharacter))).toList ++
      ((propertyText (property? (chars.dropWhile isTagCharacter)).1).toList ++
        (property? (chars.dropWhile isTagCharacter)).2))
    rw [written, ← behind, List.takeWhile_append_dropWhile]
  · cases found

end Expression

end TraversalPlanner
