import TraversalPlanner.Expression.Reference

/-! Scanning an expression for references as a grammar would have it: a text is a number of items, each of which
may not be there, and nothing may be left behind the last one. No text is turned down. -/

namespace TraversalPlanner.Expression

/-- Something that may stand at the front of a text, and what is behind it then. -/
abbrev Scanner (α : Type) := List Char → Option (α × List Char)

namespace Scanner

variable {α : Type}

def quoted : Scanner (Option Variable)
  | '"' :: rest => (closeQuote? rest).map (none, ·)
  | _ => none

def referring : Scanner (Option Variable)
  | '@' :: rest => some (some (reference rest).1, (reference rest).2)
  | _ => none

def anything : Scanner (Option Variable)
  | _ :: rest => some (none, rest)
  | [] => none

/-- The first that is there. -/
def item : Scanner (Option Variable) := fun chars =>
  (quoted chars).or ((referring chars).or (anything chars))

/-- As many as there are. One that takes nothing could be taken without end, so that is an error. -/
def many (scanner : Scanner α) (chars : List Char) : Option (List α × List Char) :=
  match scanner chars with
  | none => some ([], chars)
  | some (found, rest) =>
    if rest.length < chars.length then (many scanner rest).map fun (others, rest) => (found :: others, rest) else none
termination_by chars.length

def complete (scanner : Scanner α) (text : String) : Option α :=
  match scanner text.toList with
  | some (found, []) => some found
  | _ => none

def references? (text : String) : Option (List Variable) := (complete (many item) text).map List.reduceOption

theorem many_cons {scanner : Scanner α} {chars rest : List Char} {found : α} (here : scanner chars = some (found, rest))
    (shorter : rest.length < chars.length) :
    many scanner chars = (many scanner rest).map fun (others, rest) => (found :: others, rest) := by
  rw [many, here]
  exact if_pos shorter

theorem item_closed {rest after : List Char} (closed : closeQuote? rest = some after) :
    item ('"' :: rest) = some (none, after) := by
  simp [item, quoted, closed]

theorem item_open {rest : List Char} (unclosed : closeQuote? rest = none) : item ('"' :: rest) = some (none, rest) := by
  simp [item, quoted, referring, anything, unclosed]

theorem item_reference (rest : List Char) :
    item ('@' :: rest) = some (some (reference rest).1, (reference rest).2) := by
  simp [item, quoted, referring]

theorem item_other {c : Char} {rest : List Char} (unquoted : c ≠ '"') (plain : c ≠ '@') :
    item (c :: rest) = some (none, rest) := by
  simp [item, quoted, referring, anything, unquoted, plain]

/-- Whatever the characters, all of them are taken, and the references among the items are those that are found. -/
theorem many_item (chars : List Char) :
    ∃ items, many item chars = some (items, []) ∧ items.reduceOption = references chars := by
  have onward {chars rest : List Char} {found : Option Variable} {others : List Variable}
      (here : item chars = some (found, rest)) (shorter : rest.length < chars.length)
      (later : ∃ items, many item rest = some (items, []) ∧ items.reduceOption = others) :
      ∃ items, many item chars = some (items, []) ∧ items.reduceOption = found.toList ++ others := by
    obtain ⟨items, taken, same⟩ := later
    refine ⟨found :: items, by rw [many_cons here shorter, taken]; rfl, ?_⟩
    rw [← same]
    cases found <;> rfl
  fun_induction references chars with
  | case1 => exact ⟨[], by rw [many]; rfl, rfl⟩
  | case2 rest after closed step => exact onward (item_closed closed) (Nat.lt_succ_of_le (length_closeQuote?_le closed)) step
  | case3 rest unclosed step => exact onward (item_open unclosed) (Nat.lt_succ_self _) step
  | case4 rest step => exact onward (item_reference rest) (Nat.lt_succ_of_le (length_reference_le rest)) step
  | case5 c rest unquoted plain step => exact onward (item_other unquoted plain) (Nat.lt_succ_self _) step

theorem references?_eq (text : String) : references? text = some (referencesOf text) := by
  obtain ⟨items, taken, same⟩ := many_item text.toList
  rw [references?, complete, taken, referencesOf, ← same]
  rfl

end Scanner

end TraversalPlanner.Expression
