import TraversalPlanner.Text.Classes
import TraversalPlanner.Value.Variable

/-! Finding the references in an expression. An expression is not parsed in full: what stands between
quotes is passed over, each at sign begins a reference, and every other character stands for nothing. -/

namespace TraversalPlanner.Expression

def isTagCharacter (c : Char) : Bool := Text.isAlphanumeric c || c = '_'

def isPropertyCharacter (c : Char) : Bool := isTagCharacter c || c = '~'

/-- A point is part of a reference only if a property follows it. -/
def property? : List Char → Option Property × List Char
  | '.' :: rest =>
    match rest.takeWhile isPropertyCharacter with
    | [] => (none, '.' :: rest)
    | name => (some (Property.ofName (String.ofList name)), rest.dropWhile isPropertyCharacter)
  | rest => (none, rest)

/-- The reference after an at sign, as long as it goes on, and the text behind it. -/
def reference (chars : List Char) : Variable × List Char :=
  let tag := chars.takeWhile isTagCharacter
  let (property, rest) := property? (chars.dropWhile isTagCharacter)
  ({ tag := if tag.isEmpty then none else some (.name (String.ofList tag)), property }, rest)

/-- The text behind the closing quote; a backslash takes the next character with it. -/
def closeQuote? : List Char → Option (List Char)
  | [] => none
  | '"' :: rest => some rest
  | '\\' :: _ :: rest => closeQuote? rest
  | '\\' :: [] => none
  | _ :: rest => closeQuote? rest

theorem length_dropWhile_le (p : Char → Bool) (chars : List Char) : (chars.dropWhile p).length ≤ chars.length :=
  (List.dropWhile_suffix p).length_le

theorem length_property?_le (chars : List Char) : (property? chars).2.length ≤ chars.length := by
  unfold property?
  split
  · split
    · exact Nat.le_refl _
    · exact Nat.le_succ_of_le (length_dropWhile_le _ _)
  · exact Nat.le_refl _

theorem length_reference_le (chars : List Char) : (reference chars).2.length ≤ chars.length :=
  Nat.le_trans (length_property?_le _) (length_dropWhile_le _ _)

theorem length_closeQuote?_le {chars rest : List Char} (closed : closeQuote? chars = some rest) :
    rest.length ≤ chars.length := by
  fun_induction closeQuote? chars with
  | case1 => cases closed
  | case2 => cases closed; simp
  | case3 _ _ step => exact Nat.le_trans (step closed) (Nat.le_add_right _ 2)
  | case4 => cases closed
  | case5 _ _ _ _ _ step => exact Nat.le_trans (step closed) (by simp)

def references : List Char → List Variable
  | [] => []
  | '"' :: rest =>
    match _closed : closeQuote? rest with
    | some after => references after
    | none => references rest
  | '@' :: rest => (reference rest).1 :: references (reference rest).2
  | _ :: rest => references rest
termination_by chars => chars.length
decreasing_by
  · exact Nat.lt_succ_of_le (length_closeQuote?_le _closed)
  · exact Nat.lt_succ_self _
  · exact Nat.lt_succ_of_le (length_reference_le _)
  · exact Nat.lt_succ_self _

/-- All references of an expression, in the order in which they appear. -/
def referencesOf (text : String) : List Variable := references text.toList

end TraversalPlanner.Expression
