import TraversalPlanner.Error
import TraversalPlanner.Traversal.Basic
import TraversalPlanner.Value.Variable

/-! Conditions on elements, written as expressions. -/

namespace TraversalPlanner.Expression

def comparison (left : String) (comparator : Comparator) (right : String) : String :=
  left ++ " " ++ comparator.symbol ++ " " ++ right

def conjunction (parts : List String) : String := " && ".intercalate parts

/-- Membership needs a list to be a member of. -/
def ofTest (subject : String) (test : Test) : Except Error String :=
  match test.comparator, test.value with
  | .within, .list items => .ok (comparison subject .within (Literal.list items).render)
  | .without, .list items => .ok (comparison subject .without (Literal.list items).render)
  | .within, value => .error (.illegalSlot .select .predicate (.listExpected .within value))
  | .without, value => .error (.illegalSlot .select .predicate (.listExpected .without value))
  | comparator, value => .ok (comparison subject comparator value.render)

def ofFilter (filter : Filter) : Except Error String :=
  let subject := (Variable.ofKey filter.key).render
  match filter.test with
  | some test => ofTest subject test
  | none => .ok subject

/-- All filters have to hold. -/
def ofFilters (filters : List Filter) : Except Error String := do
  return conjunction (← filters.mapM ofFilter)

/-- Equality with a single value, membership among any other number of them. -/
def oneOf (subject : String) : List Literal → String
  | [value] => comparison subject .eq value.render
  | values => comparison subject .within (Literal.list values).render

def ofIds (ids : List Literal) : String := oneOf "@.~id" ids

def ofLabels (labels : List String) : String := oneOf "@.~label" (labels.map Literal.text)

/-- Modulators take turns: operand `index` gets the key at that place, counted round and round. -/
def turn (keys : List (Option String)) (index : Nat) : Option String := (keys[index % keys.length]?).join

def operand (tag : Option String) (key : Option String) : Variable :=
  { tag := tag.map Identifier.name, property := key.map Property.ofName }

/-- An operand with a property is compared only where the property exists. -/
def guarded (left : Variable) (comparator : Comparator) (right : Variable) : String :=
  let guard (operand : Variable) := if operand.property.isSome then [operand.render] else []
  conjunction (guard left ++ guard right ++ [comparison left.render comparator right.render])

/-- Writes a condition whose first leaf is operand number `index`; also gives the next number. -/
def ofTagCondition (start : Variable) (keys : List (Option String)) : TagCondition → Nat → String × Nat
  | .compare comparator tag, index => (guarded start comparator (operand (some tag) (turn keys index)), index + 1)
  | .and left right, index =>
    let (leftText, middle) := ofTagCondition start keys left index
    let (rightText, next) := ofTagCondition start keys right middle
    (leftText ++ " && (" ++ rightText ++ ")", next)
  | .or left right, index =>
    let (leftText, middle) := ofTagCondition start keys left index
    let (rightText, next) := ofTagCondition start keys right middle
    (leftText ++ " || (" ++ rightText ++ ")", next)

/-- The start operand takes the first turn, the tags of the condition the following ones. -/
def ofWhere (start : Option String) (condition : TagCondition) (keys : List (Option String)) : String :=
  (ofTagCondition (operand start (turn keys 0)) keys condition 1).1

end TraversalPlanner.Expression
