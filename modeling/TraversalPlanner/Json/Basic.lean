import TraversalPlanner.Number.Binary64

/-! JSON values. Whole numbers and doubles are told apart, and an object keeps its entries in the order
in which they were written, repeated names included. A well-formed text may hold parts that no value
stands for; they do no harm as long as nobody reads them. -/

namespace TraversalPlanner

open Number

inductive Json where
  | null
  | bool (value : Bool)
  | whole (value : Int)
  | real (value : Binary64)
  | text (value : String)
  | array (items : List Json)
  | object (entries : List (String × Json))
  /-- A number beyond the doubles, a text with half a surrogate pair, an object with such a name, or a
  container that lies too deep. -/
  | unreadable
deriving Inhabited

namespace Json

mutual
/-- How deeply containers are nested. -/
def depth : Json → Nat
  | .array items => depthOfItems items + 1
  | .object entries => depthOfEntries entries + 1
  | _ => 0
termination_by structural json => json

def depthOfItems : List Json → Nat
  | [] => 0
  | item :: rest => max (depth item) (depthOfItems rest)
termination_by structural items => items

def depthOfEntries : List (String × Json) → Nat
  | [] => 0
  | (_, value) :: rest => max (depth value) (depthOfEntries rest)
termination_by structural entries => entries
end

mutual
/-- There is a value for every part. -/
def readable : Json → Bool
  | .array items => readableItems items
  | .object entries => readableEntries entries
  | .unreadable => false
  | _ => true
termination_by structural json => json

def readableItems : List Json → Bool
  | [] => true
  | item :: rest => readable item && readableItems rest
termination_by structural items => items

def readableEntries : List (String × Json) → Bool
  | [] => true
  | (_, value) :: rest => readable value && readableEntries rest
termination_by structural entries => entries
end

end Json

end TraversalPlanner
