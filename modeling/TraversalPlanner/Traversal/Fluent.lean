import TraversalPlanner.Traversal.Basic

/-! Building traversals by hand, a step at a time: `[].vertices.out ["knows"]` and so on. -/

namespace TraversalPlanner.Traversal

def add (traversal : Traversal) (action : Action) : Traversal := traversal ++ [⟨action, none⟩]

/-- Names the result of the last step; an empty traversal has none to name. -/
def named (traversal : Traversal) (tag : String) : Traversal :=
  match traversal.getLast? with
  | some last => traversal.dropLast ++ [{ last with tag := some tag }]
  | none => traversal

def vertices (ids : List Literal) : Traversal := add [] (.vertices ids)

def edges : Traversal := add [] (.edges [])

def has (traversal : Traversal) (key : String) (test : Test) : Traversal :=
  traversal.add (.has [{ key, test := some test }])

def hasKey (traversal : Traversal) (key : String) : Traversal := traversal.add (.has [{ key, test := none }])

def out (traversal : Traversal) (labels : List String) : Traversal := traversal.add (.adjacent "out" labels false)

def into (traversal : Traversal) (labels : List String) : Traversal := traversal.add (.adjacent "in" labels false)

def both (traversal : Traversal) (labels : List String) : Traversal := traversal.add (.adjacent "both" labels false)

def outEdges (traversal : Traversal) (labels : List String) : Traversal := traversal.add (.adjacent "out" labels true)

def intoEdges (traversal : Traversal) (labels : List String) : Traversal := traversal.add (.adjacent "in" labels true)

def bothEdges (traversal : Traversal) (labels : List String) : Traversal := traversal.add (.adjacent "both" labels true)

def outVertex (traversal : Traversal) : Traversal := traversal.add (.edgeVertex "out")

def inVertex (traversal : Traversal) : Traversal := traversal.add (.edgeVertex "in")

def bothVertices (traversal : Traversal) : Traversal := traversal.add (.edgeVertex "both")

def path (traversal : Traversal) (direction : String) (labels : List String) (lower upper : Int32) : Traversal :=
  traversal.add (.path direction labels lower upper none)

def byKey (traversal : Traversal) (key : String) : Traversal := traversal.add (.by (.key key) none)

end TraversalPlanner.Traversal
