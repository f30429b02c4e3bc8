import TraversalPlanner.Value.Element
import TraversalPlanner.Value.Literal

/-! Traversals as the query's parser hands them over: lists of steps, some of which hold traversals of
their own. Words for directions, orders and joins are still the texts that the query wrote. -/

namespace TraversalPlanner

/-- A comparison with a constant. -/
structure Test where
  comparator : Comparator
  value : Literal

/-- A filter on one property; without a test the property only has to exist. -/
structure Filter where
  key : String
  test : Option Test

/-- A condition between the tested element and tagged ones. -/
inductive TagCondition where
  | compare (comparator : Comparator) (tag : String)
  | and (left right : TagCondition)
  | or (left right : TagCondition)

mutual
/-- A step and the name that the query gave to its result. -/
structure Step where
  action : Action
  tag : Option String

inductive Action where
  | vertices (ids : List Literal)
  | edges (ids : List Literal)
  | has (filters : List Filter)
  | hasLabel (labels : List String)
  | hasId (ids : List Literal)
  | adjacent (direction : String) (labels : List String) (edge : Bool)
  | edgeVertex (direction : String)
  | otherVertex
  | path (direction : String) (labels : List String) (lower upper : Int32) (whole : Option Bool)
  | whereTags (start : Option String) (condition : TagCondition)
  | whereTraversal (inner : List Step)
  | not (inner : List Step)
  | apply (inner : List Step) (join : String)
  | union (branches : List (List Step))
  | limit (count : Int32)
  | range (lower upper : Int32)
  | order
  | group
  | groupCount
  | count
  | dedup (tags : List String)
  | select (tags : List String)
  | values (keys : List String)
  | valueMap (keys : List String)
  | by (modifier : Modifier) (order : Option String)
  | unknown (name : String)

/-- What a modulator makes of the element it is applied to. -/
inductive Modifier where
  | identity
  | key (name : String)
  | values (keys : List String)
  | valueMap (keys : List String)
  | select (tag : String) (property : Option String)
  | count
  | fold
  | traversal (inner : List Step)
end

abbrev Traversal := List Step

namespace Action

/-- The name of a step in the query language. -/
def name : Action → String
  | .vertices _ => "V"
  | .edges _ => "E"
  | .has _ => "has"
  | .hasLabel _ => "hasLabel"
  | .hasId _ => "hasId"
  | .adjacent .. => "vertex"
  | .edgeVertex _ => "edgeVertex"
  | .otherVertex => "otherV"
  | .path .. => "pathExpand"
  | .whereTags .. => "where"
  | .whereTraversal _ => "where"
  | .not _ => "not"
  | .apply .. => "apply"
  | .union _ => "union"
  | .limit _ => "limit"
  | .range .. => "range"
  | .order => "order"
  | .group => "group"
  | .groupCount => "groupCount"
  | .count => "count"
  | .dedup _ => "dedup"
  | .select _ => "select"
  | .values _ => "values"
  | .valueMap _ => "valueMap"
  | .by .. => "by"
  | .unknown name => name

/-- The traversals nested in a step, modulators apart. -/
def inner : Action → List Traversal
  | .whereTraversal inner => [inner]
  | .not inner => [inner]
  | .apply inner _ => [inner]
  | .union branches => branches
  | _ => []

end Action

end TraversalPlanner
