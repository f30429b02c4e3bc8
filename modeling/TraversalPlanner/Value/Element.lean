import TraversalPlanner.Value.Vocabulary

/-! The vocabularies of graph queries: kinds of elements, directions, orders, joins, aggregates and
comparisons. -/

namespace TraversalPlanner

inductive ElementKind where
  | vertex
  | edge
deriving DecidableEq

instance : Vocabulary ElementKind where
  members := [.vertex, .edge]
  word
    | .vertex => "vertex"
    | .edge => "edge"

inductive Direction where
  | outgoing
  | incoming
  | both
deriving DecidableEq

instance : Vocabulary Direction where
  members := [.outgoing, .incoming, .both]
  word
    | .outgoing => "out"
    | .incoming => "in"
    | .both => "both"

inductive SortOrder where
  | ascending
  | descending
  | shuffle
deriving DecidableEq

instance : Vocabulary SortOrder where
  members := [.ascending, .descending, .shuffle]
  word
    | .ascending => "asc"
    | .descending => "desc"
    | .shuffle => "shuffle"

/-- A vertex of an edge; the other one is the one the walk did not come from. -/
inductive EdgeEnd where
  | start
  | finish
  | other
deriving DecidableEq

instance : Vocabulary EdgeEnd where
  members := [.start, .finish, .other]
  word
    | .start => "start"
    | .finish => "end"
    | .other => "other"

inductive JoinKind where
  | inner
  | leftOuter
  | rightOuter
  | fullOuter
  | semi
  | anti
  | times
deriving DecidableEq

instance : Vocabulary JoinKind where
  members := [.inner, .leftOuter, .rightOuter, .fullOuter, .semi, .anti, .times]
  word
    | .inner => "inner"
    | .leftOuter => "left_outer"
    | .rightOuter => "right_outer"
    | .fullOuter => "full_outer"
    | .semi => "semi"
    | .anti => "anti"
    | .times => "times"

inductive Aggregate where
  | sum
  | min
  | max
  | count
  | countDistinct
  | toList
  | toSet
  | average
deriving DecidableEq

instance : Vocabulary Aggregate where
  members := [.sum, .min, .max, .count, .countDistinct, .toList, .toSet, .average]
  word
    | .sum => "sum"
    | .min => "min"
    | .max => "max"
    | .count => "count"
    | .countDistinct => "count_distinct"
    | .toList => "to_list"
    | .toSet => "to_set"
    | .average => "avg"

inductive Comparator where
  | eq
  | neq
  | lt
  | lte
  | gt
  | gte
  | within
  | without
deriving DecidableEq

instance : Vocabulary Comparator where
  members := [.eq, .neq, .lt, .lte, .gt, .gte, .within, .without]
  word
    | .eq => "eq"
    | .neq => "neq"
    | .lt => "lt"
    | .lte => "lte"
    | .gt => "gt"
    | .gte => "gte"
    | .within => "within"
    | .without => "without"

/-- How a comparison is written in an expression. -/
def Comparator.symbol : Comparator → String
  | .eq => "=="
  | .neq => "!="
  | .lt => "<"
  | .lte => "<="
  | .gt => ">"
  | .gte => ">="
  | .within => "within"
  | .without => "without"

end TraversalPlanner
