import TraversalPlanner.Value.Vocabulary

/-! Why an accumulator refuses to extend its plan. The numbers are part of the interface. -/

namespace TraversalPlanner

inductive Refusal where
  | parseExpr
  | invalidRange
  | negativeIndex
  | buildJob
  | parentNotFound
  | columnNotExist
  | tableNotExist
  | tagNotExist
  | unsupported
  | planReleased
deriving DecidableEq

instance : Vocabulary Refusal where
  members := [.parseExpr, .invalidRange, .negativeIndex, .buildJob, .parentNotFound, .columnNotExist, .tableNotExist,
    .tagNotExist, .unsupported, .planReleased]
  word
    | .parseExpr => "ParseExprError"
    | .invalidRange => "InvalidRangeError"
    | .negativeIndex => "NegativeIndexError"
    | .buildJob => "BuildJobError"
    | .parentNotFound => "ParentNotFoundError"
    | .columnNotExist => "ColumnNotExistError"
    | .tableNotExist => "TableNotExistError"
    | .tagNotExist => "TagNotExistError"
    | .unsupported => "UnsupportedError"
    | .planReleased => "PlanReleasedError"

namespace Refusal

def name (refusal : Refusal) : String := Vocabulary.word refusal

def code : Refusal → Nat
  | .parseExpr => 1
  | .invalidRange => 2
  | .negativeIndex => 3
  | .buildJob => 4
  | .parentNotFound => 5
  | .columnNotExist => 6
  | .tableNotExist => 7
  | .tagNotExist => 8
  | .unsupported => 9
  | .planReleased => 10

def message (refusal : Refusal) : String := s!"{refusal.name}({refusal.code})"

end Refusal

end TraversalPlanner
