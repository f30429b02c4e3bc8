import TraversalPlanner.Value.Element
import TraversalPlanner.Value.Variable

/-! The parts that projections, orders, groups and limits are made of. Where a part carries a name, its
type is a parameter: operators keep full aliases, plans only their names. -/

namespace TraversalPlanner

/-- A projected expression and the name bound to its result. -/
structure Projected (ν : Type) where
  expression : String
  tag : Option ν
deriving DecidableEq

structure SortKey where
  key : Variable
  order : SortOrder
deriving DecidableEq

structure GroupKey (ν : Type) where
  key : Variable
  tag : ν
deriving DecidableEq

structure Aggregation (ν : Type) where
  inputs : List Variable
  aggregate : Aggregate
  tag : ν
deriving DecidableEq

/-- From `lower` up to but without `upper`. -/
structure Window where
  lower : Int32
  upper : Int32
deriving DecidableEq

variable {ν : Type}

namespace Projected

def toJson (write : ν → Json) (column : Projected ν) : Json :=
  .object [("expr", .text column.expression), ("alias", .ofOption write column.tag)]

def ofJson? (read : Json → Option ν) (json : Json) : Option (Projected ν) := do
  let fields ← json.fields? ["expr", "alias"]
  return { expression := ← fields.required? "expr" Json.text?, tag := ← fields.optional? "alias" read }

end Projected

namespace SortKey

def toJson (pair : SortKey) : Json :=
  .object [("key", pair.key.toJson), ("order", Vocabulary.toJson pair.order)]

def ofJson? (json : Json) : Option SortKey := do
  let fields ← json.fields? ["key", "order"]
  return { key := ← fields.required? "key" Variable.ofJson?, order := ← fields.required? "order" Vocabulary.ofJson? }

end SortKey

namespace GroupKey

def toJson (write : ν → Json) (pair : GroupKey ν) : Json :=
  .object [("key", pair.key.toJson), ("alias", write pair.tag)]

def ofJson? (read : Json → Option ν) (json : Json) : Option (GroupKey ν) := do
  let fields ← json.fields? ["key", "alias"]
  return { key := ← fields.required? "key" Variable.ofJson?, tag := ← fields.required? "alias" read }

end GroupKey

namespace Aggregation

def toJson (write : ν → Json) (value : Aggregation ν) : Json :=
  .object [("vars", .ofList Variable.toJson value.inputs), ("aggregate", Vocabulary.toJson value.aggregate),
    ("alias", write value.tag)]

def ofJson? (read : Json → Option ν) (json : Json) : Option (Aggregation ν) := do
  let fields ← json.fields? ["vars", "aggregate", "alias"]
  return {
    inputs := ← fields.required? "vars" (Json.listOf? Variable.ofJson?)
    aggregate := ← fields.required? "aggregate" Vocabulary.ofJson?
    tag := ← fields.required? "alias" read }

end Aggregation

namespace Window

def toJson (window : Window) : Json :=
  .object [("lower", .whole window.lower.toInt), ("upper", .whole window.upper.toInt)]

def ofJson? (json : Json) : Option Window := do
  let fields ← json.fields? ["lower", "upper"]
  return { lower := ← fields.required? "lower" Json.int32?, upper := ← fields.required? "upper" Json.int32? }

end Window

end TraversalPlanner
