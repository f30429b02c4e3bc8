import TraversalPlanner.Error
import TraversalPlanner.Expression.Projection

/-! Names for results that the query did not name. -/

namespace TraversalPlanner.Expression

/-- A tag and a property joined by an underscore, or the one of them that is there. -/
def nameOfReference (reference : Variable) : String :=
  match reference.tag, reference.property with
  | some tag, some property => tag.render ++ "_" ++ property.name
  | some tag, none => tag.render
  | none, some property => property.name
  | none, none => ""

/-- The names of a group's properties between braces, behind the first tag in the group. -/
def nameOfGroup (text : String) (references : List Variable) : Except Error String := do
  let properties ← references.mapM fun reference =>
    match reference.property with
    | some property => .ok property.name
    | none => .error (.unsupportedPattern (.namelessEntry text))
  let group := "\x7b" ++ ", ".intercalate properties ++ "\x7d"
  match references.findSome? Variable.tag with
  | some tag => return tag.render ++ "_" ++ group
  | none => return group

/-- The name of one column among several, from the expression that it projects. -/
def nameOfProjection (text : String) : Except Error String :=
  match Projection.parse? text with
  | none => .error (.unsupportedPattern (.unreadableProjection text))
  | some (.group references) => nameOfGroup text references
  | some (.single reference) =>
    match reference.tag, reference.property with
    | some tag, none => .ok ("project_" ++ tag.render)
    | none, none => .error (.unsupportedPattern (.namelessProjection text))
    | _, some _ => .ok (nameOfReference reference)

def groupValueName : String := "groupValues"

def groupKeyName (key : Variable) : String :=
  if key.isCurrent then "groupKeys" else "groupKeys_" ++ nameOfReference key

end TraversalPlanner.Expression
