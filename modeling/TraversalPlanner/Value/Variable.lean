import TraversalPlanner.Value.Identifier

/-! References to elements and their properties. An expression writes the current element as an at sign,
a tagged one with the tag behind it, and a property behind a point. -/

namespace TraversalPlanner

inductive Property where
  | id
  | label
  | key (name : String)
deriving DecidableEq

namespace Property

/-- The element's own id and label have names that begin with a tilde; all others are keys. -/
def ofName (name : String) : Property :=
  if name = "~id" then .id
  else if name = "~label" then .label
  else .key name

def name : Property → String
  | .id => "~id"
  | .label => "~label"
  | .key name => name

/-- No name is lost by the two special ones. -/
theorem name_ofName (text : String) : (ofName text).name = text := by
  unfold ofName
  split
  · next same => exact same.symm
  · split
    · next same => exact same.symm
    · rfl

def toJson : Property → Json
  | .id => .text "id"
  | .label => .text "label"
  | .key name => .object [("key", .text name)]

def ofJson? (json : Json) : Option Property :=
  match json.bareVariant? .exact, json with
  | some "id", _ => some .id
  | some "label", _ => some .label
  | _, .object [("key", content)] => content.text?.map Property.key
  | _, _ => none

end Property

structure Variable where
  tag : Option Identifier
  property : Option Property
deriving DecidableEq

namespace Variable

/-- The current element. -/
def current : Variable := { tag := none, property := none }

def ofTag (tag : Identifier) : Variable := { tag := some tag, property := none }

def ofKey (key : String) : Variable := { tag := none, property := some (Property.ofName key) }

def ofTagKey (tag : Identifier) (key : String) : Variable :=
  { tag := some tag, property := some (Property.ofName key) }

def isCurrent (reference : Variable) : Bool := reference.tag.isNone && reference.property.isNone

def render (reference : Variable) : String :=
  "@" ++ (reference.tag.map Identifier.render).getD ""
    ++ (reference.property.map fun property => "." ++ property.name).getD ""

def toJson (reference : Variable) : Json :=
  .object [("tag", .ofOption Identifier.toJson reference.tag),
    ("property", .ofOption Property.toJson reference.property)]

def ofJson? (json : Json) : Option Variable := do
  let fields ← json.fields? ["tag", "property"]
  return {
    tag := ← fields.optional? "tag" Identifier.ofJson?
    property := ← fields.optional? "property" Property.ofJson? }

end Variable

end TraversalPlanner
