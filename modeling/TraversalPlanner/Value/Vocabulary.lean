import TraversalPlanner.Json.Record

/-! Closed sets of words: enumerations of which each member has one spelling. -/

namespace TraversalPlanner

class Vocabulary (α : Type) where
  members : List α
  word : α → String

namespace Vocabulary

variable {α : Type} [Vocabulary α]

def read? (text : String) : Option α := members.find? fun member => word member = text

/-- Reads a word written in any mixture of ASCII capitals and small letters. -/
def readFolded? (text : String) : Option α := read? (text.map Char.toLower)

def toJson (member : α) : Json := .text (word member)

def ofSpelled? (spelling : Json.Spelling) (json : Json) : Option α := json.bareVariant? spelling >>= read?

def ofJson? (json : Json) : Option α := ofSpelled? .exact json

end Vocabulary

end TraversalPlanner
