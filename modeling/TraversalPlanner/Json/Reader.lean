import TraversalPlanner.Json.Token

/-! Reading a JSON text, one word at a time. What is still open is kept as a stack of containers, each
with the values it already holds, the last one first. -/

namespace TraversalPlanner.Json

inductive Frame where
  | array (held : List Json)
  | object (held : List (Option String × Json)) (name : Option String)

/-- What the words read so far leave to come. -/
inductive Expectation where
  | item (around : List Frame)
  | firstItem (around : List Frame)
  | moreItems (held : List Json) (around : List Frame)
  | firstName (around : List Frame)
  | entryName (held : List (Option String × Json)) (around : List Frame)
  | colon (name : Option String) (held : List (Option String × Json)) (around : List Frame)
  | moreEntries (held : List (Option String × Json)) (around : List Frame)
  | finished (value : Json)

namespace Expectation

/-- Containers may be read when they are nested this deep. -/
def nestingLimit : Nat := 127

def complete (value : Json) : List Frame → Expectation
  | [] => .finished value
  | .array held :: around => .moreItems (value :: held) around
  | .object held name :: around => .moreEntries ((name, value) :: held) around

def completeArray (held : List Json) (around : List Frame) : Expectation :=
  complete (if around.length < nestingLimit then .array held.reverse else .unreadable) around

def entry? : Option String × Json → Option (String × Json)
  | (name, value) => name.map fun name => (name, value)

def completeObject (held : List (Option String × Json)) (around : List Frame) : Expectation :=
  match held.reverse.mapM entry? with
  | some entries => complete (if around.length < nestingLimit then .object entries else .unreadable) around
  | none => complete .unreadable around

def begin? (around : List Frame) : Token → Option Expectation
  | .scalar value => some (complete value around)
  | .text (some value) => some (complete (.text value) around)
  | .text none => some (complete .unreadable around)
  | .openArray => some (.firstItem around)
  | .openObject => some (.firstName around)
  | _ => none

def next? : Expectation → Token → Option Expectation
  | .item around, token => begin? around token
  | .firstItem around, .closeArray => some (completeArray [] around)
  | .firstItem around, token => begin? (.array [] :: around) token
  | .moreItems held around, .comma => some (.item (.array held :: around))
  | .moreItems held around, .closeArray => some (completeArray held around)
  | .firstName around, .closeObject => some (completeObject [] around)
  | .firstName around, .text name => some (.colon name [] around)
  | .entryName held around, .text name => some (.colon name held around)
  | .colon name held around, .colon => some (.item (.object held name :: around))
  | .moreEntries held around, .comma => some (.entryName held around)
  | .moreEntries held around, .closeObject => some (completeObject held around)
  | _, _ => none

end Expectation

/-- The value a text stands for, with nothing but white space around it. It may have unreadable parts. -/
def parse? (text : String) : Option Json := do
  match ← (← tokens? text).foldlM Expectation.next? (.item []) with
  | .finished value => return value
  | _ => none

end TraversalPlanner.Json
