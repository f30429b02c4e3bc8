import TraversalPlanner.Json.Record
import TraversalPlanner.Number.Layout

/-! Constants that queries compare with and look up. -/

namespace TraversalPlanner

open Number

inductive Literal where
  | bool (value : Bool)
  | whole (value : Int64)
  | real (value : Binary64)
  | text (value : String)
  | list (items : List Literal)
deriving Inhabited

namespace Literal

/-- In expressions doubles are written out from a ten-thousandth up to below ten to the sixteenth, and
of two equally near digits the larger is taken. -/
def realLayout : Layout where
  lowest := -3
  highest := 16
  plus := ""
  tie := .up
  notANumber := "NaN"
  infinity := fun negative => if negative then "-inf" else "inf"

/-- Only backslashes and quotes are escaped inside a quoted text. -/
def escape (c : Char) : List Char :=
  if c = '\\' ∨ c = '"' then ['\\', c] else [c]

def quote (text : String) : String := "\"" ++ String.ofList (text.toList.flatMap escape) ++ "\""

mutual
def render : Literal → String
  | .bool value => toString value
  | .whole value => toString value.toInt
  | .real value => realLayout.render value
  | .text value => quote value
  | .list items => "[" ++ ", ".intercalate (renderAll items) ++ "]"
termination_by structural literal => literal

def renderAll : List Literal → List String
  | [] => []
  | item :: rest => render item :: renderAll rest
termination_by structural items => items
end

mutual
def toJson : Literal → Json
  | .bool value => .object [("bool", .bool value)]
  | .whole value => .object [("int", .whole value.toInt)]
  | .real value => .object [("float", .real value)]
  | .text value => .object [("str", .text value)]
  | .list items => .object [("list", .array (toJsonAll items))]
termination_by structural literal => literal

def toJsonAll : List Literal → List Json
  | [] => []
  | item :: rest => toJson item :: toJsonAll rest
termination_by structural items => items
end

mutual
def ofJson? : Json → Option Literal
  | .object [("bool", content)] => content.bool?.map Literal.bool
  | .object [("int", content)] => content.int64?.map Literal.whole
  | .object [("float", content)] => content.real?.map Literal.real
  | .object [("str", content)] => content.text?.map Literal.text
  | .object [("list", .array items)] => (ofJsonAll? items).map Literal.list
  | _ => none
termination_by structural json => json

def ofJsonAll? : List Json → Option (List Literal)
  | [] => some []
  | item :: rest => do return (← ofJson? item) :: (← ofJsonAll? rest)
termination_by structural items => items
end

end Literal

end TraversalPlanner
