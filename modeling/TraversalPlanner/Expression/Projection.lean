import TraversalPlanner.Expression.Reference

/-! Projected expressions: one reference, or several between braces with commas. White space may stand
around the whole, inside the braces and around the commas. -/

namespace TraversalPlanner.Expression

inductive Projection where
  | single (reference : Variable)
  | group (references : List Variable)
deriving DecidableEq

namespace Projection

def isSpace (c : Char) : Bool := c = ' ' || c = '\t' || c = '\r' || c = '\n'

def skipSpace (chars : List Char) : List Char := chars.dropWhile isSpace

def reference? : List Char → Option (Variable × List Char)
  | '@' :: rest => some (reference rest)
  | _ => none

/-- The rest of a group behind its first reference. Every further one takes at least two characters, so
the text's length is fuel enough. -/
def groupTail? : Nat → List Char → Option (List Variable × List Char)
  | fuel, chars =>
    match fuel, skipSpace chars with
    | _, '\x7d' :: rest => some ([], rest)
    | fuel + 1, ',' :: rest => do
      let (found, rest) ← reference? (skipSpace rest)
      let (others, rest) ← groupTail? fuel rest
      return (found :: others, rest)
    | _, _ => none

def group? : List Char → Option (Projection × List Char)
  | '\x7b' :: rest => do
    let (found, rest) ← reference? (skipSpace rest)
    let (others, rest) ← groupTail? rest.length rest
    return (.group (found :: others), rest)
  | chars => (reference? chars).map fun (found, rest) => (.single found, rest)

def parseChars? (chars : List Char) : Option Projection :=
  match group? (skipSpace chars) with
  | some (projection, rest) => if (skipSpace rest).isEmpty then some projection else none
  | none => none

def parse? (text : String) : Option Projection := parseChars? text.toList

/-- One reference, or several between braces. -/
def braces (references : List Variable) : String :=
  "\x7b" ++ ", ".intercalate (references.map Variable.render) ++ "\x7d"

def render : Projection → String
  | .single reference => reference.render
  | .group references => braces references

end Projection

end TraversalPlanner.Expression
