import TraversalPlanner.Json.Basic
import TraversalPlanner.Number.Layout

/-! Writing JSON, on one line or indented by two spaces a level. -/

namespace TraversalPlanner.Json

open Number

/-- Doubles are written out from a hundred-thousandth up to below ten to the sixteenth and with a
signed exponent elsewhere; equally near digits go to the even one, and what is not finite is null. -/
def realLayout : Layout where
  lowest := -4
  highest := 16
  plus := "+"
  tie := .even
  notANumber := "null"
  infinity := fun _ => "null"

def lowerHex (n : Nat) : Char := (Nat.toDigits 16 (n % 16)).headD '0'

/-- Quotes, backslashes and control characters are escaped, all else stands for itself. -/
def escape (c : Char) : List Char :=
  match c with
  | '"' => ['\\', '"']
  | '\\' => ['\\', '\\']
  | '\n' => ['\\', 'n']
  | '\r' => ['\\', 'r']
  | '\t' => ['\\', 't']
  | '\x08' => ['\\', 'b']
  | '\x0c' => ['\\', 'f']
  | c => if c < ' ' then ['\\', 'u', '0', '0', lowerHex (c.toNat / 16), lowerHex c.toNat] else [c]

def quote (text : String) : String := "\"" ++ String.ofList (text.toList.flatMap escape) ++ "\""

def scalar : Json → String
  | .bool true => "true"
  | .bool false => "false"
  | .whole n => toString n
  | .real x => realLayout.render x
  | .text value => quote value
  | _ => "null"

mutual
/-- On one line. -/
def compact : Json → String
  | .array items => "[" ++ ",".intercalate (compactItems items) ++ "]"
  | .object entries => "\x7b" ++ ",".intercalate (compactEntries entries) ++ "\x7d"
  | value => scalar value
termination_by structural json => json

def compactItems : List Json → List String
  | [] => []
  | item :: rest => compact item :: compactItems rest
termination_by structural items => items

def compactEntries : List (String × Json) → List String
  | [] => []
  | (name, value) :: rest => (quote name ++ ":" ++ compact value) :: compactEntries rest
termination_by structural entries => entries
end

def indent (level : Nat) : String := String.ofList (List.replicate (2 * level) ' ')

/-- Lines between two brackets, one level deeper than the brackets. -/
def block (level : Nat) (opening closing : String) (lines : List String) : String :=
  if lines.isEmpty then opening ++ closing
  else
    let inner := "\n" ++ indent (level + 1)
    opening ++ inner ++ ("," ++ inner).intercalate lines ++ "\n" ++ indent level ++ closing

mutual
/-- Indented, for a value that stands at the given level. -/
def pretty (level : Nat) : Json → String
  | .array items => block level "[" "]" (prettyItems (level + 1) items)
  | .object entries => block level "\x7b" "\x7d" (prettyEntries (level + 1) entries)
  | value => scalar value
termination_by structural json => json

def prettyItems (level : Nat) : List Json → List String
  | [] => []
  | item :: rest => pretty level item :: prettyItems level rest
termination_by structural items => items

def prettyEntries (level : Nat) : List (String × Json) → List String
  | [] => []
  | (name, value) :: rest => (quote name ++ ": " ++ pretty level value) :: prettyEntries level rest
termination_by structural entries => entries
end

end TraversalPlanner.Json
