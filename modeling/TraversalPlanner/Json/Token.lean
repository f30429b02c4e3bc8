import TraversalPlanner.Json.Basic
import TraversalPlanner.Number.Numeral

/-! The words of a JSON text. A string may hold any character from the space upwards. One with an
escaped surrogate that is not part of a pair is well formed, but stands for no text. -/

namespace TraversalPlanner.Json

open Number

inductive Token where
  | openArray
  | closeArray
  | openObject
  | closeObject
  | comma
  | colon
  | text (value : Option String)
  | scalar (value : Json)

namespace Token

def isBlank (c : Char) : Bool := c = ' ' || c = '\t' || c = '\n' || c = '\r'

def hexDigit? (c : Char) : Option Nat :=
  if '0' ≤ c ∧ c ≤ '9' then some (c.toNat - '0'.toNat)
  else if 'a' ≤ c ∧ c ≤ 'f' then some (c.toNat - 'a'.toNat + 10)
  else if 'A' ≤ c ∧ c ≤ 'F' then some (c.toNat - 'A'.toNat + 10)
  else none

def hexUnit? (a b c d : Char) : Option Nat := do
  return (((← hexDigit? a) * 16 + (← hexDigit? b)) * 16 + (← hexDigit? c)) * 16 + (← hexDigit? d)

/-- The escaped low surrogate at the front of a text. -/
def lowSurrogate? : List Char → Option Nat
  | '\\' :: 'u' :: a :: b :: c :: d :: _ => do
    let unit ← hexUnit? a b c d
    if 0xDC00 ≤ unit ∧ unit ≤ 0xDFFF then some unit else none
  | _ => none

/-- What follows a backslash: the character that it names, unless that is half a surrogate pair, and the
number of characters that it takes. -/
def escape? : List Char → Option (Option Char × Nat)
  | 'u' :: a :: b :: c :: d :: rest => do
    let unit ← hexUnit? a b c d
    if unit < 0xD800 ∨ 0xDFFF < unit then return (some (Char.ofNat unit), 5)
    else if 0xDC00 ≤ unit then return (none, 5)
    else match lowSurrogate? rest with
      | some low => return (some (Char.ofNat (0x10000 + (unit - 0xD800) * 0x400 + (low - 0xDC00))), 11)
      | none => return (none, 5)
  | '"' :: _ => some (some '"', 1)
  | '\\' :: _ => some (some '\\', 1)
  | '/' :: _ => some (some '/', 1)
  | 'b' :: _ => some (some '\x08', 1)
  | 'f' :: _ => some (some '\x0c', 1)
  | 'n' :: _ => some (some '\n', 1)
  | 'r' :: _ => some (some '\r', 1)
  | 't' :: _ => some (some '\t', 1)
  | _ => none

/-- The rest of a string after its opening quote, and the text after its closing one. `read` holds the
characters read so far, the last one first, as long as there is a character for each of them. -/
def string? (read : Option (List Char)) : List Char → Option (Option String × List Char)
  | [] => none
  | '"' :: rest => some (read.map fun chars => String.ofList chars.reverse, rest)
  | '\\' :: rest =>
    match escape? rest with
    | some (c, width) => string? (do return (← c) :: (← read)) (rest.drop width)
    | none => none
  | c :: rest => if c < ' ' then none else string? (read.map (c :: ·)) rest
termination_by chars => chars.length
decreasing_by all_goals simp only [List.length_cons, List.length_drop]; omega

def digits (chars : List Char) : List Nat × List Char :=
  ((chars.takeWhile Char.isDigit).map fun c => c.toNat - '0'.toNat, chars.dropWhile Char.isDigit)

/-- At least one digit. -/
def digits? (chars : List Char) : Option (List Nat × List Char) :=
  match digits chars with
  | ([], _) => none
  | found => some found

def fraction? : List Char → Option (List Nat × List Char)
  | '.' :: rest => digits? rest
  | rest => some ([], rest)

def decimalValue (digits : List Nat) : Nat := digits.foldl (fun value digit => value * 10 + digit) 0

def exponent? : List Char → Option (Option Int × List Char)
  | c :: rest =>
    if c = 'e' ∨ c = 'E' then
      match rest with
      | '-' :: rest => (digits? rest).map fun (found, rest) => (some (-(decimalValue found : Int)), rest)
      | '+' :: rest => (digits? rest).map fun (found, rest) => (some (decimalValue found : Int), rest)
      | rest => (digits? rest).map fun (found, rest) => (some (decimalValue found : Int), rest)
    else some (none, c :: rest)
  | [] => some (none, [])

/-- A number is written without leading zeros. -/
def numeral? (chars : List Char) : Option (Numeral × List Char) := do
  let (negative, chars) := match chars with
    | '-' :: rest => (true, rest)
    | rest => (false, rest)
  let (integral, chars) ← digits? chars
  match integral with
  | 0 :: _ :: _ => none
  | _ =>
    let (fraction, chars) ← fraction? chars
    let (exponent, chars) ← exponent? chars
    return ({ negative, whole := integral, fraction, exponent }, chars)

def ofNumeral (numeral : Numeral) : Json :=
  match numeral.amount with
  | some (.whole n) => .whole n
  | some (.real x) => .real x
  | none => .unreadable

/-- The first word of a text that does not begin with white space, and what follows it. -/
def next? : List Char → Option (Token × List Char)
  | '[' :: rest => some (.openArray, rest)
  | ']' :: rest => some (.closeArray, rest)
  | '\x7b' :: rest => some (.openObject, rest)
  | '\x7d' :: rest => some (.closeObject, rest)
  | ',' :: rest => some (.comma, rest)
  | ':' :: rest => some (.colon, rest)
  | '"' :: rest => (string? (some []) rest).map fun (value, rest) => (.text value, rest)
  | 'n' :: 'u' :: 'l' :: 'l' :: rest => some (.scalar .null, rest)
  | 't' :: 'r' :: 'u' :: 'e' :: rest => some (.scalar (.bool true), rest)
  | 'f' :: 'a' :: 'l' :: 's' :: 'e' :: rest => some (.scalar (.bool false), rest)
  | chars => (numeral? chars).map fun (numeral, rest) => (.scalar (ofNumeral numeral), rest)

/-- All words of a text. Each word takes at least one character, so the text's length is fuel enough. -/
def all? : Nat → List Char → List Token → Option (List Token)
  | fuel, chars, found =>
    match fuel, chars.dropWhile isBlank with
    | _, [] => some found.reverse
    | 0, _ => none
    | fuel + 1, chars =>
      match next? chars with
      | some (token, rest) => all? fuel rest (token :: found)
      | none => none

end Token

def tokens? (text : String) : Option (List Token) :=
  let chars := text.toList
  Token.all? chars.length chars []

end TraversalPlanner.Json
