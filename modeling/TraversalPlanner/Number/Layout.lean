import TraversalPlanner.Number.Shortest

/-! The text of a double: shortest digits, placed as a format asks. -/

namespace TraversalPlanner.Number

/-- How a format writes doubles. A number whose leading digit stands `p` places before the point is
written out when `p` is between `lowest` and `highest`, and with an exponent otherwise. -/
structure Layout where
  lowest : Int
  highest : Int
  plus : String
  tie : Tie
  notANumber : String
  infinity : Bool → String

namespace Layout

def zeros (n : Nat) : String := String.ofList (List.replicate n '0')

def positional (digits : String) (place : Int) : String :=
  if place ≤ 0 then "0." ++ zeros (-place).toNat ++ digits
  else if digits.length ≤ place.toNat then digits ++ zeros (place.toNat - digits.length) ++ ".0"
  else (digits.take place.toNat).toString ++ "." ++ (digits.drop place.toNat).toString

def scientific (plus digits : String) (place : Int) : String :=
  let mantissa :=
    if digits.length ≤ 1 then digits
    else (digits.take 1).toString ++ "." ++ (digits.drop 1).toString
  let power := place - 1
  mantissa ++ "e" ++ (if power < 0 then "-" else plus) ++ toString power.natAbs

def magnitude (layout : Layout) (x : Binary64) : String :=
  if x.isZero then "0.0"
  else
    let decimal := shortest layout.tie x
    let digits := toString decimal.digits
    let place := decimal.exponent + digits.length
    if layout.lowest ≤ place ∧ place ≤ layout.highest then positional digits place
    else scientific layout.plus digits place

def render (layout : Layout) (x : Binary64) : String :=
  if x.isNaN then layout.notANumber
  else if x.isInfinite then layout.infinity x.negative
  else (if x.negative then "-" else "") ++ layout.magnitude x

end Layout

/-- One digit after the point, from the exact value of a finite non-negative double; a half goes to the
even digit. -/
def oneDecimal (x : Binary64) : String :=
  let (top, bottom) := x.quotient
  let tenths := roundHalfEven (top * 10) bottom
  toString (tenths / 10) ++ "." ++ toString (tenths % 10)

end TraversalPlanner.Number
