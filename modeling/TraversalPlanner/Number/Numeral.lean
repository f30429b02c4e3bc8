import TraversalPlanner.Number.Binary64

/-! Decimal numerals as they stand in a text, and the number each of them names. Digits are gathered
in a 64-bit word; those that no longer fit only move the point. The word is then scaled by one power
of ten, so the result can miss the nearest number by a unit in the last place. -/

namespace TraversalPlanner.Number

structure Numeral where
  negative : Bool
  whole : List Nat
  fraction : List Nat
  exponent : Option Int

/-- What a numeral names: a whole number of at most 64 bits or a double. -/
inductive Amount where
  | whole (n : Int)
  | real (x : Binary64)

namespace Numeral

def wordLimit : Nat := twoTo 64 - 1

/-- Reads digits while they fit into the word; counts the digits read and those left over. -/
def gather (word : Nat) : List Nat → Nat × Nat × Nat
  | [] => (word, 0, 0)
  | digit :: rest =>
    if word * 10 + digit ≤ wordLimit then
      let (result, kept, dropped) := gather (word * 10 + digit) rest
      (result, kept + 1, dropped)
    else (word, 0, rest.length + 1)

def powerOfTen (k : Nat) : Binary64 := Binary64.ofNat (tenTo k)

/-- The largest power of ten that is a finite double. -/
def largestPower : Nat := 308

def shrink (x : Binary64) (k : Nat) : Binary64 :=
  if k ≤ largestPower then x.div (powerOfTen k)
  else if x.isZero then x
  else shrink (x.div (powerOfTen largestPower)) (k - largestPower)
termination_by k
decreasing_by simp only [largestPower] at *; omega

def grow (x : Binary64) (k : Nat) : Option Binary64 :=
  if k ≤ largestPower then
    let scaled := x.mul (powerOfTen k)
    if scaled.isFinite then some scaled else none
  else if x.isZero then some x
  else none

def scale (word : Nat) (power : Int) : Option Binary64 :=
  if 0 ≤ power then grow (.ofNat word) power.toNat else some (shrink (.ofNat word) (-power).toNat)

/-- Absent when the number is beyond the largest double. A numeral without point and exponent that
fits is whole; minus zero is not. -/
def amount (numeral : Numeral) : Option Amount :=
  let (word, _, dropped) := gather 0 numeral.whole
  let real (word : Nat) (power : Int) :=
    (scale word power).map fun x => Amount.real (if numeral.negative then x.neg else x)
  match numeral.fraction, numeral.exponent with
  | [], none =>
    if dropped ≠ 0 then real word dropped
    else if !numeral.negative then some (.whole word)
    else if 0 < word ∧ word ≤ twoTo 63 then some (.whole (-(word : Int)))
    else real word 0
  | fraction, exponent =>
    let (word, kept, _) := gather word fraction
    real word ((dropped : Int) - kept + exponent.getD 0)

end Numeral

end TraversalPlanner.Number
