/-! Double-precision numbers, kept as their 64 bits. The planner carries them from a query into a plan
and writes them down; the little arithmetic it needs is done on exact quotients and rounded once. -/

namespace TraversalPlanner.Number

def twoTo (n : Nat) : Nat := Nat.pow 2 n

def tenTo (n : Nat) : Nat := Nat.pow 10 n

/-- The whole number nearest to `top / bottom`; a half goes to the even neighbour. -/
def roundHalfEven (top bottom : Nat) : Nat :=
  let quotient := top / bottom
  let twice := 2 * (top % bottom)
  if twice < bottom then quotient
  else if twice = bottom then quotient + quotient % 2
  else quotient + 1

structure Binary64 where
  bits : UInt64
deriving DecidableEq, Inhabited

namespace Binary64

def negative (x : Binary64) : Bool := twoTo 63 ≤ x.bits.toNat

/-- The bits below the sign; they order the magnitudes. -/
def magnitude (x : Binary64) : Nat := x.bits.toNat % twoTo 63

def isZero (x : Binary64) : Bool := x.magnitude = 0

/-- The magnitude of the infinities; all above it are not numbers. -/
def infinite : Nat := 2047 * twoTo 52

def isFinite (x : Binary64) : Bool := x.magnitude < infinite

def isInfinite (x : Binary64) : Bool := x.magnitude = infinite

def isNaN (x : Binary64) : Bool := infinite < x.magnitude

/-- A finite number is `significand * 2 ^ exponent` up to its sign. -/
def significand (x : Binary64) : Nat :=
  let fraction := x.magnitude % twoTo 52
  if x.magnitude < twoTo 52 then fraction else fraction + twoTo 52

def exponent (x : Binary64) : Int := (max (x.magnitude / twoTo 52) 1 : Nat) - 1075

/-- A finite magnitude as an exact quotient. -/
def quotient (x : Binary64) : Nat × Nat :=
  (x.significand * twoTo x.exponent.toNat, twoTo (-x.exponent).toNat)

def ofMagnitude (m : Nat) : Binary64 := ⟨UInt64.ofNat m⟩

def neg (x : Binary64) : Binary64 := ⟨x.bits ^^^ 0x8000000000000000⟩

/-- The non-negative number nearest to `top / bottom`, a half going to the even significand. The
significand has 53 bits unless the exponent is already the least one; rounding up to the next power of
two carries into the exponent by itself. -/
def nearest (top bottom : Nat) : Binary64 :=
  if top = 0 then ofMagnitude 0
  else
    let rough : Int := (top.log2 : Int) - bottom.log2 - 52
    let scaled (e : Int) := (top * twoTo (-e).toNat, bottom * twoTo e.toNat)
    let full := (scaled rough).1 / (scaled rough).2 < twoTo 52
    let e := max (if full then rough - 1 else rough) (-1074)
    let rounded := roundHalfEven (scaled e).1 (scaled e).2
    ofMagnitude (min ((e + 1074).toNat * twoTo 52 + rounded) infinite)

def ofNat (n : Nat) : Binary64 := nearest n 1

/-- Sums, products and quotients of finite non-negative numbers. -/
def add (x y : Binary64) : Binary64 :=
  let (a, b) := x.quotient
  let (c, d) := y.quotient
  nearest (a * d + c * b) (b * d)

def mul (x y : Binary64) : Binary64 :=
  let (a, b) := x.quotient
  let (c, d) := y.quotient
  nearest (a * c) (b * d)

def div (x y : Binary64) : Binary64 :=
  let (a, b) := x.quotient
  let (c, d) := y.quotient
  nearest (a * d) (b * c)

end Binary64

end TraversalPlanner.Number
