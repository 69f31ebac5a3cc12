/-! Binary64 numbers, kept as their sixty-four bits. Rounding is exact arithmetic on natural
numbers: the magnitude bits of a finite number grow with its value, so a rounded significand is
simply added to the place of its exponent. -/

namespace RubyTree

structure Double where
  bits : UInt64
deriving DecidableEq, Inhabited

namespace Double

def signBit : Nat := 0x8000000000000000

/-- The weight of the lowest bit of the exponent, which is also that of the leading bit left out of a
normal significand. -/
def exponentBit : Nat := 0x10000000000000

def infinity : Nat := 0x7ff0000000000000

def magnitude (x : Double) : Nat := x.bits.toNat % signBit

def negative (x : Double) : Bool := decide (signBit ≤ x.bits.toNat)

def isZero (x : Double) : Bool := x.magnitude == 0

/-- Neither an infinity nor a NaN. -/
def isFinite (x : Double) : Bool := decide (x.magnitude < infinity)

/-- Equality of the numbers: the two zeros are one number. -/
def sameNumber (x y : Double) : Bool := x.bits == y.bits || (x.isZero && y.isZero)

def exponentField (x : Double) : Nat := x.magnitude / exponentBit

/-- The absolute value is `significand * 2 ^ scale`. -/
def significand (x : Double) : Nat :=
  let fraction := x.magnitude % exponentBit
  if x.exponentField = 0 then fraction else fraction + exponentBit

def scale (x : Double) : Int := Int.ofNat (max x.exponentField 1) - 1075

def ofMagnitude (negative : Bool) (magnitude : Nat) : Double :=
  ⟨UInt64.ofNat (magnitude + if negative then signBit else 0)⟩

/-- The quotient rounded to the nearest natural number, a half to the even neighbour. -/
def roundHalfEven (num den : Nat) : Nat :=
  let quotient := num / den
  let twice := 2 * (num % den)
  if twice < den then quotient
  else if den < twice then quotient + 1
  else quotient + quotient % 2

/-- The fraction `num / den` divided by `2 ^ e`. -/
def shiftRatio (num den : Nat) (e : Int) : Nat × Nat :=
  match e with
  | .ofNat k => (num, den <<< k)
  | .negSucc k => (num <<< (k + 1), den)

/-- The exponent of the last place of the double next to `num / den`, which is not zero. -/
def placeOf (num den : Nat) : Int :=
  let e := Int.ofNat (Nat.log2 num) - Int.ofNat (Nat.log2 den) - 52
  let (n, d) := shiftRatio num den e
  max (if n / d < exponentBit then e - 1 else e) (-1074)

/-- The double nearest to `num / den`, or `none` when that is out of range. -/
def ofRatio? (negative : Bool) (num den : Nat) : Option Double :=
  if num = 0 then some (ofMagnitude negative 0)
  else
    let e := placeOf num den
    let (n, d) := shiftRatio num den e
    let magnitude := (e + 1074).toNat * exponentBit + roundHalfEven n d
    if magnitude < infinity then some (ofMagnitude negative magnitude) else none

def ratio (x : Double) : Nat × Nat := shiftRatio x.significand 1 (-x.scale)

def times? (x y : Double) : Option Double :=
  let (a, b) := x.ratio
  let (c, d) := y.ratio
  ofRatio? (x.negative != y.negative) (a * c) (b * d)

def over? (x y : Double) : Option Double :=
  let (a, b) := x.ratio
  let (c, d) := y.ratio
  ofRatio? (x.negative != y.negative) (a * d) (b * c)

/-- The double nearest to a power of ten; `none` from `10 ^ 309` on. -/
def powerOfTen? (k : Nat) : Option Double :=
  if k ≤ 308 then ofRatio? false (Nat.pow 10 k) 1 else none

/-- Divides by `10 ^ 308`, rounding each time, until the count runs out or zero is reached. -/
def overLargestPower : Nat → Double → Option Double
  | 0, x => some x
  | k + 1, x =>
    if x.isZero then some x
    else do
      let ten ← powerOfTen? 308
      overLargestPower k (← x.over? ten)

/-- Digits and a power of ten as a double. The digits are rounded first and then multiplied or
divided by the power as a double, so the result can differ in the last place from the double
nearest to the decimal. `none` when the number is out of range. -/
def ofDecimal? (negative : Bool) (digits : Nat) (exponent : Int) : Option Double := do
  let x ← ofRatio? negative digits 1
  match exponent with
  | .ofNat k => if x.isZero then some x else x.times? (← powerOfTen? k)
  | .negSucc k => do
    let x ← overLargestPower (k / 308) x
    x.over? (← powerOfTen? (k + 1 - 308 * (k / 308)))

def ofInt? (i : Int) : Option Double := ofRatio? (decide (i < 0)) i.natAbs 1

end Double

end RubyTree
