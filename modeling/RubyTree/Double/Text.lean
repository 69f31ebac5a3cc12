import RubyTree.Double.Basic

/-! The text of a double: the fewest digits that read back as the same number, and of those the
nearest. A layout says which numbers are written without an exponent and how an exponent looks. -/

namespace RubyTree

namespace Double

/-- Which of two equally near decimals of the same length is taken. -/
inductive Tie where
  | even
  | up

/-- The reals that round to `x`, as fractions over a common scale of `2 ^ (scale - 2)`: the lower
bound, the number itself and the upper bound. Below a power of two the gap is half as wide. -/
def interval (x : Double) : Nat × Nat × Nat :=
  let m := x.significand
  let below := if m = exponentBit ∧ 1 < x.exponentField then 1 else 2
  (4 * m - below, 4 * m, 4 * m + 2)

/-- A decimal `digits * 10 ^ exponent`. -/
structure Decimal where
  digits : Nat
  exponent : Int

/-- The multiple of `10 ^ e` that reads back as `x`, if there is one. -/
def onGrid? (tie : Tie) (x : Double) (e : Int) : Option Decimal :=
  let (low, mid, high) := x.interval
  -- In units of the grid the number is `a / b`.
  let (a, b) := shiftRatio 1 1 (-(x.scale - 2))
  let (a, b) := match e with
    | .ofNat k => (a, b * Nat.pow 10 k)
    | .negSucc k => (a * Nat.pow 10 (k + 1), b)
  let inside (d : Nat) : Bool :=
    if x.significand % 2 = 0 then decide (low * a ≤ d * b ∧ d * b ≤ high * a)
    else decide (low * a < d * b ∧ d * b < high * a)
  let d := mid * a / b
  let twice := 2 * (mid * a % b)
  let nearest :=
    if twice < b then d
    else if b < twice then d + 1
    else match tie with
      | .even => d + d % 2
      | .up => d + 1
  let other := if nearest = d then d + 1 else d
  if 0 < nearest ∧ inside nearest then some ⟨nearest, e⟩
  else if 0 < other ∧ inside other then some ⟨other, e⟩
  else none

/-- The first hit on the grids from `10 ^ e` downwards. -/
def searchGrid (tie : Tie) (x : Double) : Nat → Int → Decimal
  | 0, e => ⟨0, e⟩
  | fuel + 1, e => (onGrid? tie x e).getD (searchGrid tie x fuel (e - 1))

/-- The fewest digits that read back as `x`, and of those the nearest. The coarsest grid looked at
is above the number, and the seventeenth below its first digit always has a hit. -/
def shortest (tie : Tie) (x : Double) : Decimal :=
  let top := x.scale + Int.ofNat (Nat.log2 x.significand) + 1
  searchGrid tie x 24 (Int.fdiv (top * 30103) 100000 + 2)

/-- How a double is written. A number is plain when the place of its point, counted from the front
of its digits, lies between the two bounds. -/
structure Layout where
  plainFrom : Int
  plainUpTo : Int
  exponentPlus : Bool
  tie : Tie

def zeros (n : Nat) : String := String.ofList (List.replicate n '0')

def plainText (digits : List Char) (point : Int) : String :=
  match point with
  | .negSucc k => "0." ++ zeros (k + 1) ++ String.ofList digits
  | .ofNat 0 => "0." ++ String.ofList digits
  | .ofNat k =>
    if digits.length ≤ k then String.ofList digits ++ zeros (k - digits.length) ++ ".0"
    else String.ofList (digits.take k) ++ "." ++ String.ofList (digits.drop k)

def exponentText (plus : Bool) (digits : List Char) (point : Int) : String :=
  let e := point - 1
  let mark := if 0 ≤ e then (if plus then "+" else "") else "-"
  let fraction := if digits.length ≤ 1 then "" else "." ++ String.ofList (digits.drop 1)
  String.ofList (digits.take 1) ++ fraction ++ "e" ++ mark ++ Nat.repr e.natAbs

def text (layout : Layout) (x : Double) : String :=
  let sign := if x.negative then "-" else ""
  if x.isZero then sign ++ "0.0"
  else
    let decimal := x.shortest layout.tie
    let digits := Nat.toDigits 10 decimal.digits
    let point := Int.ofNat digits.length + decimal.exponent
    if layout.plainFrom ≤ point ∧ point ≤ layout.plainUpTo then sign ++ plainText digits point
    else sign ++ exponentText layout.exponentPlus digits point

end Double

end RubyTree
