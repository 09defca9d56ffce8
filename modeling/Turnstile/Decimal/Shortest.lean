import Turnstile.Decimal.Double

/-!
# Shortest decimal text of a double

`Double.shortest` finds the fewest decimal digits that read back to the same double, by testing for
1, 2, … 17 digits the two neighbours of the value on that decimal grid. `DecimalStyle` says how
the digits are laid out; each output format has its own.
-/

namespace Turnstile

/-- `digits * 10 ^ exponent`. -/
structure DecimalDigits where
  digits : Nat
  exponent : Int
deriving DecidableEq, Repr

namespace Double

/-- The reals that round to a positive finite double, and the double itself, over the common
denominator `den`: from `low` to `high`, the ends counted only if `closed`. -/
structure Neighbourhood where
  low : Nat
  value : Nat
  high : Nat
  den : Nat
  closed : Bool

/-- The neighbourhood of a positive finite double. -/
def neighbourhood (x : Double) : Neighbourhood :=
  let (m, e) := x.magnitude
  let up := if 0 ≤ e then Nat.pow 2 e.toNat else 1
  let den := if 0 ≤ e then 4 else 4 * Nat.pow 2 (-e).toNat
  -- Below a power of two the next double is only half as far away.
  let below := if m = Nat.pow 2 52 ∧ -1074 < e then 1 else 2
  { low := (4 * m - below) * up, value := 4 * m * up, high := (4 * m + 2) * up, den := den,
    closed := m % 2 = 0 }

/-- The neighbourhood measured in units of `10 ^ k`. -/
def Neighbourhood.inUnits (n : Neighbourhood) (k : Int) : Neighbourhood :=
  if 0 ≤ k then { n with den := n.den * Nat.pow 10 k.toNat }
  else
    let up := Nat.pow 10 (-k).toNat
    { n with low := n.low * up, value := n.value * up, high := n.high * up }

def Neighbourhood.holds (n : Neighbourhood) (c : Nat) : Bool :=
  if n.closed then n.low ≤ c * n.den && c * n.den ≤ n.high
  else n.low < c * n.den && c * n.den < n.high

/-- The whole number in the neighbourhood that is nearest to the value, of the two around it; a tie
goes to the even one. -/
def Neighbourhood.nearest? (n : Neighbourhood) : Option Nat :=
  let lower := n.value / n.den
  let upper := lower + 1
  let toLower := n.value - lower * n.den
  let toUpper := upper * n.den - n.value
  match n.holds lower, n.holds upper with
  | false, false => none
  | true, false => some lower
  | false, true => some upper
  | true, true =>
    if toLower < toUpper then some lower
    else if toUpper < toLower then some upper
    else if lower % 2 = 0 then some lower else some upper

/-- The exponent of the leading decimal digit of a positive fraction. -/
def leadingExponent (num den : Nat) : Int :=
  let twos : Int := (num.log2 : Int) - (den.log2 : Int)
  let guess := Int.fdiv (twos * 30103) 100000
  let reaches (k : Int) : Bool :=
    if 0 ≤ k then den * Nat.pow 10 k.toNat ≤ num else den ≤ num * Nat.pow 10 (-k).toNat
  if reaches (guess + 1) then guess + 1
  else if reaches guess then guess
  else if reaches (guess - 1) then guess - 1
  else guess - 2

def dropZeros (d : Nat) (e : Int) : Nat → DecimalDigits
  | 0 => ⟨d, e⟩
  | fuel + 1 => if d ≠ 0 ∧ d % 10 = 0 then dropZeros (d / 10) (e + 1) fuel else ⟨d, e⟩

/-- Tries `count` digits, then more, up to the bound. -/
def shortestGo (n : Neighbourhood) (leading : Int) (count : Nat) : Nat → DecimalDigits
  | 0 => ⟨n.value / n.den, 0⟩
  | fuel + 1 =>
    let unit := leading - (count : Int) + 1
    match (n.inUnits unit).nearest? with
    | some d => dropZeros d unit 20
    | none => shortestGo n leading (count + 1) fuel

/-- The fewest digits that read back to the absolute value of a finite double. -/
def shortest (x : Double) : DecimalDigits :=
  if x.isZero then ⟨0, 0⟩
  else
    let n := x.neighbourhood
    shortestGo n (leadingExponent n.value n.den) 1 18

end Double

/-! ### Layout -/

/-- How a decimal number is laid out. -/
structure DecimalStyle where
  /-- The smallest leading exponent written without an exponent. -/
  leastPositional : Int
  /-- The largest leading exponent written without an exponent. -/
  greatestPositional : Int
  /-- What follows a whole number written without an exponent. -/
  wholeTail : String
  /-- The sign of an exponent that is not negative. -/
  plus : String
  notANumber : String
  infinite : String

namespace DecimalStyle

def zeros (count : Nat) : String := String.ofList (List.replicate count '0')

/-- The digits of a finite double in the given layout. -/
def layDigits (style : DecimalStyle) (d : DecimalDigits) : String :=
  let text := toString d.digits
  let count := text.length
  let leading : Int := (count : Int) + d.exponent - 1
  if d.digits = 0 then "0" ++ style.wholeTail
  else if style.leastPositional ≤ leading ∧ leading ≤ style.greatestPositional then
    if 0 ≤ d.exponent then text ++ zeros d.exponent.toNat ++ style.wholeTail
    else if 0 ≤ leading then
      String.ofList (text.toList.take (leading.toNat + 1)) ++ "." ++
        String.ofList (text.toList.drop (leading.toNat + 1))
    else "0." ++ zeros ((-leading).toNat - 1) ++ text
  else
    let first := String.ofList (text.toList.take 1)
    let rest := String.ofList (text.toList.drop 1)
    let mantissa := if rest.isEmpty then first else first ++ "." ++ rest
    let sign := if leading < 0 then "-" else style.plus
    mantissa ++ "e" ++ sign ++ toString leading.natAbs

/-- The text of a double. -/
def render (style : DecimalStyle) (x : Double) : String :=
  if x.isNaN then style.notANumber
  else
    let body := if x.isInfinite then style.infinite else style.layDigits x.shortest
    if x.isNegative then "-" ++ body else body

/-- Without an exponent, and with no tail on whole numbers. -/
def plain : DecimalStyle :=
  { leastPositional := -1000, greatestPositional := 1000, wholeTail := "", plus := "",
    notANumber := "NaN", infinite := "inf" }

/-- Like `plain`, but a whole number keeps one decimal place; very large and very small numbers are
written with an exponent. -/
def marked : DecimalStyle :=
  { leastPositional := -5, greatestPositional := 15, wholeTail := ".0", plus := "",
    notANumber := "NaN", infinite := "inf" }

end DecimalStyle

end Turnstile
