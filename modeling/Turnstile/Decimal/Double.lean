/-!
# Double-precision numbers

A double is held by its 64 bits, so that equality is decidable and the value is a plain fraction:
`magnitude` reads the bits as `m * 2 ^ e`. `ofRatio` rounds a fraction to the nearest double, ties
to the even neighbour, in exact integer arithmetic; reading a decimal goes through it.
-/

namespace Turnstile

/-- A double-precision number, by its bits. -/
structure Double where
  bits : UInt64
deriving DecidableEq, Inhabited

namespace Double

/-! ### Parts -/

def isNegative (x : Double) : Bool := Nat.pow 2 63 ≤ x.bits.toNat

/-- The bits without the sign. -/
def unsignedBits (x : Double) : Nat := x.bits.toNat % Nat.pow 2 63

/-- The bits of positive infinity. -/
def infinityBits : Nat := 2047 * Nat.pow 2 52

def isInfinite (x : Double) : Bool := x.unsignedBits == infinityBits

def isNaN (x : Double) : Bool := infinityBits < x.unsignedBits

def isFinite (x : Double) : Bool := x.unsignedBits < infinityBits

def isZero (x : Double) : Bool := x.unsignedBits == 0

/-- The absolute value of a finite double as `m * 2 ^ e`. -/
def magnitude (x : Double) : Nat × Int :=
  let exponent : Nat := x.unsignedBits / Nat.pow 2 52
  let fraction : Nat := x.unsignedBits % Nat.pow 2 52
  if exponent = 0 then (fraction, -1074) else (fraction + Nat.pow 2 52, (exponent : Int) - 1075)

/-! ### Construction -/

def ofParts (negative : Bool) (unsignedBits : Nat) : Double :=
  ⟨UInt64.ofNat (unsignedBits + if negative then Nat.pow 2 63 else 0)⟩

def zero (negative : Bool) : Double := ofParts negative 0

def infinity (negative : Bool) : Double := ofParts negative infinityBits

def nan : Double := ofParts false (infinityBits + Nat.pow 2 51)

/-- `num / den` cut to a whole number, a half going to the even neighbour. -/
def roundHalfEven (num den : Nat) : Nat :=
  let q := num / den
  let r := num % den
  if 2 * r < den then q else if den < 2 * r then q + 1 else if q % 2 = 0 then q else q + 1

/-- The double nearest to `num / den`; what lies past the largest double is infinite. -/
def ofRatio (negative : Bool) (num den : Nat) : Double :=
  if num = 0 ∨ den = 0 then zero negative
  else
    let scale (e : Int) : Nat × Nat :=
      if 0 ≤ e then (num, den * Nat.pow 2 e.toNat) else (num * Nat.pow 2 (-e).toNat, den)
    let guess : Int := max ((num.log2 : Int) - (den.log2 : Int) - 53) (-1074)
    let fits (e : Int) : Bool := (scale e).1 / (scale e).2 < Nat.pow 2 53
    let e := if fits guess then guess else if fits (guess + 1) then guess + 1 else guess + 2
    let q := roundHalfEven (scale e).1 (scale e).2
    let bits := (e + 1074).toNat * Nat.pow 2 52 + q
    if infinityBits ≤ bits then infinity negative else ofParts negative bits

/-- The double nearest to `digits * 10 ^ exponent`. -/
def ofDecimal (negative : Bool) (digits : Nat) (exponent : Int) : Double :=
  if digits = 0 then zero negative
  else
    let size : Int := (digits.log2 * 3 / 10 : Nat) + exponent
    if 400 < size then infinity negative
    else if size < -500 then zero negative
    else if 0 ≤ exponent then ofRatio negative (digits * Nat.pow 10 exponent.toNat) 1
    else ofRatio negative digits (Nat.pow 10 (-exponent).toNat)

def ofInt (n : Int) : Double := ofRatio (n < 0) n.natAbs 1

def ofNat (n : Nat) : Double := ofRatio false n 1

/-! ### Whole parts -/

def truncated (x : Double) : Nat :=
  let (m, e) := x.magnitude
  if 0 ≤ e then m * Nat.pow 2 e.toNat else m / Nat.pow 2 (-e).toNat

def rounded (x : Double) : Nat :=
  let (m, e) := x.magnitude
  if 0 ≤ e then m * Nat.pow 2 e.toNat else (m + Nat.pow 2 ((-e).toNat - 1)) / Nat.pow 2 (-e).toNat

/-- The whole part as an unsigned word of `width` bits: what is below zero or no number gives zero,
what is too large gives the largest word. -/
def toWord (width : Nat) (x : Double) : Nat :=
  if x.isNaN ∨ x.isNegative then 0
  else if x.isInfinite then Nat.pow 2 width - 1
  else min x.truncated (Nat.pow 2 width - 1)

/-- The whole part as a signed 64-bit number, clamped at both ends; no number gives zero. -/
def toSignedWord (x : Double) : Int :=
  if x.isNaN then 0
  else if x.isNegative then
    if x.isInfinite then -(Nat.pow 2 63) else max (-(x.truncated : Int)) (-(Nat.pow 2 63))
  else if x.isInfinite then Nat.pow 2 63 - 1 else min (x.truncated : Int) (Nat.pow 2 63 - 1)

/-! ### Arithmetic -/

def toFloat (x : Double) : Float := Float.ofBits x.bits

def ofFloat (x : Float) : Double := ⟨x.toBits⟩

def mul (x y : Double) : Double := ofFloat (x.toFloat * y.toFloat)

def div (x y : Double) : Double := ofFloat (x.toFloat / y.toFloat)

def add (x y : Double) : Double := ofFloat (x.toFloat + y.toFloat)

def one : Double := ofInt 1

/-- Numeric order: false when either side is no number, and both zeros are equal. -/
def lt (x y : Double) : Bool := x.toFloat < y.toFloat

/-- The smaller of two doubles; if one is no number, the other. -/
def minNum (x y : Double) : Double :=
  if x.isNaN then y else if y.isNaN then x else if lt y x then y else x

/-- The larger of two doubles; if one is no number, the other. -/
def maxNum (x y : Double) : Double :=
  if x.isNaN then y else if y.isNaN then x else if lt x y then y else x

/-- One round of repeated squaring: `exponent` is halved toward zero while the square of the base
is carried along. -/
def powGo (base acc : Double) (exponent : Nat) : Nat → Double
  | 0 => acc
  | fuel + 1 =>
    let acc := if exponent % 2 = 1 then mul acc base else acc
    if exponent / 2 = 0 then acc else powGo (mul base base) acc (exponent / 2) fuel

/-- A whole power by repeated squaring; a negative exponent gives the reciprocal of the power. -/
def pow (base : Double) (exponent : Int) : Double :=
  let r := powGo base one exponent.natAbs 64
  if exponent < 0 then div one r else r

end Double

end Turnstile
