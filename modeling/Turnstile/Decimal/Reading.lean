import Turnstile.Decimal.Double
import Turnstile.Text.Scan

/-!
# Reading doubles

The free-form decimal notation: an optional sign, then a word for infinity or for no number in
letters of either case, or digits with an optional point among, before or after them and an optional
exponent.
-/

namespace Turnstile.Double

open Text

/-- The exponent of a number: none, or a mark, an optional sign and digits up to the end. -/
def exponentOf? : List Char → Option Int
  | [] => some 0
  | mark :: r =>
    let (negative, digits) := match r with
      | '+' :: r => (false, r)
      | '-' :: r => (true, r)
      | r => (false, r)
    if (mark == 'e' || mark == 'E') && !digits.isEmpty && digits.all isDigit then
      let n : Int := natOfDigits digits
      some (if negative then -n else n)
    else none

/-- Digits, a point and an exponent. -/
def digitsOf? (negative : Bool) (cs : List Char) : Option Double := do
  let (whole, rest) := spanDigits cs
  let (places, rest) := match rest with
    | '.' :: r => spanDigits r
    | r => ([], r)
  guard !(whole.isEmpty && places.isEmpty)
  let exponent ← exponentOf? rest
  some (ofDecimal negative (natOfDigits (whole ++ places)) (exponent - (places.length : Int)))

/-- The double nearest to the number that a text names. -/
def read? (text : String) : Option Double :=
  let (negative, cs) := match text.toList with
    | '+' :: r => (false, r)
    | '-' :: r => (true, r)
    | cs => (false, cs)
  let word := lowerAscii (String.ofList cs)
  if word == "inf" || word == "infinity" then some (infinity negative)
  else if word == "nan" then some nan
  else digitsOf? negative cs

end Turnstile.Double
