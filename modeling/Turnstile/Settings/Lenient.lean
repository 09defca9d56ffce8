import Turnstile.Decimal.Reading
import Turnstile.Decimal.Shortest
import Turnstile.Wire.Reading

/-!
# Reading settings leniently

Files and variables often hold a number or a truth value as text, or the other way round.
`Lenient.reading` takes one kind of value for another where that makes sense: words such as `on` for
truth values and numbers, and plain text for all three. Null stands for nothing.
-/

namespace Turnstile.Lenient

def trueWords : List String := ["true", "on", "yes"]

def falseWords : List String := ["false", "off", "no"]

/-- A truth value, a number other than zero, or a word for one. -/
def bool? : Json → Option Bool
  | .bool b => some b
  | .int n => some (n != 0)
  | .double x => some (!x.isZero)
  | .str s =>
    let s := Text.lowerAscii s
    if s == "1" || trueWords.contains s then some true
    else if s == "0" || falseWords.contains s then some false
    else none
  | _ => none

/-- A text, or the plain text of a truth value or a number. -/
def text? : Json → Option String
  | .str s => some s
  | .bool b => some (if b then "true" else "false")
  | .int n => some (toString n)
  | .double x => some (DecimalStyle.plain.render x)
  | _ => none

/-- The nearest whole number that fits in 64 bits; no number gives zero. -/
def nearestWord (x : Double) : Nat :=
  if x.isNaN ∨ x.isNegative then 0
  else if x.isInfinite then Nat.pow 2 64 - 1
  else min x.rounded (Nat.pow 2 64 - 1)

/-- A whole number, or what can be rounded to one or reads as one. -/
def word? (width : Nat) (v : Json) : Option Nat := do
  let n ← match v with
    | .int n => if 0 ≤ n then some n.toNat else none
    | .bool b => some (if b then 1 else 0)
    | .double x => some (nearestWord x)
    | .str s =>
      let word := Text.lowerAscii s
      if trueWords.contains word then some 1
      else if falseWords.contains word then some 0
      else Text.readUnsigned? 64 s
    | _ => none
  if n < Nat.pow 2 width then some n else none

/-- A number, or what reads as one. -/
def double? : Json → Option Double
  | .double x => some x
  | .int n => some (Double.ofInt n)
  | .bool b => some (if b then Double.one else Double.zero false)
  | .str s =>
    let word := Text.lowerAscii s
    if trueWords.contains word then some Double.one
    else if falseWords.contains word then some (Double.zero false)
    else Double.read? s
  | _ => none

def nameAmong? (names : List String) (word : String) : Option String :=
  names.find? fun name => Text.lowerAscii name == Text.lowerAscii word

/-- A choice is a word, or a table with one entry of that name. -/
def choice? (names : List String) : Json → Option String
  | .str word => nameAmong? names word
  | .obj [(word, _)] => nameAmong? names word
  | _ => none

/-- The lenient reading; records are tables only. -/
def reading : Reading Json where
  isNull := Json.isNull
  bool? := bool?
  text? := text?
  word? := word?
  double? := double?
  list? := Json.list?
  table?
    | .obj entries => some (Json.sortEntries entries)
    | _ => none
  choice? := choice?
  fields? names
    | .obj entries =>
      some { present := entries.filter fun e => names.contains e.1, positional := false }
    | _ => none

end Turnstile.Lenient
