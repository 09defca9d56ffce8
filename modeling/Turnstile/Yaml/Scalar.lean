import Turnstile.Decimal.Reading
import Turnstile.Json.Basic
import Turnstile.Text.Blank

/-!
# Scalars of YAML

What an unquoted word stands for, and the readers of quoted text. A line break inside quotes stands
for a blank, or for the empty lines after it.
-/

namespace Turnstile.Yaml

open Text

/-! ### Words -/

/-- Words for infinity and for no number. -/
def specialNumbers : List String :=
  [ ".inf", ".Inf", ".INF", "+.inf", "+.Inf", "+.INF", "-.inf", "-.Inf", "-.INF", ".nan", ".NAN" ]

/-- A whole number in another base that fits in 64 bits with a sign. -/
def based? (base : Nat) (digits : List Char) : Option Json := do
  guard !digits.isEmpty
  let n ← natOfBase? base digits
  if n < Nat.pow 2 63 then some (.int n) else none

/-- The number that a word is in base sixteen, in base eight, or after a plus sign. -/
def marked? : List Char → Option Json
  | '0' :: 'x' :: r => based? 16 r
  | '0' :: 'o' :: r => based? 8 r
  | '+' :: r => (readSigned? 64 (String.ofList r)).map .int
  | _ => none

/-- What an unquoted word stands for. The special numbers stand for nothing. -/
def word? (word : String) : Option Json :=
  match marked? word.toList with
  | some v => some v
  | none =>
    if word == "~" || word == "null" then some .null
    else if word == "true" then some (.bool true)
    else if word == "false" then some (.bool false)
    else if specialNumbers.contains word then none
    else
      match readSigned? 64 word with
      | some n => some (.int n)
      | none =>
        match Double.read? word with
        | some x => some (.double x)
        | none => some (.str word)

/-- What an unquoted word stands for as a key: nothing, if it stands for null. -/
def keyWord? (word : String) : Option String := do
  match ← marked? word.toList |>.or (word? word) with
  | .null => none
  | .bool b => some (if b then "true" else "false")
  | .int n => some (toString n)
  | _ => some word

/-! ### Quotes -/

def isSpace (c : Char) : Bool := c == ' ' || c == '\t'

/-- What the line breaks in front of a text stand for, last character first, and the text after them
and the blanks around them. -/
def fold (cs : List Char) : List Char × List Char :=
  let blank := cs.takeWhile fun c => isSpace c || c == '\n' || c == '\r'
  let count := blank.count '\n'
  (if count ≤ 1 then [' '] else List.replicate (count - 1) '\n', cs.drop blank.length)

/-- A character by the digits of its number. -/
def numbered? (count : Nat) (r : List Char) : Option (List Char × List Char) := do
  guard ((r.take count).length = count)
  let n ← natOfBase? 16 (r.take count)
  if n < 0xD800 ∨ (0xDFFF < n ∧ n < 0x110000) then some ([Char.ofNat n], r.drop count) else none

/-- The characters of an escape, after the backslash. -/
def escape? : List Char → Option (List Char × List Char)
  | '0' :: r => some ([Char.ofNat 0], r)
  | 'a' :: r => some ([Char.ofNat 7], r)
  | 'b' :: r => some ([Char.ofNat 8], r)
  | 't' :: r => some (['\t'], r)
  | '\t' :: r => some (['\t'], r)
  | 'n' :: r => some (['\n'], r)
  | 'v' :: r => some ([Char.ofNat 11], r)
  | 'f' :: r => some ([Char.ofNat 12], r)
  | 'r' :: r => some (['\r'], r)
  | 'e' :: r => some ([Char.ofNat 27], r)
  | ' ' :: r => some ([' '], r)
  | '"' :: r => some (['"'], r)
  | '/' :: r => some (['/'], r)
  | '\\' :: r => some (['\\'], r)
  | 'N' :: r => some ([Char.ofNat 0x85], r)
  | '_' :: r => some ([Char.ofNat 0xA0], r)
  | 'L' :: r => some ([Char.ofNat 0x2028], r)
  | 'P' :: r => some ([Char.ofNat 0x2029], r)
  | 'x' :: r => numbered? 2 r
  | 'u' :: r => numbered? 4 r
  | 'U' :: r => numbered? 8 r
  | '\n' :: r => some ([], r.dropWhile isSpace)
  | _ => none

/-- The rest of a text in double quotes, last character first. -/
def doubleGo (acc : List Char) (cs : List Char) : Nat → Option (List Char × List Char)
  | 0 => none
  | fuel + 1 =>
    match cs with
    | [] => none
    | '"' :: r => some (acc, r)
    | '\\' :: r => do
      let (part, rest) ← escape? r
      doubleGo (part ++ acc) rest fuel
    | '\n' :: _ =>
      let (part, rest) := fold cs
      doubleGo (part ++ acc.dropWhile isSpace) rest fuel
    | c :: r => doubleGo (c :: acc) r fuel

/-- The rest of a text in single quotes, last character first. A quote inside is written twice. -/
def singleGo (acc : List Char) (cs : List Char) : Nat → Option (List Char × List Char)
  | 0 => none
  | fuel + 1 =>
    match cs with
    | [] => none
    | '\'' :: '\'' :: r => singleGo ('\'' :: acc) r fuel
    | '\'' :: r => some (acc, r)
    | '\n' :: _ =>
      let (part, rest) := fold cs
      singleGo (part ++ acc.dropWhile isSpace) rest fuel
    | c :: r => singleGo (c :: acc) r fuel

/-- A text in quotes of either kind. -/
def quoted? : List Char → Option (String × List Char)
  | '"' :: r => (doubleGo [] r (r.length + 1)).map fun (s, rest) => (String.ofList s.reverse, rest)
  | '\'' :: r => (singleGo [] r (r.length + 1)).map fun (s, rest) => (String.ofList s.reverse, rest)
  | _ => none

end Turnstile.Yaml
