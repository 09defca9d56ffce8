import Turnstile.Json.Basic
import Turnstile.Text.Scan

/-!
# Reading JSON

`read?` accepts one value and blanks around it, and keeps the entries of objects as written. It
refuses more than 127 containers inside each other, lone surrogates in strings, control characters,
and numbers past the largest double.
-/

namespace Turnstile.Json

open Text

/-- The text after blanks. -/
def skipBlanks : List Char → List Char
  | c :: r => if c = ' ' ∨ c = '\t' ∨ c = '\n' ∨ c = '\r' then skipBlanks r else c :: r
  | [] => []

/-! ### Numbers -/

/-- Digits and the rest, at least one digit. -/
def digits? (cs : List Char) : Option (List Char × List Char) :=
  let (digits, rest) := spanDigits cs
  if digits.isEmpty then none else some (digits, rest)

/-- The exponent at the front of the text, if the number has one. -/
def exponent? : List Char → Option (Option Int × List Char)
  | c :: r =>
    if c = 'e' ∨ c = 'E' then
      let (negative, r) := match r with
        | '+' :: r => (false, r)
        | '-' :: r => (true, r)
        | r => (false, r)
      match digits? r with
      | none => none
      | some (digits, rest) =>
        let n := natOfDigits digits
        some (some (if negative then -(n : Int) else (n : Int)), rest)
    else some (none, c :: r)
  | [] => some (none, [])

def fraction? : List Char → Option (Option (List Char) × List Char)
  | '.' :: r => (digits? r).map fun (digits, rest) => (some digits, rest)
  | cs => some (none, cs)

/-- The value of a number: whole numbers keep their kind if they fit, and a negative zero is a
double. -/
def number? (negative : Bool) (whole : List Char) (fraction : Option (List Char))
    (exponent : Option Int) : Option Json :=
  let n := natOfDigits whole
  let asDouble (digits : Nat) (exponent : Int) : Option Json :=
    let x := Double.ofDecimal negative digits exponent
    if x.isFinite then some (.double x) else none
  match fraction, exponent with
  | none, none =>
    if negative then
      if n ≠ 0 ∧ n ≤ Nat.pow 2 63 then some (.int (-(n : Int))) else asDouble n 0
    else if n < Nat.pow 2 64 then some (.int n) else asDouble n 0
  | fraction, exponent =>
    let places := fraction.getD []
    asDouble (natOfDigits (whole ++ places)) (exponent.getD 0 - (places.length : Int))

/-- A number after its sign. -/
def readNumber? (negative : Bool) (cs : List Char) : Option (Json × List Char) := do
  let (whole, rest) ← digits? cs
  guard (whole.head? ≠ some '0' ∨ whole.length = 1)
  let (fraction, rest) ← fraction? rest
  let (exponent, rest) ← exponent? rest
  let v ← number? negative whole fraction exponent
  pure (v, rest)

/-! ### Strings -/

def unit? : List Char → Option (Nat × List Char)
  | a :: b :: c :: d :: r => (natOfBase? 16 [a, b, c, d]).map fun n => (n, r)
  | _ => none

/-- A character written as one 16-bit unit or as a pair of surrogates. -/
def unicodeEscape? (cs : List Char) : Option (Char × List Char) := do
  let (n, rest) ← unit? cs
  if n < 0xD800 ∨ 0xDFFF < n then pure (Char.ofNat n, rest)
  else
    guard (n < 0xDC00)
    match rest with
    | '\\' :: 'u' :: r =>
      let (m, rest) ← unit? r
      guard (0xDC00 ≤ m ∧ m ≤ 0xDFFF)
      pure (Char.ofNat (0x10000 + (n - 0xD800) * 0x400 + (m - 0xDC00)), rest)
    | _ => none

/-- The character that stands for an escape of one letter. -/
def simpleEscape? (c : Char) : Option Char :=
  if c = '"' then some '"'
  else if c = '\\' then some '\\'
  else if c = '/' then some '/'
  else if c = 'b' then some (Char.ofNat 8)
  else if c = 'f' then some (Char.ofNat 12)
  else if c = 'n' then some '\n'
  else if c = 'r' then some '\r'
  else if c = 't' then some '\t'
  else none

/-- The rest of a string up to its closing quote, characters last first; the fuel bounds the length
of the text. -/
def stringGo (acc : List Char) : List Char → Nat → Option (String × List Char)
  | _, 0 => none
  | [], _ => none
  | c :: r, fuel + 1 =>
    if c = '"' then some (String.ofList acc.reverse, r)
    else if c = '\\' then
      match r with
      | 'u' :: r =>
        match unicodeEscape? r with
        | some (d, rest) => stringGo (d :: acc) rest fuel
        | none => none
      | e :: r =>
        match simpleEscape? e with
        | some d => stringGo (d :: acc) r fuel
        | none => none
      | [] => none
    else if c.toNat < 0x20 then none
    else stringGo (c :: acc) r fuel

/-- The string after an opening quote. -/
def readString? (cs : List Char) : Option (String × List Char) := stringGo [] cs (cs.length + 1)

/-! ### Values -/

mutual

/-- One value; `depth` is the number of containers that may still be opened. -/
def value? (fuel depth : Nat) (cs : List Char) : Option (Json × List Char) :=
  match fuel with
  | 0 => none
  | fuel + 1 =>
    match skipBlanks cs with
    | 'n' :: 'u' :: 'l' :: 'l' :: r => some (.null, r)
    | 't' :: 'r' :: 'u' :: 'e' :: r => some (.bool true, r)
    | 'f' :: 'a' :: 'l' :: 's' :: 'e' :: r => some (.bool false, r)
    | '"' :: r => (readString? r).map fun (s, rest) => (.str s, rest)
    | '-' :: r => readNumber? true r
    | '[' :: r =>
      if depth = 0 then none
      else
        match skipBlanks r with
        | ']' :: r => some (.arr [], r)
        | r => (items? fuel (depth - 1) [] r).map fun (items, rest) => (.arr items, rest)
    | '\x7b' :: r =>
      if depth = 0 then none
      else
        match skipBlanks r with
        | '\x7d' :: r => some (.obj [], r)
        | r => (entries? fuel (depth - 1) [] r).map fun (entries, rest) => (.obj entries, rest)
    | cs => readNumber? false cs

/-- The elements of an array up to its end. -/
def items? (fuel depth : Nat) (acc : List Json) (cs : List Char) :
    Option (List Json × List Char) :=
  match fuel with
  | 0 => none
  | fuel + 1 =>
    match value? fuel depth cs with
    | none => none
    | some (v, rest) =>
      match skipBlanks rest with
      | ',' :: r => items? fuel depth (v :: acc) r
      | ']' :: r => some ((v :: acc).reverse, r)
      | _ => none

/-- The entries of an object up to its end. -/
def entries? (fuel depth : Nat) (acc : List (String × Json)) (cs : List Char) :
    Option (List (String × Json) × List Char) :=
  match fuel with
  | 0 => none
  | fuel + 1 =>
    match skipBlanks cs with
    | '"' :: r =>
      match readString? r with
      | none => none
      | some (key, rest) =>
        match skipBlanks rest with
        | ':' :: r =>
          match value? fuel depth r with
          | none => none
          | some (v, rest) =>
            match skipBlanks rest with
            | ',' :: r => entries? fuel depth ((key, v) :: acc) r
            | '\x7d' :: r => some (((key, v) :: acc).reverse, r)
            | _ => none
        | _ => none
    | _ => none

end

/-- The most containers inside each other. -/
def depthLimit : Nat := 127

/-- The document that a text holds, with the entries of objects as written. -/
def readRaw? (text : String) : Option Json :=
  let cs := text.toList
  match value? (2 * cs.length + 2) depthLimit cs with
  | some (v, rest) => if (skipBlanks rest).isEmpty then some v else none
  | none => none

def read? (text : String) : Option Json := (readRaw? text).map normalize

end Turnstile.Json
