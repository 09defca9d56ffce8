/-!
# Reading digits and splitting text

Small readers over lists of characters, shared by the formats.
-/

namespace Turnstile.Text

/-! ### Digits -/

def isDigit (c : Char) : Bool := '0' ≤ c && c ≤ '9'

def digitValue (c : Char) : Nat := c.toNat - '0'.toNat

def natOfDigits (cs : List Char) : Nat := cs.foldl (fun n c => 10 * n + digitValue c) 0

def spanDigits (cs : List Char) : List Char × List Char := cs.span isDigit

/-- The value of one hexadecimal digit. -/
def hexValue? (c : Char) : Option Nat :=
  if isDigit c then some (digitValue c)
  else if 'a' ≤ c && c ≤ 'f' then some (c.toNat - 'a'.toNat + 10)
  else if 'A' ≤ c && c ≤ 'F' then some (c.toNat - 'A'.toNat + 10)
  else none

/-- The value of a string of digits in the given base, if all are digits of it. -/
def natOfBase? (base : Nat) (cs : List Char) : Option Nat :=
  cs.foldl
    (fun acc c => do
      let n ← acc
      let d ← hexValue? c
      if d < base then some (base * n + d) else none)
    (some 0)

def hexDigit (n : Nat) : Char :=
  if n < 10 then Char.ofNat ('0'.toNat + n) else Char.ofNat ('a'.toNat + (n - 10))

/-- The lowest `count` hexadecimal digits of a number, highest first. -/
def hexDigits (count n : Nat) : List Char :=
  (List.range count).reverse.map fun i => hexDigit (n / Nat.pow 16 i % 16)

/-- Lowercase hexadecimal digits without leading zeros. -/
def hex (n : Nat) : List Char :=
  match (hexDigits 16 n).dropWhile (· == '0') with
  | [] => ['0']
  | cs => cs

/-- A decimal number with at least `width` digits. -/
def padZeros (width n : Nat) : String :=
  let text := toString n
  String.ofList (List.replicate (width - text.length) '0') ++ text

/-! ### Whole numbers -/

/-- An unsigned decimal number of at most `width` bits, with an optional plus sign. -/
def readUnsigned? (width : Nat) (text : String) : Option Nat :=
  let digits := match text.toList with
    | '+' :: r => r
    | cs => cs
  if digits.isEmpty || !digits.all isDigit then none
  else
    let n := natOfDigits digits
    if n < Nat.pow 2 width then some n else none

/-- A signed decimal number of `width` bits, with an optional sign. -/
def readSigned? (width : Nat) (text : String) : Option Int :=
  let (negative, digits) := match text.toList with
    | '+' :: r => (false, r)
    | '-' :: r => (true, r)
    | cs => (false, cs)
  if digits.isEmpty || !digits.all isDigit then none
  else
    let n := natOfDigits digits
    if negative then if n ≤ Nat.pow 2 (width - 1) then some (-(n : Int)) else none
    else if n < Nat.pow 2 (width - 1) then some (n : Int) else none

/-! ### Splitting -/

/-- What is left after `head`, if the text begins with it. -/
def strip? : List Char → List Char → Option (List Char)
  | [], cs => some cs
  | h :: hs, c :: cs => if h = c then strip? hs cs else none
  | _ :: _, [] => none

/-- The pieces between occurrences of a character. -/
def splitOnChar (sep : Char) (cs : List Char) : List (List Char) :=
  let r := cs.foldr
    (fun c (acc : List Char × List (List Char)) =>
      if c = sep then ([], acc.1 :: acc.2) else (c :: acc.1, acc.2))
    ([], [])
  r.1 :: r.2

/-- The text before and after the first occurrence of `sep`. -/
def splitFirst? (sep : List Char) : List Char → Option (List Char × List Char)
  | [] => if sep.isEmpty then some ([], []) else none
  | c :: cs =>
    match strip? sep (c :: cs) with
    | some rest => some ([], rest)
    | none => (splitFirst? sep cs).map fun (a, b) => (c :: a, b)

def lowerAscii (text : String) : String := String.ofList (text.toList.map Char.toLower)

def join (sep : String) (parts : List String) : String := sep.intercalate parts

end Turnstile.Text
