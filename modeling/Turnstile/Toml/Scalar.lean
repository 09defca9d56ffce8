import Turnstile.Json.Basic
import Turnstile.Text.Scan

/-!
# Keys and scalars of TOML

Readers of single tokens at the front of a text: keys, strings, numbers, truth values and dates. Each
answers what it read and the rest of the text.
-/

namespace Turnstile.Toml

open Text

/-! ### Blanks -/

def isSpace (c : Char) : Bool := c == ' ' || c == '\t'

/-- Whether a character may not stand in a string or a comment. -/
def isControl (c : Char) : Bool := (c.toNat < 0x20 && c != '\t') || c.toNat == 0x7F

def skipSpaces (cs : List Char) : List Char := cs.dropWhile isSpace

/-- A line break at the front of the text. -/
def lineBreak? : List Char → Option (List Char)
  | '\n' :: r => some r
  | '\r' :: '\n' :: r => some r
  | _ => none

/-- The text after a comment, if there is one. -/
def skipComment? : List Char → Option (List Char)
  | '#' :: r =>
    let rest := r.dropWhile fun c => !isControl c
    if rest.isEmpty || (lineBreak? rest).isSome then some rest else none
  | cs => some cs

/-- The text after the rest of a line, which may hold only a comment. -/
def endLine? (cs : List Char) : Option (List Char) := do
  let cs ← skipComment? (skipSpaces cs)
  if cs.isEmpty then some [] else lineBreak? cs

/-- The text after blanks, comments and line breaks; the fuel bounds their number. -/
def skipLines? (cs : List Char) : Nat → Option (List Char)
  | 0 => none
  | fuel + 1 => do
    let cs ← skipComment? (skipSpaces cs)
    match lineBreak? cs with
    | some rest => skipLines? rest fuel
    | none => some cs

/-! ### Strings -/

/-- The character of an escape, after the backslash. -/
def escape? : List Char → Option (Char × List Char)
  | 'b' :: r => some (Char.ofNat 8, r)
  | 't' :: r => some ('\t', r)
  | 'n' :: r => some ('\n', r)
  | 'f' :: r => some (Char.ofNat 12, r)
  | 'r' :: r => some ('\r', r)
  | '"' :: r => some ('"', r)
  | '\\' :: r => some ('\\', r)
  | 'u' :: r => unicode 4 r
  | 'U' :: r => unicode 8 r
  | _ => none
where
  unicode (count : Nat) (r : List Char) : Option (Char × List Char) := do
    guard ((r.take count).length = count)
    let n ← natOfBase? 16 (r.take count)
    if n < 0xD800 ∨ (0xDFFF < n ∧ n < 0x110000) then some (Char.ofNat n, r.drop count) else none

/-- The rest of a string on one line, last character first. -/
def basicGo (acc : List Char) (cs : List Char) : Nat → Option (List Char × List Char)
  | 0 => none
  | fuel + 1 =>
    match cs with
    | '"' :: r => some (acc, r)
    | '\\' :: r => do
      let (c, r) ← escape? r
      basicGo (c :: acc) r fuel
    | c :: r => if isControl c then none else basicGo (c :: acc) r fuel
    | [] => none

/-- The rest of a literal string on one line. -/
def literal? (cs : List Char) : Option (List Char × List Char) :=
  let (body, rest) := cs.span fun c => c != '\'' && !isControl c
  match rest with
  | '\'' :: r => some (body, r)
  | _ => none

/-- The text after a backslash at the end of a line: blanks and line breaks are passed over. -/
def skipFolded (cs : List Char) : List Char :=
  cs.dropWhile fun c => isSpace c || c == '\n' || c == '\r'

/-- The rest of a string over several lines, last character first. Up to two quotes may stand before
the closing ones. -/
def blockGo (quote : Char) (escapes : Bool) (acc : List Char) (cs : List Char) :
    Nat → Option (List Char × List Char)
  | 0 => none
  | fuel + 1 =>
    match cs with
    | [] => none
    | c :: r =>
      if c = quote then
        let quotes := cs.takeWhile (· == quote)
        let count := min quotes.length 5
        if count < 3 then blockGo quote escapes (quotes ++ acc) (cs.drop quotes.length) fuel
        else some (List.replicate (count - 3) quote ++ acc, cs.drop count)
      else if escapes && c == '\\' then
        match lineBreak? (skipSpaces r) with
        | some rest => blockGo quote escapes acc (skipFolded rest) fuel
        | none => do
          let (d, r) ← escape? r
          blockGo quote escapes (d :: acc) r fuel
      else
        match lineBreak? cs with
        | some rest => blockGo quote escapes ('\n' :: acc) rest fuel
        | none => if isControl c then none else blockGo quote escapes (c :: acc) r fuel

/-- A string of several lines, after its opening quotes; a line break right after them is dropped. -/
def block? (quote : Char) (escapes : Bool) (cs : List Char) : Option (String × List Char) := do
  let cs := (lineBreak? cs).getD cs
  let (acc, rest) ← blockGo quote escapes [] cs (cs.length + 1)
  some (String.ofList acc.reverse, rest)

/-- A string on one line, after its opening quote. -/
def basic? (cs : List Char) : Option (String × List Char) := do
  let (acc, rest) ← basicGo [] cs (cs.length + 1)
  some (String.ofList acc.reverse, rest)

/-- A string of any kind. -/
def string? : List Char → Option (String × List Char)
  | '"' :: '"' :: '"' :: r => block? '"' true r
  | '\'' :: '\'' :: '\'' :: r => block? '\'' false r
  | '"' :: r => basic? r
  | '\'' :: r => (literal? r).map fun (body, rest) => (String.ofList body, rest)
  | _ => none

/-! ### Keys -/

def isBareChar (c : Char) : Bool := c.isAlphanum || c == '_' || c == '-'

/-- One part of a key. -/
def keyPart? : List Char → Option (String × List Char)
  | '"' :: r => basic? r
  | '\'' :: r => (literal? r).map fun (body, rest) => (String.ofList body, rest)
  | cs =>
    let (body, rest) := cs.span isBareChar
    if body.isEmpty then none else some (String.ofList body, rest)

/-- A key of parts with points between them; the fuel bounds their number. -/
def keyGo (cs : List Char) : Nat → Option (List String × List Char)
  | 0 => none
  | fuel + 1 => do
    let (part, rest) ← keyPart? (skipSpaces cs)
    match skipSpaces rest with
    | '.' :: r => do
      let (parts, rest) ← keyGo r fuel
      some (part :: parts, rest)
    | rest => some ([part], rest)

def key? (cs : List Char) : Option (List String × List Char) := keyGo cs (cs.length + 1)

/-! ### Numbers -/

/-- Digits with single underscores between them; nothing else may stand among them. -/
def digits? (isValid : Char → Bool) (cs : List Char) : Option (List Char) :=
  let pieces := splitOnChar '_' cs
  if pieces.all fun p => !p.isEmpty && p.all isValid then some pieces.flatten else none

/-- Decimal digits without a leading zero. -/
def decimal? (cs : List Char) : Option (List Char) := do
  let ds ← digits? isDigit cs
  if ds.head? = some '0' ∧ 1 < ds.length then none else some ds

def isHexDigit (c : Char) : Bool := (hexValue? c).isSome

/-- A whole number that fits in 64 bits with its sign. -/
def signed? (negative : Bool) (n : Nat) : Option Json :=
  if negative then if n ≤ Nat.pow 2 63 then some (.int (-(n : Int))) else none
  else if n < Nat.pow 2 63 then some (.int n) else none

def finite? (x : Double) : Option Json := if x.isFinite then some (.double x) else none

/-- The whole part, the digits after the point and the exponent of a number. -/
def float? (negative : Bool) (cs : List Char) : Option Json := do
  let isMark (c : Char) : Bool := c == 'e' || c == 'E'
  let (mantissa, tail) := cs.span fun c => !isMark c
  let exponent ← match tail with
    | [] => some 0
    | _ :: '-' :: r => (digits? isDigit r).map fun ds => -(natOfDigits ds : Int)
    | _ :: '+' :: r => (digits? isDigit r).map fun ds => (natOfDigits ds : Int)
    | _ :: r => (digits? isDigit r).map fun ds => (natOfDigits ds : Int)
  match splitOnChar '.' mantissa with
  | [whole] =>
    guard (!tail.isEmpty)
    let ds ← decimal? whole
    finite? (Double.ofDecimal negative (natOfDigits ds) exponent)
  | [whole, places] =>
    let ds ← decimal? whole
    let ps ← digits? isDigit places
    finite?
      (Double.ofDecimal negative (natOfDigits (ds ++ ps)) (exponent - (ps.length : Int)))
  | _ => none

/-- A number without its sign. -/
def unsignedNumber? (negative : Bool) (cs : List Char) : Option Json :=
  if cs = ['i', 'n', 'f'] then some (.double (Double.infinity negative))
  else if cs = ['n', 'a', 'n'] then some (.double Double.nan)
  else
    match decimal? cs with
    | some ds => signed? negative (natOfDigits ds)
    | none => float? negative cs

/-- A number in another base, after its mark. -/
def based? (base : Nat) (isValid : Char → Bool) (cs : List Char) : Option Json := do
  let ds ← digits? isValid cs
  let n ← natOfBase? base ds
  signed? false n

def number? : List Char → Option Json
  | '0' :: 'x' :: r => based? 16 isHexDigit r
  | '0' :: 'o' :: r => based? 8 (fun c => '0' ≤ c && c ≤ '7') r
  | '0' :: 'b' :: r => based? 2 (fun c => c == '0' || c == '1') r
  | '+' :: r => unsignedNumber? false r
  | '-' :: r => unsignedNumber? true r
  | cs => unsignedNumber? false cs

/-! ### Dates -/

/-- Two digits with a number in a range. -/
def two? (low high : Nat) : List Char → Option (List Char × List Char)
  | a :: b :: r =>
    if isDigit a && isDigit b then
      let n := natOfDigits [a, b]
      if low ≤ n ∧ n ≤ high then some ([a, b], r) else none
    else none
  | _ => none

/-- A date, as text. -/
def date? (cs : List Char) : Option (List Char × List Char) := do
  let year := cs.take 4
  guard (year.length = 4 ∧ year.all isDigit)
  let rest ← strip? ['-'] (cs.drop 4)
  let (month, rest) ← two? 1 12 rest
  let rest ← strip? ['-'] rest
  let (day, rest) ← two? 1 31 rest
  some (year ++ '-' :: month ++ '-' :: day, rest)

/-- A time of day, as text; zeros at the end of its fraction are dropped. -/
def time? (cs : List Char) : Option (List Char × List Char) := do
  let (hour, rest) ← two? 0 23 cs
  let rest ← strip? [':'] rest
  let (minute, rest) ← two? 0 59 rest
  let rest ← strip? [':'] rest
  let (second, rest) ← two? 0 60 rest
  let whole := hour ++ ':' :: minute ++ ':' :: second
  match rest with
  | '.' :: r =>
    let (places, rest) := spanDigits r
    guard (!places.isEmpty)
    let places := ((places.take 9).reverse.dropWhile (· == '0')).reverse
    some (if places.isEmpty then whole else whole ++ '.' :: places, rest)
  | rest => some (whole, rest)

/-- An offset from UTC, as text. -/
def offset? : List Char → Option (List Char × List Char)
  | 'Z' :: r => some (['Z'], r)
  | 'z' :: r => some (['Z'], r)
  | '+' :: r => signedOffset '+' r
  | '-' :: r => signedOffset '-' r
  | cs => some ([], cs)
where
  signedOffset (sign : Char) (r : List Char) : Option (List Char × List Char) := do
    let (hour, rest) ← two? 0 23 r
    let rest ← strip? [':'] rest
    let (minute, rest) ← two? 0 59 rest
    some (sign :: hour ++ ':' :: minute, rest)

/-- A date, a time or both, as text. -/
def moment? (cs : List Char) : Option (String × List Char) :=
  match date? cs with
  | none => (time? cs).map fun (t, rest) => (String.ofList t, rest)
  | some (date, rest) =>
    let timed : Option (List Char × List Char) := match rest with
      | c :: r => if c = 'T' ∨ c = 't' ∨ c = ' ' then time? r else none
      | [] => none
    match timed with
    | none => some (String.ofList date, rest)
    | some (time, rest) =>
      (offset? rest).map fun (offset, rest) =>
        (String.ofList (date ++ 'T' :: time ++ offset), rest)

/-! ### Scalars -/

def endsWord (c : Char) : Bool :=
  isSpace c || c == ',' || c == ']' || c == '\x7d' || c == '#' || c == '\n' || c == '\r'

/-- A scalar that is no string. -/
def word? (cs : List Char) : Option (Json × List Char) :=
  match moment? cs with
  | some (text, rest) =>
    if (rest.head?.map endsWord).getD true then some (.str text, rest) else none
  | none =>
    let (word, rest) := cs.span fun c => !endsWord c
    if word = ['t', 'r', 'u', 'e'] then some (.bool true, rest)
    else if word = ['f', 'a', 'l', 's', 'e'] then some (.bool false, rest)
    else (number? word).map fun n => (n, rest)

/-- A scalar. -/
def scalar? (cs : List Char) : Option (Json × List Char) :=
  match cs with
  | '"' :: _ => (string? cs).map fun (s, rest) => (.str s, rest)
  | '\'' :: _ => (string? cs).map fun (s, rest) => (.str s, rest)
  | _ => word? cs

end Turnstile.Toml
