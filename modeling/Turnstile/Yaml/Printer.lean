import Turnstile.Decimal.Shortest
import Turnstile.Text.Blank
import Turnstile.Yaml.Scalar

/-!
# YAML text

`Yaml.render` writes a value in block style: mappings and sequences line by line, a sequence inside a
mapping not indented further than its key. A text stands plain where it reads back as itself, in
single quotes where it would read as something else, in double quotes where it has characters that
cannot be shown, and as a literal block where it has line breaks.
-/

namespace Turnstile.Yaml

open Text

/-! ### Which texts may stand plain -/

/-- Numbers are positional from `1e-5` up to below `1e16`. -/
def numberStyle : DecimalStyle :=
  { DecimalStyle.marked with notANumber := ".nan", infinite := ".inf" }

/-- Words for null and for truth values. -/
def reservedWords : List String :=
  [ "", "~", "null", "Null", "NULL", "true", "True", "TRUE", "false", "False", "FALSE", ".inf", ".Inf",
    ".INF", "+.inf", "+.Inf", "+.INF", "-.inf", "-.Inf", "-.INF", ".nan", ".NaN", ".NAN" ]

/-- The text without a sign in front. -/
def unsigned (cs : List Char) : List Char :=
  match cs with
  | '+' :: r => r
  | '-' :: r => r
  | cs => cs

/-- Whether a text is a whole number in base ten, sixteen, eight or two of at most 128 bits. -/
def readsAsWhole (cs : List Char) : Bool :=
  let inBase (base : Nat) (digits : List Char) : Bool :=
    match natOfBase? base digits with
    | some n => !digits.isEmpty && n < Nat.pow 2 128
    | none => false
  match unsigned cs with
  | '0' :: 'x' :: r => inBase 16 r
  | '0' :: 'o' :: r => inBase 8 r
  | '0' :: 'b' :: r => inBase 2 r
  | r => inBase 10 r

def readsAsDecimal (text : String) : Bool := ((Double.read? text).map Double.isFinite).getD false

/-- Whether a text begins with a zero and goes on with digits only. -/
def isPadded (cs : List Char) : Bool :=
  match unsigned cs with
  | '0' :: c :: r => (c :: r).all isDigit
  | _ => false

/-- Whether a text would read as something other than a text. -/
def readsAsOther (text : String) : Bool :=
  let cs := text.toList
  reservedWords.contains text || readsAsWhole cs || isPadded cs || readsAsDecimal text

/-- Characters that a line may show. -/
def isShown (c : Char) : Bool :=
  let n := c.toNat
  n == 10 || (0x20 ≤ n && n ≤ 0x7E) || (0xA0 ≤ n && n ≤ 0xD7FF) || (0xE000 ≤ n && n ≤ 0xFFFD && n != 0xFEFF)

def isBreak (c : Char) : Bool :=
  let n := c.toNat
  n == 10 || n == 13 || n == 0x85 || n == 0x2028 || n == 0x2029

/-- Whether what follows separates words. -/
def blankFollows : List Char → Bool
  | [] => true
  | c :: _ => c == ' ' || c == '\t' || isBreak c

/-- Whether a text begins with a mark of its own. -/
def beginsWithMark : List Char → Bool
  | [] => false
  | c :: r =>
    "#,[]\x7b\x7d&*!|>'\"%@\x60".toList.contains c ||
      ((c == '?' || c == ':' || c == '-') && blankFollows r)

/-- Whether a mark stands inside a text: a colon before a blank, or a blank before a number sign. -/
def holdsMark : List Char → Bool
  | [] => false
  | c :: r =>
    (c == ':' && blankFollows r) || (blankFollows [c] && r.head? == some '#') || holdsMark r

def beginsWithMarker (cs : List Char) : Bool :=
  let start := cs.take 3
  start == ['-', '-', '-'] || start == ['.', '.', '.']

def hasOuterBlank (cs : List Char) : Bool :=
  let isOuter (c : Option Char) : Bool := (c.map fun c => c == ' ' || isBreak c).getD false
  isOuter cs.head? || isOuter cs.getLast?

/-- Whether a text of one line may stand plain. -/
def mayStandPlain (cs : List Char) : Bool :=
  !(hasOuterBlank cs || beginsWithMark cs || holdsMark cs || beginsWithMarker cs || cs.any isBreak)

/-! ### Quotes -/

def upperHex (count n : Nat) : List Char := (hexDigits count n).map Char.toUpper

/-- A character inside double quotes. -/
def doubleQuotedChar (c : Char) : List Char :=
  let n := c.toNat
  if c = '"' then ['\\', '"']
  else if c = '\\' then ['\\', '\\']
  else if isShown c && !isBreak c then [c]
  else if n = 0 then ['\\', '0']
  else if n = 7 then ['\\', 'a']
  else if n = 8 then ['\\', 'b']
  else if n = 9 then ['\\', 't']
  else if n = 10 then ['\\', 'n']
  else if n = 11 then ['\\', 'v']
  else if n = 12 then ['\\', 'f']
  else if n = 13 then ['\\', 'r']
  else if n = 27 then ['\\', 'e']
  else if n = 0x85 then ['\\', 'N']
  else if n = 0x2028 then ['\\', 'L']
  else if n = 0x2029 then ['\\', 'P']
  else if n < 0x100 then '\\' :: 'x' :: upperHex 2 n
  else if n < 0x10000 then '\\' :: 'u' :: upperHex 4 n
  else '\\' :: 'U' :: upperHex 8 n

def doubleQuoted (cs : List Char) : String :=
  "\"" ++ String.ofList (cs.flatMap doubleQuotedChar) ++ "\""

def singleQuoted (cs : List Char) : String :=
  "'" ++ String.ofList (cs.flatMap fun c => if c = '\'' then ['\'', '\''] else [c]) ++ "'"

/-- A text on one line. -/
def inlineText (s : String) : String :=
  let cs := s.toList
  if !cs.all isShown || cs.contains '\n' then doubleQuoted cs
  else if readsAsOther s || !mayStandPlain cs then singleQuoted cs
  else s

/-! ### Literal blocks -/

/-- Whether a text with line breaks may be written as a literal block. -/
def mayBeLiteral (cs : List Char) : Bool :=
  let lines := splitOnChar '\n' cs
  cs.all isShown && cs.getLast? != some ' ' &&
    (lines.dropLast.all fun line => line.getLast? != some ' ')

/-- What follows the bar of a literal block: the indentation if the text begins with a blank, and how
it ends. -/
def literalHints (cs : List Char) : String :=
  let leads := match cs with
    | c :: _ => c == ' ' || c == '\n'
    | [] => false
  let tail := match cs.reverse with
    | '\n' :: '\n' :: _ => "+"
    | ['\n'] => "+"
    | '\n' :: _ => ""
    | _ => "-"
  (if leads then "2" else "") ++ tail

def indentation (depth : Nat) : String := String.ofList (List.replicate (2 * depth) ' ')

/-- A literal block whose lines stand at a depth; empty lines are not indented. -/
def literal (depth : Nat) (cs : List Char) : String :=
  let lines := splitOnChar '\n' cs
  let lines := if cs.getLast? = some '\n' then lines.dropLast else lines
  "|" ++ literalHints cs ++
    String.join (lines.map fun line =>
      "\n" ++ if line.isEmpty then "" else indentation depth ++ String.ofList line)

/-- A text as a value; the lines of a block stand at the given depth. -/
def textValue (depth : Nat) (s : String) : String :=
  let cs := s.toList
  if cs.contains '\n' && mayBeLiteral cs then literal depth cs else inlineText s

/-! ### Values -/

/-- A value that takes no lines of its own. -/
def leaf (depth : Nat) : Json → String
  | .null => "null"
  | .bool b => if b then "true" else "false"
  | .int n => toString n
  | .double x => numberStyle.render x
  | .str s => textValue depth s
  | .arr _ => "[]"
  | .obj _ => "\x7b\x7d"

mutual

/-- The lines of a value whose first line goes on from where it stands; further lines stand at the
given depth. -/
def renderAt (depth : Nat) : Json → String
  | .arr (v :: rest) => renderItems depth (v :: rest)
  | .obj (e :: rest) => renderEntries depth (e :: rest)
  | other => leaf depth other

/-- Elements, each after a dash. -/
def renderItems (depth : Nat) : List Json → String
  | [] => ""
  | [v] => "- " ++ renderAt (depth + 1) v
  | v :: w :: rest =>
    "- " ++ renderAt (depth + 1) v ++ "\n" ++ indentation depth ++ renderItems depth (w :: rest)

/-- Entries, each on lines of its own. -/
def renderEntries (depth : Nat) : List (String × Json) → String
  | [] => ""
  | [(k, v)] => inlineText k ++ ":" ++ renderValue depth v
  | (k, v) :: e :: rest =>
    inlineText k ++ ":" ++ renderValue depth v ++ "\n" ++ indentation depth ++
      renderEntries depth (e :: rest)

/-- The value of an entry, after its colon. -/
def renderValue (depth : Nat) : Json → String
  | .arr (v :: rest) => "\n" ++ indentation depth ++ renderItems depth (v :: rest)
  | .obj (e :: rest) => "\n" ++ indentation (depth + 1) ++ renderEntries (depth + 1) (e :: rest)
  | other => " " ++ leaf (depth + 1) other

end

def render (v : Json) : String := renderAt 0 v ++ "\n"

end Turnstile.Yaml
