import Turnstile.Decimal.Shortest
import Turnstile.Json.Basic
import Turnstile.Text.Scan

/-!
# JSON text

`render` writes a value without spaces; `renderPretty` writes one element or entry a line, indented
by two spaces. Objects are written in the order of their entries.
-/

namespace Turnstile.Json

/-- JSON numbers are positional from `1e-5` up to below `1e16`, and carry a sign in the exponent. -/
def numberStyle : DecimalStyle :=
  { leastPositional := -5, greatestPositional := 15, wholeTail := ".0", plus := "+",
    notANumber := "null", infinite := "null" }

/-- A character inside a string. -/
def escapeChar (c : Char) : List Char :=
  if c = '"' then ['\\', '"']
  else if c = '\\' then ['\\', '\\']
  else if 0x20 ≤ c.toNat then [c]
  else if c = '\n' then ['\\', 'n']
  else if c = '\r' then ['\\', 'r']
  else if c = '\t' then ['\\', 't']
  else if c.toNat = 8 then ['\\', 'b']
  else if c.toNat = 12 then ['\\', 'f']
  else ['\\', 'u'] ++ Text.hexDigits 4 c.toNat

def quote (s : String) : String :=
  "\"" ++ String.ofList (s.toList.flatMap escapeChar) ++ "\""

/-- The text of a number, a word or a string. -/
def renderLeaf : Json → String
  | .null => "null"
  | .bool b => if b then "true" else "false"
  | .int n => toString n
  | .double x => if x.isFinite then numberStyle.render x else "null"
  | .str s => quote s
  | .arr _ => "[]"
  | .obj _ => "\x7b\x7d"

/-! ### Compact text -/

mutual

/-- The text of a value without spaces. -/
def render : Json → String
  | .arr items => "[" ++ renderItems items ++ "]"
  | .obj entries => "\x7b" ++ renderEntries entries ++ "\x7d"
  | other => renderLeaf other

/-- Elements with commas between them. -/
def renderItems : List Json → String
  | [] => ""
  | [v] => render v
  | v :: w :: rest => render v ++ "," ++ renderItems (w :: rest)

/-- Entries with commas between them. -/
def renderEntries : List (String × Json) → String
  | [] => ""
  | [(k, v)] => quote k ++ ":" ++ render v
  | (k, v) :: e :: rest => quote k ++ ":" ++ render v ++ "," ++ renderEntries (e :: rest)

end

/-! ### Indented text -/

def newLine (depth : Nat) : String := "\n" ++ String.ofList (List.replicate (2 * depth) ' ')

mutual

/-- The text of a value at a depth, one element a line. -/
def renderAt (depth : Nat) : Json → String
  | .arr (v :: rest) => "[" ++ renderItemsAt (depth + 1) (v :: rest) ++ newLine depth ++ "]"
  | .obj (e :: rest) =>
    "\x7b" ++ renderEntriesAt (depth + 1) (e :: rest) ++ newLine depth ++ "\x7d"
  | other => renderLeaf other

/-- Elements, each on a line of its own. -/
def renderItemsAt (depth : Nat) : List Json → String
  | [] => ""
  | [v] => newLine depth ++ renderAt depth v
  | v :: w :: rest => newLine depth ++ renderAt depth v ++ "," ++ renderItemsAt depth (w :: rest)

/-- Entries, each on a line of its own. -/
def renderEntriesAt (depth : Nat) : List (String × Json) → String
  | [] => ""
  | [(k, v)] => newLine depth ++ quote k ++ ": " ++ renderAt depth v
  | (k, v) :: e :: rest =>
    newLine depth ++ quote k ++ ": " ++ renderAt depth v ++ "," ++ renderEntriesAt depth (e :: rest)

end

def renderPretty (v : Json) : String := renderAt 0 v

end Turnstile.Json
