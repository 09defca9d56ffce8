import Turnstile.Json.Basic
import Turnstile.Text.Blank
import Turnstile.Text.Scan

/-!
# Reading INI

`Ini.read?` gives the value of a document of sections with lines `key = value` or `key: value`. All
values are texts. A value may have quoted parts, in which line breaks are kept, and a backslash begins
an escape. A line that begins with `;` or `#` is a comment. Entries before the first section stand at
the top; a section that comes again replaces the earlier one.
-/

namespace Turnstile.Ini

open Text

/-! ### Pieces of text -/

/-- The text that an escape stands for, after the backslash. -/
def escape? : List Char → Option (List Char × List Char)
  | '0' :: r => some ([Char.ofNat 0], r)
  | 'a' :: r => some ([Char.ofNat 7], r)
  | 'b' :: r => some ([Char.ofNat 8], r)
  | 't' :: r => some (['\t'], r)
  | 'r' :: r => some (['\r'], r)
  | 'n' :: r => some (['\n'], r)
  | '\n' :: r => some ([], r)
  | 'x' :: r => do
    guard ((r.take 4).length = 4)
    let n ← natOfBase? 16 (r.take 4)
    if 0xD800 ≤ n ∧ n ≤ 0xDFFF then none else some ([Char.ofNat n], r.drop 4)
  | c :: r => some ([c], r)
  | [] => none

/-- The text up to the first of the given ends that no backslash hides, with escapes resolved. The
rest begins with that end. Without an end the text is refused, or taken to its last character if
`mayEnd`. The fuel bounds the length. -/
def until? (ends : List Char) (mayEnd : Bool) (acc : List Char) (cs : List Char) :
    Nat → Option (List Char × List Char)
  | 0 => none
  | fuel + 1 =>
    match cs with
    | [] => if mayEnd then some (acc.reverse, []) else none
    | c :: r =>
      if ends.contains c then some (acc.reverse, c :: r)
      else if c = '\\' then do
        let (part, rest) ← escape? r
        until? ends mayEnd (part.reverse ++ acc) rest fuel
      else until? ends mayEnd (c :: acc) r fuel

def isLineEnd (c : Char) : Bool := c == '\n' || c == '\r'

/-- The value of an entry, after blanks: quoted parts, then the rest of the line. `isFirst` says
whether nothing has been read of it. -/
def value? (isFirst : Bool) (acc : List Char) (cs : List Char) :
    Nat → Option (List Char × List Char)
  | 0 => none
  | fuel + 1 => do
    match cs with
    | [] => some (acc, [])
    | c :: r =>
      if c = '"' ∨ c = '\'' then do
        let (part, rest) ← until? [c] false [] r (r.length + 1)
        value? false (acc ++ part) (rest.drop 1) fuel
      else do
        let (part, rest) ← until? ['\n', '\r'] true [] cs (cs.length + 1)
        some (acc ++ (if isFirst then trim part else trimEnd part), rest)

/-! ### Documents -/

/-- What has been read of a document. -/
structure Progress where
  /-- The entries before the first section. -/
  top : List (String × Json)
  /-- The sections, the last one first. -/
  sections : List (String × List (String × Json))

def Progress.addEntry (p : Progress) (key : String) (value : Json) : Progress :=
  match p.sections with
  | [] => { p with top := p.top ++ [(key, value)] }
  | (name, entries) :: others => { p with sections := (name, entries ++ [(key, value)]) :: others }

def Progress.addSection (p : Progress) (name : String) : Progress :=
  { p with sections := (name, []) :: p.sections }

/-- The value read: of entries with one key the last one counts. -/
def Progress.toJson (p : Progress) : Json :=
  let part (entries : List (String × Json)) : Json := .obj (Json.sortEntries entries)
  .obj
    (Json.sortEntries
      (p.top ++ p.sections.reverse.map fun (name, entries) => (name, part entries)))

/-- Reads one section header, comment or entry after another. `atStart` says whether the text begins
at the start of a line. -/
def parts? (p : Progress) (atStart : Bool) (cs : List Char) : Nat → Option Progress
  | 0 => none
  | fuel + 1 =>
    let skipped := cs.takeWhile isBlank
    let cs := cs.drop skipped.length
    let atStart := if skipped.isEmpty then atStart else skipped.getLast? = some '\n'
    match cs with
    | [] => some p
    | '[' :: r => do
      let (name, rest) ← until? [']'] false [] r (r.length + 1)
      parts? (p.addSection (String.ofList (trim name))) false (rest.drop 1) fuel
    | c :: r =>
      if c = ';' ∨ c = '#' then
        if atStart then
          parts? p true ((r.dropWhile (· != '\n')).drop 1) fuel
        else none
      else do
        let (key, rest) ← until? ['=', ':'] false [] (c :: r) (r.length + 2)
        let key := trim key
        guard !key.isEmpty
        let rest := (rest.drop 1).dropWhile fun c => isBlank c && !isLineEnd c
        let (v, rest) ← value? true [] rest (rest.length + 1)
        parts? (p.addEntry (String.ofList key) (.str (String.ofList v))) false rest fuel

def read? (text : String) : Option Json :=
  let cs := text.toList
  (parts? { top := [], sections := [] } true cs (cs.length + 1)).map Progress.toJson

end Turnstile.Ini
