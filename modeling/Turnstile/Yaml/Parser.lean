import Turnstile.Yaml.Scalar

/-!
# Reading YAML

`Yaml.read?` gives the value of a text that holds at most one document: nested block mappings and
sequences, flow mappings and sequences, words and quoted texts. A text without a document stands for
the empty mapping. Tags, anchors and block scalars are refused.

Block structure is read off the leading blanks of lines: what follows a mark such as `-` on its line
is read as if blanks stood in the place of the mark.
-/

namespace Turnstile.Yaml

/-! ### Lines -/

/-- The rest of the line, and the text after it. -/
def splitLine (cs : List Char) : List Char × List Char :=
  let line := cs.takeWhile (· != '\n')
  (line, (cs.drop line.length).drop 1)

/-- Whether nothing but blanks and a comment is left of a line. -/
def isBare (line : List Char) : Bool :=
  match line.dropWhile fun c => isSpace c || c == '\r' with
  | [] => true
  | c :: _ => c == '#'

/-- The text from the first line on that holds more than a comment; the fuel bounds the lines. -/
def skipBareGo (cs : List Char) : Nat → List Char
  | 0 => cs
  | fuel + 1 =>
    let (line, rest) := splitLine cs
    if isBare line && !cs.isEmpty then skipBareGo rest fuel else cs

def skipBare (cs : List Char) : List Char := skipBareGo cs (cs.length + 1)

def indentOf (cs : List Char) : Nat := (cs.takeWhile (· == ' ')).length

def shifted (count : Nat) (cs : List Char) : List Char := List.replicate count ' ' ++ cs

/-- Whether a mark such as `-` stands by itself here, given the text after it. -/
def standsAlone : List Char → Bool
  | [] => true
  | c :: _ => isSpace c || c == '\n' || c == '\r'

/-- Whether a sequence's element begins here. -/
def isItem : List Char → Bool
  | '-' :: r => standsAlone r
  | _ => false

/-- The text after the rest of a line that may hold only a comment. -/
def endLine? (cs : List Char) : Option (List Char) :=
  let (line, rest) := splitLine cs
  let atComment := match line with
    | c :: _ => c == '#'
    | [] => false
  if isBare line && !atComment then some rest else none

/-- Whether a line marks the start or the end of a document. -/
def isMarker (mark : List Char) (line : List Char) : Bool :=
  match Text.strip? mark line with
  | some rest => standsAlone rest
  | none => false

def startMark : List Char := ['-', '-', '-']

def endMark : List Char := ['.', '.', '.']

def endsBlock (indent : Nat) (cs : List Char) : Bool :=
  cs.isEmpty || indentOf cs < indent || isMarker startMark cs || isMarker endMark cs

/-! ### Words -/

/-- Characters that no word begins with. -/
def isIndicator (c : Char) : Bool := ",[]\x7b\x7d#&*!|>'\"%@\x60".toList.contains c

/-- Whether a word may begin here. -/
def beginsWord : List Char → Bool
  | [] => false
  | c :: r => if c == '-' || c == '?' || c == ':' then !standsAlone r else !isIndicator c

/-- The characters of a word up to a colon or a comment that ends it, or up to the line's end; inside
a flow collection also up to its marks. The last character comes first. -/
def wordGo (flow : Bool) (acc : List Char) : List Char → List Char × List Char
  | [] => (acc, [])
  | c :: r =>
    let ends := c == '\n'
      || (c == ':' && (standsAlone r || (flow && (r.head?.map ",[]\x7b\x7d".toList.contains).getD false)))
      || (c == '#' && (acc.head?.map isSpace).getD false)
      || (flow && ",[]\x7b\x7d".toList.contains c)
    if ends then (acc, c :: r) else wordGo flow (c :: acc) r

/-- A word without the blanks at its end, and the rest of the text. -/
def word (flow : Bool) (cs : List Char) : List Char × List Char :=
  let (acc, rest) := wordGo flow [] cs
  ((acc.dropWhile fun c => isSpace c || c == '\r').reverse, rest)

/-- A name in front of a text: quoted, or a word. -/
def name? (flow : Bool) (cs : List Char) : Option (String × List Char) :=
  match cs with
  | '"' :: _ => quoted? cs
  | '\'' :: _ => quoted? cs
  | _ => do
    guard (beginsWord cs)
    let (w, rest) := word flow cs
    let name ← keyWord? (String.ofList w)
    some (name, rest)

/-- A key of a block mapping and the text after its colon. -/
def key? (cs : List Char) : Option (String × List Char) := do
  let (name, rest) ← name? false cs
  match rest.dropWhile isSpace with
  | ':' :: r => if standsAlone r then some (name, r) else none
  | _ => none

/-! ### Flow collections -/

/-- Whether an entry of a flow mapping ends here. -/
def endsEntry : List Char → Bool
  | c :: _ => c == ',' || c == '\x7d'
  | [] => true

/-- The text after blanks, line breaks and comments. -/
def skipFlow (cs : List Char) : List Char :=
  let cs := skipBare cs
  cs.dropWhile fun c => isSpace c || c == '\n' || c == '\r'

mutual

/-- A value inside a flow collection. -/
def flow? (cs : List Char) : Nat → Option (Json × List Char)
  | 0 => none
  | fuel + 1 =>
    match cs with
    | '[' :: r => flowItems? [] (skipFlow r) fuel
    | '\x7b' :: r => flowEntries? [] (skipFlow r) fuel
    | '"' :: _ => (quoted? cs).map fun (s, rest) => (.str s, rest)
    | '\'' :: _ => (quoted? cs).map fun (s, rest) => (.str s, rest)
    | cs => do
      guard (beginsWord cs)
      let (w, rest) := word true cs
      let v ← word? (String.ofList w)
      some (v, rest)

/-- The elements of a flow sequence up to its end. -/
def flowItems? (acc : List Json) (cs : List Char) : Nat → Option (Json × List Char)
  | 0 => none
  | fuel + 1 =>
    match cs with
    | ']' :: r => some (.arr acc.reverse, r)
    | cs => do
      let (v, rest) ← flow? cs fuel
      match skipFlow rest with
      | ',' :: r => flowItems? (v :: acc) (skipFlow r) fuel
      | ']' :: r => some (.arr (v :: acc).reverse, r)
      | _ => none

/-- The entries of a flow mapping up to its end. -/
def flowEntries? (acc : List (String × Json)) (cs : List Char) : Nat → Option (Json × List Char)
  | 0 => none
  | fuel + 1 =>
    match cs with
    | '\x7d' :: r => some (.obj acc.reverse, r)
    | cs => do
      let (name, rest) ← name? true cs
      let (v, rest) ← match skipFlow rest with
        | ':' :: r =>
          let r := skipFlow r
          if endsEntry r then some (Json.null, r) else flow? r fuel
        | r => some (Json.null, r)
      match skipFlow rest with
      | ',' :: r => flowEntries? ((name, v) :: acc) (skipFlow r) fuel
      | '\x7d' :: r => some (.obj ((name, v) :: acc).reverse, r)
      | _ => none

end

/-! ### Blocks -/

/-- The words that continue a word on the next lines, while these are indented by at least `least`.
The last character comes first. -/
def continued? (least : Nat) (acc : List Char) (cs : List Char) : Nat → Option (List Char × List Char)
  | 0 => none
  | fuel + 1 =>
    let (line, _) := splitLine cs
    let blanks := (cs.takeWhile isSpace).length
    if isBare line || blanks < least || blanks = 0 then some (acc, cs)
    else do
      let (w, rest) := word false (cs.drop blanks)
      let rest ← endLine? (' ' :: rest)
      continued? least (w.reverse ++ ' ' :: acc) rest fuel

/-- A value that begins on the current line and is neither a block mapping nor a block sequence. -/
def inline? (least : Nat) (cs : List Char) (fuel : Nat) : Option (Json × List Char) := do
  match cs with
  | c :: _ =>
    if c = '[' ∨ c = '\x7b' ∨ c = '"' ∨ c = '\'' then do
      let (v, rest) ← flow? cs fuel
      some (v, ← endLine? rest)
    else do
      guard (beginsWord cs)
      let (w, rest) := word false cs
      let rest ← endLine? (' ' :: rest)
      let (acc, rest) ← continued? least w.reverse rest fuel
      let v ← word? (String.ofList acc.reverse)
      some (v, rest)
  | [] => none

mutual

/-- The value of the lines that follow, as far as they are indented by at least `least`. -/
def block? (least : Nat) (cs : List Char) : Nat → Option (Json × List Char)
  | 0 => none
  | fuel + 1 =>
    let cs := skipBare cs
    let indent := indentOf cs
    let body := cs.drop indent
    if endsBlock least cs then some (.null, cs)
    else if isItem body then sequence? indent [] cs fuel
    else if (key? body).isSome then mapping? indent [] cs fuel
    else inline? least body fuel

/-- The elements of a sequence whose marks are indented by `indent`. -/
def sequence? (indent : Nat) (acc : List Json) (cs : List Char) : Nat → Option (Json × List Char)
  | 0 => none
  | fuel + 1 =>
    let cs := skipBare cs
    let body := cs.drop (indentOf cs)
    if endsBlock indent cs || !isItem body then some (.arr acc.reverse, cs)
    else if indent < indentOf cs then none
    else do
      let (v, rest) ← block? (indent + 1) (shifted (indent + 1) (body.drop 1)) fuel
      sequence? indent (v :: acc) rest fuel

/-- The entries of a mapping whose keys are indented by `indent`. -/
def mapping? (indent : Nat) (acc : List (String × Json)) (cs : List Char) :
    Nat → Option (Json × List Char)
  | 0 => none
  | fuel + 1 =>
    let cs := skipBare cs
    if endsBlock indent cs then some (.obj acc.reverse, cs)
    else if indent < indentOf cs then none
    else do
      let (name, rest) ← key? (cs.drop indent)
      let (line, below) := splitLine rest
      let (v, rest) ←
        if isBare line then
          let below := skipBare below
          if indentOf below = indent && isItem (below.drop indent) then
            sequence? indent [] below fuel
          else block? (indent + 1) below fuel
        else inline? (indent + 1) (rest.dropWhile isSpace) fuel
      mapping? indent ((name, v) :: acc) rest fuel

end

/-! ### Documents -/

/-- The text after the marker of a document's start, and whether there is one. -/
def openDocument (cs : List Char) : List Char × Bool :=
  let cs := skipBare cs
  if isMarker startMark cs then (shifted 3 (cs.drop 3), true) else (cs, false)

/-- Whether nothing but the marker of a document's end follows. -/
def isOver (cs : List Char) : Bool :=
  let cs := skipBare cs
  let rest := if isMarker endMark cs then skipBare (splitLine cs).2 else cs
  rest.isEmpty

/-- The value of a text with at most one document. -/
def read? (text : String) : Option Json := do
  let cs := text.toList
  let cs := if cs.head? = some (Char.ofNat 0xFEFF) then cs.drop 1 else cs
  let (cs, isMarked) := openDocument cs
  if (skipBare cs).isEmpty && !isMarked then some (.obj [])
  else do
    let (v, rest) ← block? 0 cs (4 * cs.length + 4)
    if isOver rest then some v.normalize else none

end Turnstile.Yaml
