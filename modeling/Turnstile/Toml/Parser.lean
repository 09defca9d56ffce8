import Turnstile.Toml.Scalar

/-!
# Reading TOML

`Toml.read?` gives the value of a document: tables as objects, dates as texts. Tables under
construction remember how they came about, since that decides how they may be extended: a table may
get its own header once, and keys with points may not reach into a table that has one.
-/

namespace Turnstile.Toml

/-! ### Tables under construction -/

/-- How a table came about. -/
inductive Origin
  /-- By its own header. -/
  | header
  /-- As part of a longer header. -/
  | implied
  /-- By a key with points. -/
  | dotted
deriving DecidableEq

/-- A value under construction. -/
inductive Tree
  /-- A scalar, an array or a table in braces: nothing can be added to it. -/
  | closed (v : Json)
  | table (origin : Origin) (entries : List (String × Tree))
  /-- Tables under a header in double brackets, the last one first. -/
  | tables (items : List (List (String × Tree)))
deriving Inhabited

abbrev Entries := List (String × Tree)

def find? (name : String) (entries : Entries) : Option Tree :=
  (entries.find? fun e => e.1 == name).map (·.2)

def put (name : String) (tree : Tree) : Entries → Entries
  | [] => [(name, tree)]
  | (n, t) :: rest => if n = name then (n, tree) :: rest else (n, t) :: put name tree rest

/-- Changes the table at a path. Tables that are missing come about as `origin` says; `enter` says
which tables may be entered. -/
def alter? (origin : Origin) (enter : Origin → Bool) (change : Entries → Option Entries) :
    List String → Entries → Option Entries
  | [], entries => change entries
  | name :: path, entries => do
    match find? name entries with
    | none =>
      let inner ← alter? origin enter change path []
      some (put name (.table origin inner) entries)
    | some (.table how inner) =>
      if enter how then
        let inner ← alter? origin enter change path inner
        some (put name (.table how inner) entries)
      else none
    | some (.tables (last :: others)) =>
      let last ← alter? origin enter change path last
      some (put name (.tables (last :: others)) entries)
    | some _ => none

/-- Adds a value under a new name. -/
def add? (name : String) (v : Json) (entries : Entries) : Option Entries :=
  match find? name entries with
  | none => some (put name (.closed v) entries)
  | some _ => none

/-- The last part of a key, and the parts before it. -/
def splitKey : List String → List String × String
  | [] => ([], "")
  | [name] => ([], name)
  | name :: rest =>
    let (path, last) := splitKey rest
    (name :: path, last)

def addKey? (key : List String) (v : Json) (entries : Entries) : Option Entries :=
  let (path, last) := splitKey key
  alter? .dotted (fun how => how != .header) (add? last v) path entries

/-- Begins the table of a header. -/
def openTable? (name : String) (entries : Entries) : Option Entries :=
  match find? name entries with
  | none => some (put name (.table .header []) entries)
  | some (.table .implied inner) => some (put name (.table .header inner) entries)
  | some _ => none

/-- Begins one more table of a header in double brackets. -/
def openItem? (name : String) (entries : Entries) : Option Entries :=
  match find? name entries with
  | none => some (put name (.tables [[]]) entries)
  | some (.tables items) => some (put name (.tables ([] :: items)) entries)
  | some _ => none

mutual

/-- The value that was built. -/
def Tree.toJson : Tree → Json
  | .closed v => v
  | .table _ entries => .obj (entriesToJson entries)
  | .tables items => .arr (itemsToJson items).reverse

def entriesToJson : List (String × Tree) → List (String × Json)
  | [] => []
  | (name, tree) :: rest => (name, tree.toJson) :: entriesToJson rest

def itemsToJson : List (List (String × Tree)) → List Json
  | [] => []
  | entries :: rest => .obj (entriesToJson entries) :: itemsToJson rest

end

/-! ### Values -/

mutual

/-- One value; the fuel bounds the length of the text. -/
def value? (cs : List Char) : Nat → Option (Json × List Char)
  | 0 => none
  | fuel + 1 =>
    match cs with
    | '[' :: r => do
      let (items, rest) ← items? [] r fuel
      some (.arr items, rest)
    | '\x7b' :: r =>
      match skipSpaces r with
      | '\x7d' :: rest => some (.obj [], rest)
      | r => do
        let (entries, rest) ← inline? [] r fuel
        some (.obj (entriesToJson entries), rest)
    | cs => scalar? cs

/-- The elements of an array up to its end. -/
def items? (acc : List Json) (cs : List Char) : Nat → Option (List Json × List Char)
  | 0 => none
  | fuel + 1 => do
    let cs ← skipLines? cs (cs.length + 1)
    match cs with
    | ']' :: r => some (acc.reverse, r)
    | cs => do
      let (v, rest) ← value? cs fuel
      let rest ← skipLines? rest (rest.length + 1)
      match rest with
      | ',' :: r => items? (v :: acc) r fuel
      | ']' :: r => some ((v :: acc).reverse, r)
      | _ => none

/-- The entries of a table in braces up to its end. -/
def inline? (acc : Entries) (cs : List Char) : Nat → Option (Entries × List Char)
  | 0 => none
  | fuel + 1 => do
    let (key, rest) ← key? cs
    match rest with
    | '=' :: r => do
      let (v, rest) ← value? (skipSpaces r) fuel
      let acc ← addKey? key v acc
      match skipSpaces rest with
      | ',' :: r => inline? acc r fuel
      | '\x7d' :: r => some (acc, r)
      | _ => none
    | _ => none

end

/-! ### Documents -/

/-- What has been read of a document. -/
structure Draft where
  root : Entries
  /-- The path of the last header. -/
  current : List String

/-- Tables that a header may pass through. -/
def anyOrigin (_ : Origin) : Bool := true

/-- Reads a header, after its bracket. -/
def header? (d : Draft) (cs : List Char) : Option (Draft × List Char) := do
  let doubled := cs.head? = some '['
  let (key, rest) ← key? (if doubled then cs.drop 1 else cs)
  let rest ← Text.strip? (if doubled then [']', ']'] else [']']) rest
  let (path, last) := splitKey key
  let root ← alter? .implied anyOrigin (if doubled then openItem? last else openTable? last) path d.root
  some ({ root, current := key }, rest)

/-- Reads a key and its value. -/
def entry? (d : Draft) (cs : List Char) : Option (Draft × List Char) := do
  let (key, rest) ← key? cs
  let rest ← Text.strip? ['='] rest
  let (v, rest) ← value? (skipSpaces rest) (2 * rest.length + 2)
  let root ← alter? .implied anyOrigin (addKey? key v) d.current d.root
  some ({ d with root }, rest)

/-- Reads line after line; the fuel bounds their number. -/
def lines? (d : Draft) (cs : List Char) : Nat → Option Draft
  | 0 => none
  | fuel + 1 => do
    let cs ← skipLines? cs (cs.length + 1)
    match cs with
    | [] => some d
    | '[' :: r => do
      let (d, rest) ← header? d r
      lines? d (← endLine? rest) fuel
    | cs => do
      let (d, rest) ← entry? d cs
      lines? d (← endLine? rest) fuel

/-- The value of a document. -/
def read? (text : String) : Option Json := do
  let cs := text.toList
  let cs := if cs.head? = some (Char.ofNat 0xFEFF) then cs.drop 1 else cs
  let d ← lines? { root := [], current := [] } cs (cs.length + 1)
  some (.obj (entriesToJson d.root))

end Turnstile.Toml
