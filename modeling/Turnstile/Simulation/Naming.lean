import Turnstile.Json.Basic
import Turnstile.Simulation.Machine

/-!
# Names for generated ids

Ids that a machine gives out say nothing to a reader. `Naming.name` replaces each by `gen-N`, counted
in the order in which they first appear in a text; `Naming.resolve` puts the ids back.
-/

namespace Turnstile

/-- Generated ids with the names given to them, the first one first. -/
structure Naming where
  names : List (String × String)
deriving Inhabited

namespace Naming

open Text

def empty : Naming := { names := [] }

/-! ### From names to ids -/

/-- A name at the front of the text, and the rest. -/
def nameAt? (cs : List Char) : Option (String × List Char) := do
  let rest ← strip? ['g', 'e', 'n', '-'] cs
  let (digits, rest) := spanDigits rest
  if digits.isEmpty then none else some ("gen-" ++ String.ofList digits, rest)

/-- The id that has a name; a name that was not given stands for itself. -/
def idOf (n : Naming) (name : String) : String :=
  match n.names.find? fun entry => entry.2 == name with
  | some (id, _) => id
  | none => name

/-- The text with ids for names, last character first; the fuel bounds its length. -/
def resolveGo (n : Naming) (acc : List Char) : List Char → Nat → List Char
  | [], _ => acc
  | cs, 0 => cs.reverse ++ acc
  | c :: cs, fuel + 1 =>
    match nameAt? (c :: cs) with
    | none => n.resolveGo (c :: acc) cs fuel
    | some (name, rest) => n.resolveGo ((n.idOf name).toList.reverse ++ acc) rest fuel

def resolveText (n : Naming) (text : String) : String :=
  String.ofList (n.resolveGo [] text.toList text.length).reverse

mutual

/-- The value with ids for names. -/
def resolve (n : Naming) : Json → Json
  | .str s => .str (n.resolveText s)
  | .arr items => .arr (n.resolveItems items)
  | .obj entries => .obj (n.resolveEntries entries)
  | other => other

def resolveItems (n : Naming) : List Json → List Json
  | [] => []
  | v :: rest => n.resolve v :: n.resolveItems rest

def resolveEntries (n : Naming) : List (String × Json) → List (String × Json)
  | [] => []
  | (k, v) :: rest => (k, n.resolve v) :: n.resolveEntries rest

end

/-! ### From ids to names -/

def issuedIds [Machine.Names] (s : Machine) : List String :=
  (List.range s.issued).flatMap fun n => [Machine.jobIdOf n, Machine.tokenOf n]

/-- One of the ids at the front of the text. -/
def idAt? (ids : List String) (cs : List Char) : Option String :=
  let ofLength (count : Nat) : Option String :=
    let text := String.ofList (cs.take count)
    if ids.contains text then some text else none
  match cs with
  | c :: _ =>
    if isDigit c || ('a' ≤ c && c ≤ 'f') then (ofLength 36).or (ofLength 24) else none
  | [] => none

/-- The name of an id; one without a name gets the next. -/
def nameOf (n : Naming) (id : String) : String × Naming :=
  match n.names.find? fun entry => entry.1 == id with
  | some (_, name) => (name, n)
  | none =>
    let name := "gen-" ++ toString (n.names.length + 1)
    (name, { names := n.names ++ [(id, name)] })

/-- The text with names for ids, last character first; the fuel bounds its length. -/
def nameGo (ids : List String) (n : Naming) (acc : List Char) :
    List Char → Nat → List Char × Naming
  | [], _ => (acc, n)
  | cs, 0 => (cs.reverse ++ acc, n)
  | c :: cs, fuel + 1 =>
    match idAt? ids (c :: cs) with
    | none => nameGo ids n (c :: acc) cs fuel
    | some id =>
      let (name, n) := n.nameOf id
      nameGo ids n (name.toList.reverse ++ acc) ((c :: cs).drop id.length) fuel

def nameText (n : Naming) (ids : List String) (text : String) : String × Naming :=
  let (cs, n) := nameGo ids n [] text.toList text.length
  (String.ofList cs.reverse, n)

mutual

/-- The value with names for ids, given in the order of its text. -/
def name (n : Naming) (ids : List String) : Json → Json × Naming
  | .str s =>
    let (s, n) := n.nameText ids s
    (.str s, n)
  | .arr items =>
    let (items, n) := n.nameItems ids items
    (.arr items, n)
  | .obj entries =>
    let (entries, n) := n.nameEntries ids entries
    (.obj entries, n)
  | other => (other, n)

/-- Elements with names for ids. -/
def nameItems (n : Naming) (ids : List String) : List Json → List Json × Naming
  | [] => ([], n)
  | v :: rest =>
    let (v, n) := n.name ids v
    let (rest, n) := n.nameItems ids rest
    (v :: rest, n)

/-- Entries with names for ids. -/
def nameEntries (n : Naming) (ids : List String) :
    List (String × Json) → List (String × Json) × Naming
  | [] => ([], n)
  | (k, v) :: rest =>
    let (k, n) := n.nameText ids k
    let (v, n) := n.name ids v
    let (rest, n) := n.nameEntries ids rest
    ((k, v) :: rest, n)

end

end Naming

end Turnstile
