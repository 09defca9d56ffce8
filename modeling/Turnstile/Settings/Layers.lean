import Turnstile.Json.Basic
import Turnstile.Text.Lowercase
import Turnstile.Text.Scan

/-!
# Layers of settings

Settings come in layers, such as a file and the variables over it. Each layer gives values to paths,
and a later layer wins: a table is laid over a table entry by entry, and anything else replaces what
was there. Names are compared in lowercase.
-/

namespace Turnstile.Layers

/-! ### One value over another -/

def put (name : String) (v : Json) : List (String × Json) → List (String × Json)
  | [] => [(name, v)]
  | (n, w) :: rest => if n = name then (n, v) :: rest else (n, w) :: put name v rest

mutual

/-- The table `base` with a value laid over that of a name. What is no table counts as an empty
one. -/
def lay (base : Json) (name : String) : Json → Json
  | .obj entries =>
    let name := Text.lower name
    .obj (put name (layAll ((base.get? name).getD (.obj [])) entries) base.entries)
  | v => .obj (put (Text.lower name) v base.entries)

/-- The value `base` with entries laid over it, one after another. -/
def layAll (base : Json) : List (String × Json) → Json
  | [] => base
  | (name, v) :: rest => layAll (lay base name v) rest

end

/-! ### Paths -/

/-- A step from a value into it. -/
inductive Step
  | entry (name : String)
  | element (index : Nat)
deriving DecidableEq, Repr

/-- The elements with one replaced; missing elements before it are null. -/
def putElement (index : Nat) (v : Json) (items : List Json) : List Json :=
  (items ++ List.replicate (index + 1 - items.length) Json.null).set index v

/-- The value `base` with a value laid over what the path leads to. -/
def layAt (base : Json) (v : Json) : List Step → Json
  | [] => v
  | [.entry name] => lay base name v
  | .entry name :: path =>
    let name := Text.lower name
    .obj (put name (layAt ((base.get? name).getD .null) v path) base.entries)
  | .element index :: path =>
    let items := base.list?.getD []
    .arr (putElement index (layAt (items[index]?.getD .null) v path) items)

/-! ### Reading paths -/

def isNameChar (c : Char) : Bool := c.isAlphanum || c == '_' || c == '-' || c == ' '

/-- The steps of a path after its first name; the fuel bounds their number. -/
def stepsGo (cs : List Char) : Nat → Option (List Step)
  | 0 => none
  | fuel + 1 =>
    match cs with
    | [] => some []
    | '.' :: r => do
      let (name, rest) := r.span isNameChar
      guard !name.isEmpty
      let steps ← stepsGo rest fuel
      some (.entry (String.ofList name) :: steps)
    | '[' :: r => do
      let (inside, rest) := r.span (· != ']')
      let digits := (inside.dropWhile (· == ' ')).reverse.dropWhile (· == ' ') |>.reverse
      guard (!digits.isEmpty && digits.all Text.isDigit)
      let steps ← stepsGo (← Text.strip? [']'] rest) fuel
      some (.element (Text.natOfDigits digits) :: steps)
    | _ => none

/-- The path that a text spells: names with points between them and indexes in brackets. Any other
text is a name. -/
def pathOf (text : String) : List Step :=
  let (name, rest) := text.toList.span isNameChar
  match if name.isEmpty then none else stepsGo rest (rest.length + 1) with
  | some steps => .entry (String.ofList name) :: steps
  | none => [.entry text]

/-- Lays the values of a layer over what the layers before it gave. -/
def add (base : Json) (layer : List (String × Json)) : Json :=
  layer.foldl (fun base (path, v) => layAt base v (pathOf path)) base

end Turnstile.Layers
