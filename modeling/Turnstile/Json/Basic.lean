import Turnstile.Decimal.Double

/-!
# JSON values

Plain recursive syntax. An object is a list of entries in the order in which they are written, so
that a reader can see a repeated key; `normalize` gives the value that a document denotes, with each
key once (the last entry wins) and keys in ascending order.
-/

namespace Turnstile

/-- A JSON value. Whole numbers that fit in 64 bits, signed or unsigned, are kept apart from
doubles. -/
inductive Json where
  | null
  | bool (b : Bool)
  | int (n : Int)
  | double (x : Double)
  | str (s : String)
  | arr (items : List Json)
  | obj (entries : List (String × Json))
deriving Inhabited

namespace Json

/-! ### Entries -/

/-- Puts an entry into entries in ascending order of key, replacing an entry with the same key. -/
def insertEntry (key : String) (value : Json) : List (String × Json) → List (String × Json)
  | [] => [(key, value)]
  | (k, v) :: rest =>
    if key < k then (key, value) :: (k, v) :: rest
    else if key = k then (key, value) :: rest
    else (k, v) :: insertEntry key value rest

/-- The entries in ascending order of key, the last one of each key. -/
def sortEntries (entries : List (String × Json)) : List (String × Json) :=
  entries.foldl (fun acc (k, v) => insertEntry k v acc) []

mutual

/-- The value with the keys of every object unique and in ascending order. -/
def normalize : Json → Json
  | .arr items => .arr (normalizeItems items)
  | .obj entries => .obj (sortEntries (normalizeEntries entries))
  | other => other

/-- Every element normalized. -/
def normalizeItems : List Json → List Json
  | [] => []
  | v :: rest => normalize v :: normalizeItems rest

def normalizeEntries : List (String × Json) → List (String × Json)
  | [] => []
  | (k, v) :: rest => (k, normalize v) :: normalizeEntries rest

end

/-! ### Access -/

/-- The entries of an object; nothing else has any. -/
def entries : Json → List (String × Json)
  | .obj entries => entries
  | _ => []

/-- The last value with the given key. -/
def get? (key : String) (v : Json) : Option Json :=
  (v.entries.reverse.find? fun entry => entry.1 == key).map (·.2)

def text? : Json → Option String
  | .str s => some s
  | _ => none

def bool? : Json → Option Bool
  | .bool b => some b
  | _ => none

def int? : Json → Option Int
  | .int n => some n
  | _ => none

/-- A whole number that is not negative. -/
def nat? : Json → Option Nat
  | .int n => if 0 ≤ n then some n.toNat else none
  | _ => none

/-- A number of either kind as a double. -/
def double? : Json → Option Double
  | .int n => some (Double.ofInt n)
  | .double x => some x
  | _ => none

def list? : Json → Option (List Json)
  | .arr items => some items
  | _ => none

def isNull : Json → Bool
  | .null => true
  | _ => false

/-! ### Construction -/

def ofNat (n : Nat) : Json := .int n

def ofOption (f : α → Json) : Option α → Json
  | none => .null
  | some a => f a

def ofList (f : α → Json) (xs : List α) : Json := .arr (xs.map f)

def ofFields (fields : List (String × Option Json)) : Json :=
  .obj (fields.filterMap fun (k, v) => v.map fun v => (k, v))

end Json

end Turnstile
