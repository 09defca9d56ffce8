import Turnstile.Json.Basic
import Turnstile.Json.Printer

/-!
# Canonical order of entries

`canonicalize` puts the entries of every object in ascending order of key and changes nothing else,
so that two values that differ only in the order of entries have one text. Idempotency keys are
digests of this text (specification, section 3, `DedupKey`).
-/

namespace Turnstile.Json

/-- Puts an entry in front of the first one whose key is not smaller. -/
def placeEntry (entry : String × Json) : List (String × Json) → List (String × Json)
  | [] => [entry]
  | e :: rest => if entry.1 ≤ e.1 then entry :: e :: rest else e :: placeEntry entry rest

/-- The entries in ascending order of key, entries of one key in their given order. -/
def orderEntries : List (String × Json) → List (String × Json)
  | [] => []
  | entry :: rest => placeEntry entry (orderEntries rest)

mutual

/-- The value with the entries of every object in ascending order of key. -/
def canonicalize : Json → Json
  | .arr items => .arr (canonicalizeItems items)
  | .obj entries => .obj (orderEntries (canonicalizeEntries entries))
  | other => other

/-- Every element in canonical order. -/
def canonicalizeItems : List Json → List Json
  | [] => []
  | v :: rest => canonicalize v :: canonicalizeItems rest

/-- Every entry's value in canonical order. -/
def canonicalizeEntries : List (String × Json) → List (String × Json)
  | [] => []
  | (k, v) :: rest => (k, canonicalize v) :: canonicalizeEntries rest

end

/-- The text of an array of values in canonical order. -/
def canonicalText (items : List Json) : String := render (canonicalize (.arr items))

end Turnstile.Json
