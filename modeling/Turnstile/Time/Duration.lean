/-!
# Lengths of time

A duration is a count of nanoseconds. The longest one a program may hold is `Duration.max`: as many
whole seconds as fit in 64 bits, and one nanosecond less than a second more.
-/

namespace Turnstile

/-- A length of time in nanoseconds. -/
structure Duration where
  nanos : Nat
deriving DecidableEq, Inhabited, Repr

namespace Duration

def zero : Duration := ⟨0⟩

/-- The longest duration. -/
def max : Duration := ⟨Nat.pow 2 64 * 1000000000 - 1⟩

def ofSeconds (n : Nat) : Duration := ⟨n * 1000000000⟩

def ofMillis (n : Nat) : Duration := ⟨n * 1000000⟩

def seconds (d : Duration) : Nat := d.nanos / 1000000000

def subsecNanos (d : Duration) : Nat := d.nanos % 1000000000

def millis (d : Duration) : Nat := d.nanos / 1000000

def isZero (d : Duration) : Bool := d.nanos == 0

/-- The sum, unless it is longer than the longest duration. -/
def add? (a b : Duration) : Option Duration :=
  if a.nanos + b.nanos ≤ max.nanos then some ⟨a.nanos + b.nanos⟩ else none

instance : LE Duration := ⟨fun a b => a.nanos ≤ b.nanos⟩

instance : LT Duration := ⟨fun a b => a.nanos < b.nanos⟩

instance (a b : Duration) : Decidable (a ≤ b) := inferInstanceAs (Decidable (a.nanos ≤ b.nanos))

instance (a b : Duration) : Decidable (a < b) := inferInstanceAs (Decidable (a.nanos < b.nanos))

theorem le_def {a b : Duration} : a ≤ b ↔ a.nanos ≤ b.nanos := Iff.rfl

theorem lt_def {a b : Duration} : a < b ↔ a.nanos < b.nanos := Iff.rfl

/-- Seconds and the rest make up the whole. -/
theorem seconds_add_subsecNanos (d : Duration) :
    d.seconds * 1000000000 + d.subsecNanos = d.nanos := by
  simp only [seconds, subsecNanos]
  omega

/-- The duration as hours, minutes and seconds, without leading units that are zero. -/
def clockText (d : Duration) : String :=
  let s := d.seconds
  let (h, m, s) := (s / 3600, s % 3600 / 60, s % 60)
  if h = 0 then
    if m = 0 then s!"{s}s" else s!"{m}m {s}s"
  else s!"{h}h {m}m {s}s"

/-! ### Text with a unit -/

/-- `whole` and a fraction of `scale` parts, without zeros at the end. -/
def fractionText (whole part scale : Nat) : String :=
  let width := (toString scale).length - 1
  let text := toString part
  let digits := List.replicate (width - text.length) '0' ++ text.toList
  let digits := (digits.reverse.dropWhile (· == '0')).reverse
  if digits.isEmpty then toString whole else toString whole ++ "." ++ String.ofList digits

/-- The duration in the largest unit among seconds, milliseconds, microseconds and nanoseconds that
it reaches, exactly. -/
def unitText (d : Duration) : String :=
  if 0 < d.seconds then fractionText d.seconds d.subsecNanos 1000000000 ++ "s"
  else if 1000000 ≤ d.nanos then fractionText (d.nanos / 1000000) (d.nanos % 1000000) 1000000 ++ "ms"
  else if 1000 ≤ d.nanos then fractionText (d.nanos / 1000) (d.nanos % 1000) 1000 ++ "µs"
  else toString d.nanos ++ "ns"

end Duration

end Turnstile
