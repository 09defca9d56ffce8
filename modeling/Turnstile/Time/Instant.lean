import Turnstile.Time.Duration

/-!
# Points in time

An instant is a second on the UTC time line and nanoseconds into it. The nanoseconds reach past
10⁹ only in a leap second, which is the longer last second of a minute. Representable instants lie
between `Instant.first` and `Instant.last`; moving past them fails.

Main definitions: `Instant.deadline?` (when something written now with a time to live is gone),
`Instant.timeLeft` (the time left, zero once it has come) and `Instant.back?` (a cutoff in the past).
-/

namespace Turnstile

/-- A point on the UTC time line. -/
structure Instant where
  /-- Seconds since 1970-01-01T00:00:00Z. -/
  second : Int
  /-- Nanoseconds into the second. -/
  nano : Nat
deriving DecidableEq, Inhabited, Repr

namespace Instant

/-! ### Range -/

/-- The first second that can be represented: the start of the year -262143. -/
def firstSecond : Int := -8334601228800

/-- The last second that can be represented: the end of the year 262142. -/
def lastSecond : Int := 8210266876799

def first : Instant := ⟨firstSecond, 0⟩

def last : Instant := ⟨lastSecond, 999999999⟩

/-- 1970-01-01T00:00:00Z. -/
def epoch : Instant := ⟨0, 0⟩

def isLeap (t : Instant) : Bool := 1000000000 ≤ t.nano

/-- Instants that can be represented and lie in no leap second. -/
def Plain (t : Instant) : Prop :=
  firstSecond ≤ t.second ∧ t.second ≤ lastSecond ∧ t.nano < 1000000000

instance (t : Instant) : Decidable t.Plain := inferInstanceAs (Decidable (_ ∧ _ ∧ _))

/-- Nanoseconds since 1970-01-01T00:00:00Z. -/
def toNanos (t : Instant) : Int := t.second * 1000000000 + t.nano

/-- The instant that many nanoseconds after 1970-01-01T00:00:00Z, if it can be represented. -/
def ofNanos? (n : Int) : Option Instant :=
  let second := n / 1000000000
  if firstSecond ≤ second ∧ second ≤ lastSecond then some ⟨second, (n % 1000000000).toNat⟩ else none

/-! ### Order -/

instance : LE Instant := ⟨fun a b => a.second < b.second ∨ (a.second = b.second ∧ a.nano ≤ b.nano)⟩

instance : LT Instant := ⟨fun a b => a.second < b.second ∨ (a.second = b.second ∧ a.nano < b.nano)⟩

instance (a b : Instant) : Decidable (a ≤ b) :=
  inferInstanceAs (Decidable (a.second < b.second ∨ (a.second = b.second ∧ a.nano ≤ b.nano)))

instance (a b : Instant) : Decidable (a < b) :=
  inferInstanceAs (Decidable (a.second < b.second ∨ (a.second = b.second ∧ a.nano < b.nano)))

theorem le_def {a b : Instant} :
    a ≤ b ↔ a.second < b.second ∨ (a.second = b.second ∧ a.nano ≤ b.nano) := Iff.rfl

theorem lt_def {a b : Instant} :
    a < b ↔ a.second < b.second ∨ (a.second = b.second ∧ a.nano < b.nano) := Iff.rfl

/-! ### Moving -/

/-- The instant `delta` nanoseconds away, if it can be represented. Inside a leap second time runs
on to its end; a move that leaves it forgets that the second was a long one. -/
def shift? (t : Instant) (delta : Int) : Option Instant :=
  if t.isLeap then
    if delta.natAbs < 1000000000 ∧ (t.nano : Int) + delta < 2000000000 then
      some ⟨t.second, ((t.nano : Int) + delta).toNat⟩
    else if 0 < delta then ofNanos? (t.second * 1000000000 + (t.nano : Int) - 1000000000 + delta)
    else ofNanos? (t.second * 1000000000 + (t.nano : Int) + delta)
  else ofNanos? (t.toNanos + delta)

/-- The longest move: as many milliseconds as fit in a signed 64-bit number. -/
def longestMove : Duration := Duration.ofMillis (Nat.pow 2 63 - 1)

def deadline? (t : Instant) (d : Duration) : Option Instant :=
  if d ≤ longestMove then t.shift? d.nanos else none

def back? (t : Instant) (d : Duration) : Option Instant :=
  if d ≤ longestMove then t.shift? (-(d.nanos : Int)) else none

/-- The instant after `d` has passed on a clock that runs at most `longestMove` at once. -/
def advance? (t : Instant) (d : Duration) : Option Instant :=
  t.shift? (if d ≤ longestMove then d.nanos else longestMove.nanos)

/-! ### Differences -/

/-- Nanoseconds from `b` to `a`. Of two seconds of a day, the later one being reached takes in the
leap part of the earlier one. -/
def nanosSince (a b : Instant) : Int :=
  let secondOfDay (t : Instant) : Int := t.second % 86400
  let leap : Int :=
    if secondOfDay b < secondOfDay a then if b.isLeap then 1 else 0
    else if secondOfDay a < secondOfDay b then if a.isLeap then -1 else 0
    else 0
  (a.second - b.second + leap) * 1000000000 + ((a.nano : Int) - (b.nano : Int))

def timeLeft (t later : Instant) : Duration := ⟨(later.nanosSince t).toNat⟩

/-! ### Milliseconds -/

/-- Whole milliseconds since 1970-01-01T00:00:00Z, rounded down. -/
def toMillis (t : Instant) : Int := t.second * 1000 + ((t.nano / 1000000 : Nat) : Int)

/-- The instant that many milliseconds after 1970-01-01T00:00:00Z, if it can be represented. -/
def ofMillis? (n : Int) : Option Instant := ofNanos? (n * 1000000)

end Instant

end Turnstile
