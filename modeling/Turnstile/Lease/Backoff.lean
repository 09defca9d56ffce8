import Turnstile.Decimal.Double
import Turnstile.Wire.Reading

/-!
# Waiting between attempts

How long to wait after the attempt with a given number, in milliseconds that fit in 64 bits. The
strategies are those of the specification, section 4.4.
-/

namespace Turnstile

inductive Backoff
  | fixed (delayMs : Nat)
  | linear (initialMs incrementMs maxMs : Nat)
  | exponential (initialMs : Nat) (multiplier : Double) (maxMs : Nat)
  /-- As `exponential`, spread by up to a fraction of the delay to either side. -/
  | jittered (initialMs : Nat) (multiplier : Double) (maxMs : Nat) (factor : Double)
deriving DecidableEq, Inhabited

namespace Backoff

/-- The largest number of milliseconds. -/
def maxWord : Nat := Nat.pow 2 64 - 1

def addCapped (a b : Nat) : Nat := min (a + b) maxWord

def mulCapped (a b : Nat) : Nat := min (a * b) maxWord

/-- The exponent of an attempt: attempts are counted in 32 bits, of which the highest is the sign of
an exponent. -/
def exponentOf (attempt : Nat) : Int := Int.bmod attempt (Nat.pow 2 32)

/-- The growing delay before it is cut off. -/
def grown (initialMs : Nat) (multiplier : Double) (attempt : Nat) : Double :=
  (Double.ofNat initialMs).mul (multiplier.pow (exponentOf attempt))

/-- The milliseconds to wait after an attempt; `jitter` lies between minus one and one. -/
def delayMs (b : Backoff) (attempt : Nat) (jitter : Double) : Nat :=
  match b with
  | fixed delayMs => delayMs
  | linear initialMs incrementMs maxMs =>
    min (addCapped initialMs (mulCapped incrementMs attempt)) maxMs
  | exponential initialMs multiplier maxMs =>
    ((grown initialMs multiplier attempt).minNum (Double.ofNat maxMs)).toWord 64
  | jittered initialMs multiplier maxMs factor =>
    let capped := (grown initialMs multiplier attempt).minNum (Double.ofNat maxMs)
    let spread := jitter.mul (capped.mul factor)
    ((capped.add spread).maxNum (Double.zero false)).toWord 64

/-- The time to wait after an attempt. -/
def delay (b : Backoff) (attempt : Nat) (jitter : Double) : Duration :=
  Duration.ofMillis (b.delayMs attempt jitter)

def default : Backoff := fixed 10

def immediate : Backoff := fixed 0

/-! ### JSON -/

def toJson : Backoff → Json
  | fixed delayMs => .obj [("fixed", .obj [("delay_ms", Json.ofNat delayMs)])]
  | linear initialMs incrementMs maxMs =>
    .obj
      [ ("linear",
          .obj
            [ ("initial_ms", Json.ofNat initialMs), ("increment_ms", Json.ofNat incrementMs),
              ("max_ms", Json.ofNat maxMs) ]) ]
  | exponential initialMs multiplier maxMs =>
    .obj
      [ ("exponential",
          .obj
            [ ("initial_ms", Json.ofNat initialMs), ("multiplier", .double multiplier),
              ("max_ms", Json.ofNat maxMs) ]) ]
  | jittered initialMs multiplier maxMs factor =>
    .obj
      [ ("exponential_with_jitter",
          .obj
            [ ("initial_ms", Json.ofNat initialMs), ("multiplier", .double multiplier),
              ("max_ms", Json.ofNat maxMs), ("jitter_factor", .double factor) ]) ]

def soleEntry? : Json → Option (String × Json)
  | .obj [entry] => some entry
  | _ => none

/-- The reader for JSON. Where `lists` is set, the numbers may also be given as a list. -/
def readJson? (lists : Bool) (v : Json) : Option Backoff := do
  let r := Json.reading
  let (name, body) ← soleEntry? v
  let fields? (names : List String) : Option (Fields Json) := do
    let fs ← r.fields? names body
    if fs.positional && !lists then none else some fs
  match name with
  | "fixed" =>
    let fs ← fields? ["delay_ms"]
    pure (fixed (← fs.required? "delay_ms" (r.word? 64)))
  | "linear" =>
    let fs ← fields? ["initial_ms", "increment_ms", "max_ms"]
    pure
      (linear (← fs.required? "initial_ms" (r.word? 64))
        (← fs.required? "increment_ms" (r.word? 64)) (← fs.required? "max_ms" (r.word? 64)))
  | "exponential" =>
    let fs ← fields? ["initial_ms", "multiplier", "max_ms"]
    pure
      (exponential (← fs.required? "initial_ms" (r.word? 64)) (← fs.required? "multiplier" r.double?)
        (← fs.required? "max_ms" (r.word? 64)))
  | "exponential_with_jitter" =>
    let fs ← fields? ["initial_ms", "multiplier", "max_ms", "jitter_factor"]
    pure
      (jittered (← fs.required? "initial_ms" (r.word? 64)) (← fs.required? "multiplier" r.double?)
        (← fs.required? "max_ms" (r.word? 64)) (← fs.required? "jitter_factor" r.double?))
  | _ => none

/-- The reader of a JSON value: the numbers are given by name. -/
def ofJson? (v : Json) : Option Backoff := readJson? false v

/-- The reader of a JSON document: the numbers are given by name or in order. -/
def ofDocument? (v : Json) : Option Backoff := readJson? true v

end Backoff

end Turnstile
