import Turnstile.Lease.Lock

/-!
# Bounded loops

`LoopBounds.run` repeats a step until it has no more work, and stops it at a number of steps or when
time is up. A `BatchTask` is such a loop under a lock, so that only one process runs it. These are
`loop_until` and `LeasedBatchTask` (specification, section 4.5).
-/

namespace Turnstile

/-- When a loop is stopped. -/
structure LoopBounds where
  /-- The most steps. -/
  limit : Nat
  /-- The time after which no further step begins. -/
  timeout : Duration
deriving DecidableEq

namespace LoopBounds

/-- A thousand steps within 45 minutes. -/
def default : LoopBounds := { limit := 1000, timeout := Duration.ofSeconds 2700 }

def toJson (b : LoopBounds) : Json :=
  .obj [("limit", Json.ofNat b.limit), ("timeout", Json.ofDuration b.timeout)]

variable {m : Type → Type} [Monad m] [MonadClock m] [MonadJournal m]

/-- The steps of a loop that began at `start`; `done` of them have run. -/
def steps (b : LoopBounds) (start : Instant) (step : Task m Bool) (done : Nat) :
    (left : Nat) → Task m Bool
  | 0 => do
    note (m := m) (.loopLimitReached b.limit)
    return false
  | left + 1 => do
    if ← step then
      let now' ← (now : m Instant)
      if b.timeout ≤ start.timeLeft now' then
        note (m := m) (.loopTimedOut (done + 1) b.timeout)
        return false
      else b.steps start step (done + 1) left
    else
      note (m := m) (.loopFinished (done + 1))
      return true

/-- Repeats a step until it answers that no work is left. Answers whether that was reached. -/
def run (b : LoopBounds) (step : Task m Bool) : Task m Bool := do
  if b.limit = 0 then
    let stop : Attempt m Bool := raise Fault.zeroLoopLimit
    stop
  else
    let start ← (now : m Instant)
    b.steps start step 0 b.limit

end LoopBounds

/-- A bounded loop under a lock. -/
structure BatchTask where
  leaseKey : String
  lock : LockPlan
  bounds : LoopBounds
deriving DecidableEq

namespace BatchTask

/-- A lease of 50 minutes with one retry, which outlasts the loop's 45 minutes. -/
def ofKey (leaseKey : String) : BatchTask :=
  { leaseKey, lock := { LockPlan.default with ttl := Duration.ofSeconds 3000, retries := 1 },
    bounds := LoopBounds.default }

def toJson (t : BatchTask) : Json :=
  .obj
    [ ("lease_key", .str t.leaseKey), ("lock", t.lock.toJson), ("limits", t.bounds.toJson) ]

variable {m : Type → Type} [Monad m] [MonadStore m] [MonadClock m] [MonadJournal m] [MonadWait m]
  [MonadFresh m]

def run (t : BatchTask) (step : Task m Bool) : Task m Bool := do
  let outcome ← t.lock.run t.leaseKey fun _ => (t.bounds.run step).run
  ExceptT.mk (pure outcome)

end BatchTask

end Turnstile
