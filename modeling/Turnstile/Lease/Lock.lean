import Turnstile.Lease.Backoff
import Turnstile.Lease.Basic

/-!
# Work under a lock

`LockPlan.run` takes a lease, waiting between attempts, runs a block while it is held, and gives it
up whatever the block's outcome is. This is `in_lock` (specification, section 4.4).
-/

namespace Turnstile

/-- How a lock is taken. -/
structure LockPlan where
  /-- How long the lease lasts. -/
  ttl : Duration
  /-- How many attempts follow the first one. -/
  retries : Nat
  backoff : Backoff
deriving DecidableEq

namespace LockPlan

/-- A minute's lease with ten retries. -/
def default : LockPlan :=
  { ttl := Duration.ofSeconds 60, retries := 10, backoff := Backoff.default }

def toJson (p : LockPlan) : Json :=
  .obj
    [ ("ttl", Json.ofDuration p.ttl), ("retries", Json.ofNat p.retries),
      ("backoff", p.backoff.toJson) ]

variable {m : Type → Type} [Monad m] [MonadStore m] [MonadJournal m]

/-- Gives up the lease; if that fails, it will expire. -/
def giveUp (lease : Lease) : m Unit := do
  match ← (lease.release (m := m)).run with
  | .ok _ => pure ()
  | .error f => note (.lockNotReleased lease.key f)

variable [MonadWait m]

/-- Tries to take the lease until it is free or no retries are left; `attempt` counts the attempts
that have failed. Answers that count. -/
def acquire (plan : LockPlan) (lease : Lease) (attempt : Nat) : (retries : Nat) → Attempt m Nat
  | 0 => do
    match ← lease.tryObtain with
    | some _ =>
      tally (m := m) (.leaseAttempt .acquired)
      return attempt
    | none =>
      tally (m := m) (.leaseAttempt .exhausted)
      raise (Fault.lockNotAcquired lease.key (attempt + 1))
  | retries + 1 => do
    match ← lease.tryObtain with
    | some _ =>
      tally (m := m) (.leaseAttempt .acquired)
      return attempt
    | none =>
      tally (m := m) (.leaseAttempt .contended)
      let jitter ← (MonadWait.jitter : m Double)
      MonadWait.sleep (m := m) (plan.backoff.delay attempt jitter)
      plan.acquire lease (attempt + 1) retries

/-- Runs a block while holding the lease at a key; the block is told whether it had to wait. The
lease is given up after any outcome of the block. The block is the work that a caller's closure
returns: a panic of the closure before it has returned the work is outside of this. -/
def run [MonadFresh m] (plan : LockPlan) (key : String) (block : Bool → m α) : Attempt m α := do
  let lease ← Lease.fresh key plan.ttl
  let attempts ← plan.acquire lease 0 plan.retries
  let retried := decide (0 < attempts)
  note (m := m) (.lockObtained key retried)
  let result ← block retried
  giveUp (m := m) lease
  return result

end LockPlan

end Turnstile
