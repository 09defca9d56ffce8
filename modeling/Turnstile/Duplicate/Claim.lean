import Turnstile.Digest.Sha256
import Turnstile.Duplicate.Policy
import Turnstile.Engine.Effect
import Turnstile.Job.Basic
import Turnstile.Json.Canonical

/-!
# Claims on idempotency keys

Two jobs are equivalent when they have one kind and arguments that differ only in the order of
object entries. Equivalent jobs have one idempotency key; the first to store its id under the key
owns it until the claim expires or is given up. `check` claims the key or finds its owner: this is
`call` in the specification, section 4.3.
-/

namespace Turnstile

/-! ### Keys -/

namespace IdempotencyKey

def preimage (kind : String) (args : List Json) : String := kind ++ ":" ++ Json.canonicalText args

def digest (kind : String) (args : List Json) : String :=
  Digest.Sha256.hexDigest (preimage kind args)

def of (kind : String) (args : List Json) : String := "dedup:" ++ kind ++ ":" ++ digest kind args

end IdempotencyKey

/-! ### Claims -/

/-- A job's claim on its key under a policy. -/
structure Claim where
  job : Job
  policy : DedupPolicy
  key : String

namespace Claim

def of (job : Job) (policy : DedupPolicy) : Claim :=
  { job, policy, key := IdempotencyKey.of job.kind job.args }

def applies (c : Claim) (now : Instant) : Bool :=
  c.policy.isEnabled && (c.policy.includingScheduled || !c.job.isScheduled now)

/-- How long the claim lasts. A job that is scheduled keeps it until it is due and for the base
lifetime after that; there is none if that is longer than any duration. -/
def expiry? (c : Claim) (now : Instant) : Option Duration :=
  match c.job.scheduledAt with
  | none => some c.policy.ttl
  | some due =>
    if c.policy.includingScheduled then (now.timeLeft due).add? c.policy.ttl else some c.policy.ttl

variable {m : Type → Type} [Monad m] [MonadStore m]

/-- Claims the key or reads its owner, as often as `rounds` says: the key may become free between
the two. Answers the owner if that is another job. -/
def checkGo (c : Claim) (ttl : Duration) : (rounds : Nat) → Attempt m (Option String)
  | 0 => pure none
  | rounds + 1 => do
    if ← callStore (.setIfAbsent c.key c.job.id ttl) then return none
    match ← callStore (.get c.key) with
    | some owner => return if owner = c.job.id then none else some owner
    | none => c.checkGo ttl rounds

def check (c : Claim) (ttl : Duration) : Attempt m (Option String) := c.checkGo ttl 2

/-- Gives up the claim; a job that was found to be a duplicate has none. -/
def release (c : Claim) : Attempt m Bool :=
  if c.job.isDuplicate then pure false else callStore (.deleteIfEq c.key c.job.id)

end Claim

end Turnstile
