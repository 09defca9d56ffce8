import Turnstile.Duplicate.Claim
import Turnstile.Transport.Basic

/-!
# Marking duplicates

Submitted jobs that find their idempotency key owned by another job are marked with its id. They are
delivered all the same, and a failing store leaves them unmarked. This is `DeduplicationClient`, and
around a transport `DeduplicatingTransport` (specification, sections 2 and 4.3).
-/

namespace Turnstile

variable {m : Type → Type} [Monad m] [MonadStore m] [MonadJournal m]

namespace DedupPolicies

/-- Claims a job's key for `ttl`, and marks the job if another one owns it. -/
def markOwned (claim : Claim) (ttl : Duration) : m Job := do
  let job := claim.job
  match ← (claim.check (m := m) ttl).run with
  | .ok none =>
    note (.keyOwned job.kind job.id)
    return job
  | .ok (some owner) =>
    note (.duplicateFound job.kind job.id owner)
    tally (.duplicate job.kind)
    return { job with duplicateOf := some owner }
  | .error f =>
    note (.checkFailed job.kind job.id f)
    return job

variable [MonadClock m]

/-- The job, marked with the owner of its key if that is another job. -/
def mark (ps : DedupPolicies) (job : Job) : Task m Job := do
  let now' ← (now : m Instant)
  let claim := Claim.of job (ps.forKind job.kind)
  if claim.applies now' then
    match claim.expiry? now' with
    | none => throw .panic
    | some ttl => ExceptT.lift (markOwned claim ttl)
  else return job

/-- Marks jobs in order, so that later ones see the claims of earlier ones. -/
def markAll (ps : DedupPolicies) : List Job → Task m (List Job)
  | [] => pure []
  | job :: rest => do
    let job ← ps.mark job
    let rest ← ps.markAll rest
    return job :: rest

end DedupPolicies

/-- The transport that marks duplicates on their way to another transport. -/
def Transport.marking [MonadClock m] (inner : Transport m) (ps : DedupPolicies) : Transport m :=
  { submit := fun job => do inner.submit (← ps.mark job)
    submitBatch := fun jobs => do inner.submitBatch (← ps.markAll jobs)
    submitAt := fun due job => do
      inner.submitAt due (← ps.mark { job with scheduledAt := some due })
    queueSize := inner.queueSize }

end Turnstile
