import Turnstile.Duplicate.Claim

/-!
# Releasing claims around execution

The policy of a job's kind says whether its claim is given up before its work begins, after the work
has ended, or not at all. The work's outcome passes through unchanged. This is `DeduplicationServer`
(specification, sections 2 and 4.3).
-/

namespace Turnstile.DedupPolicies

variable {m : Type → Type} [Monad m] [MonadStore m] [MonadJournal m]

/-- Gives up a job's claim; a failure is noted and the claim will expire. -/
def release (ps : DedupPolicies) (job : Job) : m Unit := do
  match ← ((Claim.of job (ps.forKind job.kind)).release (m := m)).run with
  | .ok true => note (.keyReleased job.kind job.id)
  | .ok false => pure ()
  | .error f => note (.keyNotReleased job.kind job.id f)

/-- Runs the work of a job and gives up the job's claim where its policy says so. -/
def around (ps : DedupPolicies) (job : Job) (work : m α) : m α := do
  match (ps.forKind job.kind).release with
  | .none => work
  | .untilExecuting =>
    ps.release job
    work
  | .untilExecuted =>
    let result ← work
    ps.release job
    return result

end Turnstile.DedupPolicies
