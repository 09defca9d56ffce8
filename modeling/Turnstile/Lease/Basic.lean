import Turnstile.Engine.Effect
import Turnstile.Text.Quoted

/-!
# Exclusive leases

A lease is a key that holds its holder's token for a limited time. It is taken only when the key is
free, and given up or extended only by the token that holds it, so that a holder who came too late
does not disturb the next one. This is `ExclusiveLease` (specification, section 4.4).
-/

namespace Turnstile

/-- A client's handle on a lease. -/
structure Lease where
  key : String
  /-- What tells this client from others. -/
  token : String
  ttl : Duration
deriving DecidableEq

namespace Lease

variable {m : Type → Type} [Monad m]

def ofToken [MonadJournal m] (key token : String) (ttl : Duration) : Attempt m Lease :=
  if key.isEmpty then raise Fault.emptyLeaseKey else pure { key, token, ttl }

def fresh [MonadJournal m] [MonadFresh m] (key : String) (ttl : Duration) : Attempt m Lease := do
  let token ← (MonadFresh.freshToken : m String)
  ofToken key token ttl

section

variable [MonadStore m]

/-- Takes the lease if it is free; answers the token with which it was taken. -/
def tryObtain (l : Lease) : Attempt m (Option String) := do
  let obtained ← callStore (.setIfAbsent l.key l.token l.ttl)
  return if obtained then some l.token else none

def renew (l : Lease) : Attempt m Bool := callStore (.expireIfEq l.key l.token l.ttl)

def holder (l : Lease) : Attempt m (Option String) := callStore (.get l.key)

def isHeld (l : Lease) : Attempt m Bool := do
  let token ← callStore (.get l.key)
  return token.isSome

/-- The time until the lease is free. -/
def timeLeft (l : Lease) : Attempt m (Option Duration) := callStore (.ttl l.key)

def cancel (key token : String) : Attempt m Bool := callStore (.deleteIfEq key token)

def release (l : Lease) : Attempt m Bool := cancel l.key l.token

end

/-- The handle in logs, without its token. -/
def shown (l : Lease) : String :=
  "ExclusiveLease \x7b key: " ++ Text.quoted l.key ++ ", ttl: " ++ l.ttl.unitText ++ " \x7d"

end Lease

end Turnstile
