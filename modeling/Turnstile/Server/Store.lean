import Turnstile.Engine.Effect
import Turnstile.Server.Reply

/-!
# The shared store on a server

A call is sent to a server under a keyspace, and the server's reply is read as its answer. This is
`RedisStore` (specification, sections 2 and 6).
-/

namespace Turnstile.Server

/-- Access to a server: what it replies to a request, unless the connection drops. -/
class MonadServer (m : Type → Type) where
  exchange : Request → m (Option Reply)

variable {m : Type → Type} [Monad m] [MonadServer m] [MonadClock m] [MonadJournal m]

/-- Counts and passes on the outcome of a call. -/
def counted (r : Except Fault α) : Attempt m α :=
  match r with
  | .ok a => pure a
  | .error f => raise f

/-- The answer of a server to a call. -/
def callServer (keyspace : String) (c : StoreCall) : Attempt m c.Answer := do
  let now ← (now : m Instant)
  match Request.ofCall? keyspace now c with
  | none => pure (silentAnswer c)
  | some request =>
    let reply ← (MonadServer.exchange request : m (Option Reply))
    counted (settle c reply)

end Turnstile.Server
