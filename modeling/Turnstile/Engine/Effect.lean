import Turnstile.Journal.Notice
import Turnstile.Metrics.Series
import Turnstile.Store.Call

/-!
# What the engine asks of its surroundings

The engine is written over any monad that offers a store, a clock, a journal, waiting and fresh
names. An `Attempt` may fail with a fault. A `Task` may also come to a `Halt` by a panic, which
passes through every operation that does not catch it on purpose.
-/

namespace Turnstile

/-! ### Seams -/

/-- Access to the shared store. -/
class MonadStore (m : Type → Type) where
  callStore : (c : StoreCall) → m (Except Fault c.Answer)

/-- Access to the current time. -/
class MonadClock (m : Type → Type) where
  now : m Instant

/-- The journal and the counters. -/
class MonadJournal (m : Type → Type) where
  record : JournalRecord → m Unit
  tally : Tally → m Unit

/-- Waiting. -/
class MonadWait (m : Type → Type) where
  sleep : Duration → m Unit
  /-- A number between minus one and one that spreads out waiting times. -/
  jitter : m Double

/-- Names that were never given out before. -/
class MonadFresh (m : Type → Type) where
  /-- Twenty-four hexadecimal digits. -/
  freshJobId : m String
  /-- A universally unique identifier. -/
  freshToken : m String

export MonadClock (now)

variable {m : Type → Type}

/-! ### Attempts -/

/-- A computation that may fail with a fault. -/
abbrev Attempt (m : Type → Type) := ExceptT Fault m

def callStore [MonadStore m] (c : StoreCall) : Attempt m c.Answer :=
  ExceptT.mk (MonadStore.callStore c)

def note [MonadJournal m] (n : Notice) : m Unit := MonadJournal.record (.notice n)

def tally [MonadJournal m] (t : Tally) : m Unit := MonadJournal.tally t

/-- Fails with a new fault; faults are counted where they arise. -/
def raise [Monad m] [MonadJournal m] (f : Fault) : Attempt m α := do
  tally (m := m) (.fault f.code)
  throw f

/-- Runs an attempt; a fault is passed to `handle`, and the answer is then `fallback`. -/
def Attempt.orNote [Monad m] [MonadJournal m] (x : Attempt m α) (fallback : α)
    (handle : Fault → Notice) : m α := do
  match ← x.run with
  | .ok a => pure a
  | .error f =>
    note (handle f)
    pure fallback

/-! ### Tasks -/

/-- How a task ends when it has no value. -/
inductive Halt
  | fault (f : Fault)
  | panic
deriving Inhabited

/-- A computation that may fail with a fault or by a panic. -/
abbrev Task (m : Type → Type) := ExceptT Halt m

/-- The outcome of an attempt as that of a task. -/
def Halt.ofAttempt : Except Fault α → Except Halt α
  | .ok a => .ok a
  | .error f => .error (.fault f)

instance [Monad m] : MonadLift (ExceptT Fault m) (ExceptT Halt m) where
  monadLift x := ExceptT.mk do return Halt.ofAttempt (← x.run)

end Turnstile
