import Turnstile.Console.Command
import Turnstile.Console.Table
import Turnstile.Duplicate.Claim
import Turnstile.Json.Parser
import Turnstile.Lease.Basic
import Turnstile.Settings.Basic
import Turnstile.Yaml.Printer

/-!
# Running commands of the console

A command runs against the store and prints as it goes. What it has printed stays even if it then
fails.
-/

namespace Turnstile.Console

/-- What has been printed, on the two streams. -/
structure Printed where
  out : String
  err : String
deriving Inhabited

/-- Why a command failed. -/
inductive Trouble
  | fault (f : Fault)
  /-- A message, and the fault that led to it. -/
  | message (text : String) (cause : Option Fault)
deriving Inhabited

/-- The message, followed by what led to it. -/
def Trouble.text : Trouble → String
  | fault f => f.display
  | message text none => text
  | message text (some f) => text ++ ": " ++ f.display

variable {m : Type → Type}

/-- A computation that prints and may fail. -/
abbrev Session (m : Type → Type) := ExceptT Trouble (StateT Printed m)

namespace Session

variable [Monad m]

def perform (s : Session m Unit) : m (Except Trouble Unit × Printed) :=
  s.run.run { out := "", err := "" }

def line (text : String) : Session m Unit :=
  modify fun p => { p with out := p.out ++ text ++ "\n" }

def raw (text : String) : Session m Unit := modify fun p => { p with out := p.out ++ text }

def errorLine (text : String) : Session m Unit :=
  modify fun p => { p with err := p.err ++ text ++ "\n" }

def success (text : String) : Session m Unit := line ("[OK] " ++ text)

def info (text : String) : Session m Unit := line ("[INFO] " ++ text)

def warning (text : String) : Session m Unit := errorLine ("[WARN] " ++ text)

def header (title : String) : Session m Unit := raw ("\n" ++ title ++ "\n\n")

def detail (key value : String) : Session m Unit := line ("  " ++ key ++ ": " ++ value)

/-- Prints a value as JSON or YAML. -/
def item (format : Format) (v : Json) : Session m Unit :=
  match format with
  | .yaml => raw (Yaml.render v)
  | _ => line v.renderPretty

/-- Prints a table, or its rows as a list of objects. -/
def list (format : Format) (t : Table) (names : List String) : Session m Unit :=
  match format with
  | .table => line (if t.rows.isEmpty then "No results found." else t.render)
  | format => item format (Json.ofList (fun row => .obj (names.zip (row.map .str))) t.rows)

/-- An attempt of the engine. -/
def attempt (x : Attempt m α) : Session m α := do
  match ← (x.run : m (Except Fault α)) with
  | .ok a => pure a
  | .error f => throw (.fault f)

end Session

open Session

/-! ### Running jobs -/

section

variable [Monad m] [MonadStore m] [MonadClock m] [MonadJournal m] (settings : Settings)

/-- The running set of a kind; the liveness keys tell which jobs are over. -/
def runningSet (kind : String) : RunningSet m :=
  { kind, entryTtl := settings.running.entryTtl, batchSize := settings.running.batchSize,
    probe := some settings.liveness.probe }

def runningRow (now : Instant) (job : RunningJob) : List String :=
  [ job.id, Timestamp.renderNumericOffset job.registeredAt,
    (Instant.timeLeft job.registeredAt now).clockText ]

def listRunning (format : Format) (kind : String) (limit : Nat) : Session m Unit := do
  let now ← (now : m Instant)
  let jobs ← attempt (runningSet settings kind : RunningSet m).jobs
  let rows := (jobs.take limit).map (runningRow now)
  list format { header := ["ID", "Registered", "Age"], rows } ["id", "registered_at", "age"]

def countRunning (format : Format) (kind : String) : Session m Unit := do
  let count ← attempt (runningSet settings kind : RunningSet m).count
  match format with
  | .table => line (toString count)
  | format => item format (.obj [("job_kind", .str kind), ("running", Json.ofNat count)])

def pruneRunning (format : Format) (kind : String) : Session m Unit := do
  let set : RunningSet m := runningSet settings kind
  let removed ← attempt set.cleanUp
  let left ← attempt set.count
  match format with
  | .table => success s!"Removed {removed} dead entries from {set.key} ({left} still running)"
  | format =>
    item format
      (.obj
        [ ("job_kind", .str kind), ("removed", Json.ofNat removed), ("running", Json.ofNat left) ])

def jobStatus (format : Format) (id : String) : Session m Unit := do
  let live ← attempt (m := m) (Liveness.isLive id)
  match format with
  | .table => detail id (if live then "running" else "not running")
  | format => item format (.obj [("job_id", .str id), ("running", .bool live)])

end

/-! ### Leases -/

section

variable [Monad m] [MonadStore m]

def expiryText (left : Option Duration) : String := (left.map Duration.clockText).getD "-"

/-- The whole milliseconds left, as far as they fit in 64 bits. -/
def expiryJson (left : Option Duration) : Json :=
  Json.ofOption (fun d => Json.ofNat (d.millis % Nat.pow 2 64)) left

def showLease [MonadJournal m] [MonadFresh m] (settings : Settings) (format : Format) (key : String) :
    Session m Unit := do
  let lease ← attempt (m := m) (Lease.fresh key settings.lease.ttl)
  let holder ← attempt (m := m) lease.holder
  let left ← attempt (m := m) lease.timeLeft
  match format, holder with
  | .table, some token =>
    header s!"Lease {key}"
    detail "Holder" token
    detail "Expires in" (expiryText left)
  | .table, none => info s!"Lease {key} is free"
  | format, holder =>
    item format
      (.obj
        [("holder", Json.ofOption .str holder), ("key", .str key), ("ttl_ms", expiryJson left)])

def releaseLease (format : Format) (key : String) (token : Option String) (force : Bool) :
    Session m Unit := do
  let released ← match token, force with
    | some token, _ => attempt (m := m) (Lease.cancel key token)
    | none, true => do
      warning s!"Force-releasing {key}"
      attempt (m := m) (callStore (.delete key))
    | none, false => throw (.message "Pass --token <TOKEN> or --force" none)
  match format, released with
  | .table, true => success s!"Released {key}"
  | .table, false => info s!"{key} was not held by that token"
  | format, released => item format (.obj [("key", .str key), ("released", .bool released)])

/-! ### Claims -/

/-- The JSON values of arguments. -/
def readArgs : List String → Session m (List Json)
  | [] => pure []
  | text :: rest => do
    match Json.read? text with
    | none => throw (.message s!"Argument {text} is not valid JSON" none)
    | some v => return v :: (← readArgs rest)

def showClaim (format : Format) (kind : String) (args : List String) : Session m Unit := do
  let args ← readArgs args
  let key := IdempotencyKey.of kind args
  let owner ← attempt (m := m) (callStore (.get key))
  let left ← attempt (m := m) (callStore (.ttl key))
  match format with
  | .table =>
    header s!"Dedup record for {kind}"
    detail "Hash" (IdempotencyKey.digest kind args)
    detail "Key" key
    detail "Owner" (Option.getD owner "-")
    detail "Expires in" (expiryText left)
  | format =>
    item format
      (.obj
        [ ("job_kind", .str kind), ("key", .str key), ("owner", Json.ofOption .str owner),
          ("ttl_ms", expiryJson left) ])

def clearClaim (format : Format) (kind : String) (args : List String) : Session m Unit := do
  let args ← readArgs args
  let key := IdempotencyKey.of kind args
  let deleted ← attempt (m := m) (callStore (.delete key))
  match format, deleted with
  | .table, true => success s!"Deleted {key}"
  | .table, false => info s!"No record at {key}"
  | format, deleted => item format (.obj [("deleted", .bool deleted), ("key", .str key)])

end

/-! ### Settings -/

section

variable [Monad m] (settings : Settings)

def showSettings (format : Format) : Session m Unit := do
  match format with
  | .table =>
    header "Configuration"
    detail "store.backend" settings.backend.name
    detail "redis.url" settings.server.url
    detail "redis.key_prefix" settings.server.keyspace
    detail "registry.entry_ttl" settings.running.entryTtl.clockText
    detail "registry.clean_up_batch_size" (toString settings.running.batchSize)
    detail "dedup.default_strategy" settings.dedup.release.name
    detail "dedup.including_scheduled" (toString settings.dedup.includingScheduled)
    detail "dedup.ttl" settings.dedup.ttl.clockText
    detail "lease.ttl" settings.lease.ttl.clockText
    detail "lease.retries" (toString settings.lease.retries)
    detail "status.ttl" settings.liveness.ttl.clockText
  | format => item format settings.toJson

def showSettingsPath (path : Option String) : Session m Unit :=
  match path with
  | some path => line path
  | none => info "No configuration file; using environment and defaults"

def checkSettings : Session m Unit := do
  match settings.check with
  | .ok () => success "Configuration is valid"
  | .error f => throw (.fault f)

end

/-! ### Any command -/

/-- Whether a command needs the store. -/
def Command.needsStore : Command → Bool
  | showSettings | showSettingsPath | checkSettings => false
  | _ => true

/-- Runs a command. -/
def execute [Monad m] [MonadStore m] [MonadClock m] [MonadJournal m] [MonadFresh m]
    (settings : Settings) (path : Option String) (format : Format) : Command → Session m Unit
  | .listRunning kind limit => listRunning settings format kind limit
  | .countRunning kind => countRunning settings format kind
  | .pruneRunning kind => pruneRunning settings format kind
  | .jobStatus id => jobStatus format id
  | .showLease key => showLease settings format key
  | .releaseLease key token force => releaseLease format key token force
  | .showClaim kind args => showClaim format kind args
  | .clearClaim kind args => clearClaim format kind args
  | .showSettings => showSettings settings format
  | .showSettingsPath => showSettingsPath path
  | .checkSettings => checkSettings settings

end Turnstile.Console
