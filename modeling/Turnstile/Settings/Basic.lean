import Turnstile.Duplicate.Policy
import Turnstile.Fault.Basic
import Turnstile.Job.Liveness
import Turnstile.Lease.Lock
import Turnstile.Settings.Telemetry

/-!
# Settings of the engine

What an operator can set, section by section, with the defaults. `Settings.check` refuses settings
that the engine cannot run with. Together they are the `Config` of the specification, section 10.3.
-/

namespace Turnstile

/-! ### Sections -/

/-- Which store the processes share. -/
inductive StoreBackend
  /-- The store of this process. -/
  | memory
  /-- A store server. -/
  | redis
deriving DecidableEq, Repr, Inhabited

namespace StoreBackend

def labels : List (String × StoreBackend) := [("memory", memory), ("redis", redis)]

def label : StoreBackend → String
  | memory => "memory"
  | redis => "redis"

/-- The name of a backend in reports. -/
def name : StoreBackend → String
  | memory => "Memory"
  | redis => "Redis"

def toJson (b : StoreBackend) : Json := .str b.label

def ofJson? (v : Json) : Option StoreBackend := Json.reading.ofChoice? labels v

end StoreBackend

/-- Where the store server is, and what every key on it begins with. -/
structure ServerSettings where
  url : String
  keyspace : String
deriving DecidableEq, Inhabited

namespace ServerSettings

def default : ServerSettings := { url := "redis://localhost:6379", keyspace := "jobgate:" }

def toJson (s : ServerSettings) : Json :=
  .obj [("url", .str s.url), ("key_prefix", .str s.keyspace)]

def read? (r : Reading V) (v : V) : Option ServerSettings := do
  let fs ← r.fields? ["url", "key_prefix"] v
  pure
    { url := ← fs.defaulted? "url" default.url r.text?
      keyspace := ← fs.defaulted? "key_prefix" default.keyspace r.text? }

end ServerSettings

/-- How running sets are kept. -/
structure RunningSettings where
  entryTtl : Duration
  batchSize : Nat
deriving DecidableEq, Inhabited

namespace RunningSettings

/-- Six hours, and a thousand ids in one call. -/
def default : RunningSettings := { entryTtl := Duration.ofSeconds 21600, batchSize := 1000 }

def toJson (s : RunningSettings) : Json :=
  .obj [("entry_ttl", Json.spelled s.entryTtl), ("clean_up_batch_size", Json.ofNat s.batchSize)]

def read? (r : Reading V) (v : V) : Option RunningSettings := do
  let fs ← r.fields? ["entry_ttl", "clean_up_batch_size"] v
  pure
    { entryTtl := ← fs.defaulted? "entry_ttl" default.entryTtl r.duration?
      batchSize := ← fs.defaulted? "clean_up_batch_size" default.batchSize (r.word? 64) }

end RunningSettings

/-- The reader of the policy of job kinds without one of their own. -/
def DedupPolicy.readDefault? (r : Reading V) (v : V) : Option DedupPolicy := do
  let fs ← r.fields? ["default_strategy", "including_scheduled", "ttl"] v
  pure
    { release := ← fs.defaulted? "default_strategy" default.release
        (r.ofChoice? ReleasePoint.labels)
      includingScheduled := ← fs.defaulted? "including_scheduled" false r.bool?
      ttl := ← fs.defaulted? "ttl" defaultTtl r.duration? }

/-- The policy of job kinds without one of their own. -/
def DedupPolicy.defaultToJson (p : DedupPolicy) : Json :=
  .obj
    [ ("default_strategy", p.release.toJson), ("including_scheduled", .bool p.includingScheduled),
      ("ttl", Json.spelled p.ttl) ]

/-- The shape of the waiting times between attempts. -/
inductive BackoffKind
  | fixed
  | linear
  | exponential
  | jittered
deriving DecidableEq, Repr, Inhabited

namespace BackoffKind

def labels : List (String × BackoffKind) :=
  [ ("fixed", fixed), ("linear", linear), ("exponential", exponential),
    ("exponential_with_jitter", jittered) ]

def label : BackoffKind → String
  | fixed => "fixed"
  | linear => "linear"
  | exponential => "exponential"
  | jittered => "exponential_with_jitter"

def toJson (k : BackoffKind) : Json := .str k.label

def ofJson? (v : Json) : Option BackoffKind := Json.reading.ofChoice? labels v

end BackoffKind

/-- How leases are taken where nothing else is said. -/
structure LeaseSettings where
  ttl : Duration
  retries : Nat
  retryDelay : Duration
  backoff : BackoffKind
deriving DecidableEq, Inhabited

namespace LeaseSettings

def default : LeaseSettings :=
  { ttl := Duration.ofSeconds 60, retries := 10, retryDelay := Duration.ofMillis 10,
    backoff := .fixed }

/-- The milliseconds between two attempts, as far as they fit in 64 bits: higher bits are dropped. -/
def delayMs (s : LeaseSettings) : Nat := s.retryDelay.millis % Nat.pow 2 64

/-- The waiting times that the settings describe. -/
def toBackoff (s : LeaseSettings) : Backoff :=
  match s.backoff with
  | .fixed => .fixed s.delayMs
  | .linear => .linear s.delayMs s.delayMs (Backoff.mulCapped s.delayMs 10)
  | .exponential => .exponential s.delayMs (Double.ofNat 2) (Backoff.mulCapped s.delayMs 100)
  | .jittered =>
    .jittered s.delayMs (Double.ofNat 2) (Backoff.mulCapped s.delayMs 100)
      (Double.ofDecimal false 2 (-1))

def toLockPlan (s : LeaseSettings) : LockPlan :=
  { ttl := s.ttl, retries := s.retries, backoff := s.toBackoff }

def toJson (s : LeaseSettings) : Json :=
  .obj
    [ ("ttl", Json.spelled s.ttl), ("retries", Json.ofNat s.retries),
      ("retry_delay", Json.spelled s.retryDelay), ("backoff", s.backoff.toJson) ]

def read? (r : Reading V) (v : V) : Option LeaseSettings := do
  let fs ← r.fields? ["ttl", "retries", "retry_delay", "backoff"] v
  pure
    { ttl := ← fs.defaulted? "ttl" default.ttl r.duration?
      retries := ← fs.defaulted? "retries" default.retries (r.word? 32)
      retryDelay := ← fs.defaulted? "retry_delay" default.retryDelay r.duration?
      backoff := ← fs.defaulted? "backoff" default.backoff (r.ofChoice? BackoffKind.labels) }

end LeaseSettings

namespace Liveness

/-- Jobs stay live for half an hour. -/
def default : Liveness := { ttl := Duration.ofSeconds 1800 }

def toJson (l : Liveness) : Json := .obj [("ttl", Json.spelled l.ttl)]

def read? (r : Reading V) (v : V) : Option Liveness := do
  let fs ← r.fields? ["ttl"] v
  pure { ttl := ← fs.defaulted? "ttl" default.ttl r.duration? }

end Liveness

/-! ### All sections -/

/-- The settings of the engine. -/
structure Settings where
  backend : StoreBackend
  server : ServerSettings
  running : RunningSettings
  /-- The policy of job kinds without one of their own. -/
  dedup : DedupPolicy
  lease : LeaseSettings
  liveness : Liveness
  telemetry : TelemetrySettings
deriving DecidableEq

namespace Settings

/-- The settings where nothing is said. -/
def default (environment : String) : Settings :=
  { backend := .memory, server := ServerSettings.default, running := RunningSettings.default,
    dedup := DedupPolicy.default, lease := LeaseSettings.default, liveness := Liveness.default,
    telemetry := TelemetrySettings.default environment }

def toJson (s : Settings) : Json :=
  .obj
    [ ("store", .obj [("backend", s.backend.toJson)]), ("redis", s.server.toJson),
      ("registry", s.running.toJson), ("dedup", s.dedup.defaultToJson), ("lease", s.lease.toJson),
      ("status", s.liveness.toJson), ("telemetry", s.telemetry.toJson) ]

def readBackend? (r : Reading V) (v : V) : Option StoreBackend := do
  let fs ← r.fields? ["backend"] v
  fs.defaulted? "backend" .memory (r.ofChoice? StoreBackend.labels)

/-- The reader of all sections; `environment` is what the surroundings name. -/
def read? (r : Reading V) (environment : String) (v : V) : Option Settings := do
  let fs ← r.fields? ["store", "redis", "registry", "dedup", "lease", "status", "telemetry"] v
  let default := default environment
  pure
    { backend := ← fs.defaulted? "store" default.backend (readBackend? r)
      server := ← fs.defaulted? "redis" default.server (ServerSettings.read? r)
      running := ← fs.defaulted? "registry" default.running (RunningSettings.read? r)
      dedup := ← fs.defaulted? "dedup" default.dedup (DedupPolicy.readDefault? r)
      lease := ← fs.defaulted? "lease" default.lease (LeaseSettings.read? r)
      liveness := ← fs.defaulted? "status" default.liveness (Liveness.read? r)
      telemetry := ← fs.defaulted? "telemetry" default.telemetry
        (TelemetrySettings.read? r environment) }

/-- Why the engine cannot run with the settings, if it cannot. -/
def trouble? (s : Settings) : Option String :=
  if s.running.batchSize = 0 then some "registry.clean_up_batch_size must be greater than zero"
  else if s.running.entryTtl.isZero then some "registry.entry_ttl must be non-zero"
  else if s.dedup.ttl.isZero then some "dedup.ttl must be non-zero"
  else if s.lease.ttl.millis = 0 then some "lease.ttl must be at least one millisecond"
  else if s.liveness.ttl.isZero then some "status.ttl must be non-zero"
  else none

/-- Refuses settings that the engine cannot run with. -/
def check (s : Settings) : Except Fault Unit :=
  match s.trouble? with
  | some trouble => .error (Fault.configuration trouble)
  | none => .ok ()

end Settings

end Turnstile
