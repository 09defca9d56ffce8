import Turnstile.Lease.Batch
import Turnstile.Main
import Turnstile.Proofs.Duplicate.Exactness
import Turnstile.Proofs.Duplicate.Transparency
import Turnstile.Proofs.Lease.Blocks
import Turnstile.Proofs.Store.History
import Turnstile.Server.Ideal
import Turnstile.Simulation.Naming
import Turnstile.Simulation.World
import Turnstile.Telemetry
import Turnstile.Proofs.Engine.Course
import Turnstile.Proofs.Simulation.Moves
import Turnstile.Proofs.Worker.Parts
import Turnstile.Proofs.Worker.Overshoot
import Turnstile.Proofs.Simulation.Names
import Turnstile.Proofs.Transport.Queue
import Turnstile.Proofs.Transport.Steps
import Turnstile.Proofs.Worker.Capacity
import Turnstile.Proofs.Worker.Dispatch
import Turnstile.Proofs.Worker.Rounds
import Turnstile.Proofs.Worker.FanOut
import Turnstile.Proofs.Worker.Drain
import Turnstile.Proofs.Transport.Conservation
import Turnstile.Proofs.Worker.Executions
import Turnstile.Proofs.Simulation.Marks
import Turnstile.Proofs.Worker.Backlog
import Turnstile.Proofs.Duplicate.Agreement
import Turnstile.Proofs.Duplicate.Identity
import Turnstile.Proofs.Job.Reconciliation
import Turnstile.Proofs.Lease.Singleton
import Turnstile.Proofs.Text.Digits
import Turnstile.Proofs.Time.Millis
import Turnstile.Proofs.Server.Agreement
import Turnstile.Proofs.Lease.Attempts
import Turnstile.Proofs.Time.Calendar
import Turnstile.Proofs.Time.Timestamp
import Turnstile.Proofs.Time.Spelled
import Turnstile.Proofs.Wire.Forms
import Turnstile.Proofs.Worker.Isolation
import Turnstile.Proofs.Duplicate.Around
import Turnstile.Proofs.Job.CleanUp
import Turnstile.Proofs.Worker.Upkeep
import Turnstile.Proofs.Transport.Serving
import Turnstile.Proofs.Duplicate.Redelivery
import Turnstile.Proofs.Duplicate.Batches
import Turnstile.Proofs.Worker.Clearing
import Turnstile.Proofs.Job.Refresh
import Turnstile.Proofs.Duplicate.Lifetime
import Turnstile.Proofs.Lease.Iterations
import Turnstile.Proofs.Server.Refusals
import Turnstile.Proofs.Server.Expiries
import Turnstile.Proofs.Lease.Delays
import Turnstile.Proofs.Wire.Errors
import Turnstile.Proofs.Console.Effects
