import Turnstile.Proofs.Simulation.Moves
import Turnstile.Worker.Basic

/-!
# Parts of a worker

The steps of a worker under names of their own, and what those do that neither start a job nor submit
one: they count, report and take out. They stay within any relation that frees, as long as the parts
that the worker was given do.
-/

namespace Turnstile

/-! ### Steps -/

section

variable {m : Type → Type} [Monad m] [LawfulMonad m] {α β : Type}

theorem liftM_eq_lift (x : m α) : (liftM x : Task m α) = ExceptT.lift x := by
  apply ExceptT.ext
  simp only [liftM, monadLift, MonadLift.monadLift, ExceptT.run_mk, ExceptT.run_lift,
    bind_pure_comp, Functor.map_map]
  rfl

theorem run_bind_liftM (x : m α) (f : α → Task m β) :
    ((liftM x : Task m α) >>= f).run = x >>= fun a => (f a).run := by
  rw [liftM_eq_lift, ExceptT.run_bind_lift]

end

namespace Worker

theorem signed_of_lt {n : Nat} (h : n < 2 ^ 63) : signed n = n := by
  have hpow : Nat.pow 2 64 = 2 * 2 ^ 63 := rfl
  unfold signed
  rw [hpow, Int.bmod_eq_of_le_mul_two] <;> omega

variable {m : Type → Type} [Monad m] [MonadStore m] [MonadClock m] [MonadJournal m] [MonadFresh m]

def skip (w : Worker m) (id : String) (args : List Json) : m Unit := do
  note (.noCapacity w.kind id)
  tally (.capacitySkip w.kind)
  w.removeRunning id
  w.reportMetrics args

def finish (w : Worker m) (id : String) (args : List Json) (result : WorkEnd) : m Unit := do
  tally (.jobFinished w.kind (result matches .succeeded))
  w.removeRunning id
  w.reportMetrics args

/-- What follows from the end of the work: another job only if it succeeded. -/
def conclude (w : Worker m) (id : String) (args : List Json) : WorkEnd → Task m WorkerOutcome
  | .succeeded => do return .completed (← w.reEnqueue args)
  | .failed e => do
    let f := Fault.workFailed w.kind id e
    tally (m := m) (.fault f.code)
    note (m := m) (.fault f)
    throw (.fault f)
  | .panicked => throw .panic

def start (w : Worker m) (id : String) (args : List Json) : m (Except Halt WorkerOutcome) := do
  w.registerRunning id
  let result ← w.load.work args
  w.finish id args result
  (w.conclude id args result).run

def fanOut (w : Worker m) (args : List Json) (count : Nat) : Task m Nat := do
  if count = 0 then return 0
  let jobs ← w.copies args count
  let _ ← w.transport.submitBatch jobs
  note (m := m) (.fannedOut w.kind count)
  return count

variable [LawfulMonad m]

omit [MonadClock m] in
theorem perform_run (w : Worker m) (id : String) (args : List Json) :
    (w.perform id args).run = w.hasCapacity >>= fun room =>
      if room then w.start id args else w.skip id args >>= fun _ => pure (.ok .skipped) := by
  unfold perform start skip finish
  simp only [run_bind_liftM]
  congr 1
  funext room
  cases room with
  | true =>
    simp only [if_true, run_bind_liftM, bind_assoc]
    rfl
  | false =>
    simp only [Bool.false_eq_true, if_false, run_bind_liftM, bind_assoc]
    rfl

theorem performWithCapacity_run (w : Worker m) (args : List Json) :
    (w.performWithCapacity args).run = w.cleanUp >>= fun _ => w.reportMetrics args >>= fun _ =>
      w.load.remaining args >>= fun left => w.remainingCapacity >>= fun room =>
        (w.fanOut args (min left room)).run := by
  unfold performWithCapacity
  simp only [run_bind_liftM]
  rfl

omit [MonadStore m] [MonadClock m] in
theorem fanOut_run (w : Worker m) (args : List Json) (count : Nat) :
    (w.fanOut args count).run =
      if count = 0 then pure (.ok 0)
      else w.copies args count >>= fun jobs => (w.transport.submitBatch jobs >>= fun _ =>
        ExceptT.lift (note (.fannedOut w.kind count)) >>= fun _ => pure count).run := by
  unfold fanOut
  split
  · rfl
  · rw [run_bind_liftM]
    simp only [liftM_eq_lift]

omit [MonadStore m] [MonadClock m] [MonadJournal m] in
theorem reEnqueue_run (w : Worker m) (args : List Json) :
    (w.reEnqueue args).run = w.load.remaining args >>= fun left =>
      if left = 0 then pure (.ok false)
      else MonadFresh.freshJobId >>= fun id =>
        (w.transport.submit (Job.create w.kind args id) >>= fun _ => pure true).run := by
  unfold reEnqueue
  simp only [run_bind_liftM]
  congr 1
  funext left
  split
  · rfl
  · rw [run_bind_liftM]

end Worker

open Machine Thread

variable {Q ρ : Type} {R : Machine → Machine → Prop} {kind : String} {most : Int}

/-- A probe whose calls stay within a relation. -/
structure Probe.Stays (R : Machine → Machine → Prop) (p : Probe (Thread Q ρ)) : Prop where
  completed : ∀ ids, Within R (p.completed ids).run
  started : ∀ id, Within R (p.started id).run
  finished : ∀ id, Within R (p.finished id).run

/-- A worker for a kind of which at most so many jobs may run. Its reports stay within a relation. -/
structure Worker.Serves (w : Worker (Thread Q ρ)) (kind : String) (most : Int)
    (R : Machine → Machine → Prop) : Prop where
  loadKind : w.load.kind = kind
  runningKind : w.running.kind = kind
  maxRunning : w.load.maxRunning = pure most
  remaining : ∀ args, Within R (w.load.remaining args)
  gauge : ∀ series value, Within R (w.setGauge series value)

/-- A worker whose work and probe stay within the relation as well. -/
structure Worker.Stays (w : Worker (Thread Q ρ)) (kind : String) (most : Int)
    (R : Machine → Machine → Prop) : Prop extends w.Serves kind most R where
  probe : ∀ p, w.running.probe = some p → p.Stays R
  work : ∀ args, Within R (w.load.work args)

/-! ### The running set -/

namespace RunningSet

variable {set : RunningSet (Thread Q ρ)}

theorem within_count [Lenient R] (set : RunningSet (Thread Q ρ)) : Within R set.count.run :=
  within_reads (c := .setCount set.key) trivial

theorem within_remove [Freeing R] (hp : ∀ p, set.probe = some p → p.Stays R) (id : String) :
    Within R (set.remove id).run := by
  refine (within_frees (c := .setRemove set.key [id]) trivial).run_bind fun _ => ?_
  cases h : set.probe with
  | none => exact .done _
  | some p => exact (hp p h).finished id

theorem within_completedAmong {p : Probe (Thread Q ρ)}
    (hp : ∀ ids, Within R (p.completed ids).run) (batches : List (List String)) :
    Within R (completedAmong p batches).run := by
  induction batches with
  | nil => exact .done _
  | cons batch rest ih => exact (hp batch).run_bind fun _ => ih.run_bind fun _ => .done _

theorem within_removeAll [Freeing R] (set : RunningSet (Thread Q ρ)) (batches : List (List String)) :
    Within R (set.removeAll batches).run := by
  induction batches with
  | nil => exact .done _
  | cons batch rest ih =>
    exact (within_frees (c := .setRemove set.key batch) trivial).run_bind fun _ =>
      ih.run_bind fun _ => .done _

theorem within_cleanUp [Freeing R]
    (hp : ∀ p, set.probe = some p → ∀ ids, Within R (p.completed ids).run) :
    Within R set.cleanUp.run := by
  refine (within_reads (c := .setMembers set.key) trivial).run_bind fun members => ?_
  split
  · exact .done _
  refine within_now.run_lift.run_bind fun now' => ?_
  have hrest (texts : List String) : Within R (do
      let removed ← set.removeAll (batches set.batchSize texts)
      if 0 < removed then note (m := Thread Q ρ) (.deadJobsRemoved set.kind removed)
      return removed : Attempt (Thread Q ρ) Nat).run := by
    refine (within_removeAll set _).run_bind fun removed => ?_
    split
    · exact (within_note _).run_lift.run_bind fun _ => .done _
    · exact .done _
  dsimp only
  split
  · next p h => exact (within_completedAmong (hp p h) _).run_bind fun _ => hrest _
  · exact hrest _

end RunningSet

/-! ### Reports -/

namespace Worker

variable {w : Worker (Thread Q ρ)}

theorem within_runningCount [Lenient R] (w : Worker (Thread Q ρ)) : Within R w.runningCount :=
  within_orNote w.running.within_count _ _

theorem within_reportMetrics [Lenient R] (hw : w.Serves kind most R) (args : List Json) :
    Within R (w.reportMetrics args) := by
  unfold reportMetrics
  rw [hw.maxRunning]
  refine (within_runningCount w).bind fun running => ?_
  refine (hw.remaining args).bind fun left => ?_
  refine (hw.gauge _ _).bind fun _ => ?_
  refine Within.bind (.done most) fun most => ?_
  exact (hw.gauge _ _).bind fun _ => hw.gauge _ _

theorem within_removeRunning [Freeing R] (hw : w.Stays kind most R) (id : String) :
    Within R (w.removeRunning id) := within_orNote (RunningSet.within_remove hw.probe id) _ _

theorem within_cleanUp [Freeing R]
    (hp : ∀ p, w.running.probe = some p → ∀ ids, Within R (p.completed ids).run) :
    Within R w.cleanUp :=
  (within_orNote (RunningSet.within_cleanUp hp) _ _).bind fun _ => .done _

theorem within_finish [Freeing R] (hw : w.Stays kind most R) (id : String) (args : List Json)
    (result : WorkEnd) : Within R (w.finish id args result) :=
  (within_tally _).bind fun _ => (within_removeRunning hw id).bind fun _ =>
    within_reportMetrics hw.toServes args

theorem within_skip [Freeing R] (hw : w.Stays kind most R) (id : String) (args : List Json) :
    Within R (w.skip id args) :=
  (within_note _).bind fun _ => (within_tally _).bind fun _ =>
    (within_removeRunning hw id).bind fun _ => within_reportMetrics hw.toServes args

end Worker

end Turnstile
