import Turnstile.Proofs.Duplicate.Waiting

/-!
# What queue operations do to each kind

The ready jobs of one kind after a job was taken in, after due jobs were moved, and after a job was
taken out. Other kinds do not matter.
-/

namespace Turnstile

/-- A job as it was before a transport took it in. -/
def Job.unstamped (job : Job) : Job := { job with enqueuedAt := none }

namespace Queue

variable {q : Queue} {now : Instant} {kind other : String} {job : Job}

theorem push_of_scheduled (h : job.isScheduled now = true) :
    q.push now job = { q with scheduled := q.scheduled ++ [job] } := if_pos h

theorem push_of_due (h : job.isScheduled now = false) : q.push now job = q.pushReady job := by
  unfold push
  rw [h]
  rfl

theorem scheduled_pushReady (q : Queue) (job : Job) :
    (q.pushReady job).scheduled = q.scheduled := rfl

/-! ### Moving due jobs -/

theorem readyJobs_foldl (jobs : List Job) (q : Queue) (kind : String) :
    (jobs.foldl pushReady q).readyJobs kind =
      q.readyJobs kind ++ jobs.filter fun job => job.kind = kind := by
  induction jobs generalizing q with
  | nil => simp
  | cons job rest ih =>
    rw [List.foldl_cons, ih, readyJobs_pushReady, List.append_assoc, ← List.filter_append]
    rfl

theorem scheduled_foldl (jobs : List Job) (q : Queue) :
    (jobs.foldl pushReady q).scheduled = q.scheduled := by
  induction jobs generalizing q with
  | nil => rfl
  | cons job rest ih => rw [List.foldl_cons, ih, scheduled_pushReady]

theorem readyJobs_promoteDue (q : Queue) (now : Instant) (kind : String) :
    (q.promoteDue now).readyJobs kind =
      q.readyJobs kind ++ (q.dueJobs now).filter fun job => job.kind = kind :=
  readyJobs_foldl _ _ _

theorem scheduled_promoteDue (q : Queue) (now : Instant) :
    (q.promoteDue now).scheduled = q.scheduled.filter fun job => job.isScheduled now :=
  scheduled_foldl _ _

theorem dueJobs_filter_of_none (h : ∀ job ∈ q.scheduled, job.kind ≠ kind) :
    ((q.dueJobs now).filter fun job => job.kind = kind) = [] := by
  rw [List.filter_eq_nil_iff]
  intro job hjob
  have hscheduled := (List.mem_filter.mp hjob).1
  simpa using h job hscheduled

/-! ### Taking a job -/

theorem pop_fst (q : Queue) (kind : String) : (q.pop kind).1 = (q.readyJobs kind).head? := by
  unfold pop
  split <;> next h => rw [h]; rfl

theorem readyJobs_pop (q : Queue) (kind other : String) :
    (q.pop kind).2.readyJobs other =
      if kind = other then (q.readyJobs kind).tail else q.readyJobs other := by
  unfold pop
  split
  · next h =>
    split
    · next he => rw [← he, h]; rfl
    · rfl
  · next h => rw [readyJobs_insert, h]; rfl

theorem scheduled_pop (q : Queue) (kind : String) : (q.pop kind).2.scheduled = q.scheduled := by
  unfold pop
  split <;> rfl

end Queue

end Turnstile
