import Turnstile.Proofs.Duplicate.Transparency
import Turnstile.Proofs.Transport.Conservation

/-!
# The jobs that can be picked up

While the clock stands still and nobody else touches the queues, the jobs of a kind are picked up one
after the other until there is none: first those that are ready, then those that are held and due. The
size that a transport tells is the number of the first alone, so it is the number of all just when no
held job of the kind is due.
-/

namespace Turnstile

open Machine

/-- The jobs of a kind that can be picked up at a time, in the order of delivery. -/
def Queue.available (q : Queue) (now : Instant) (kind : String) : List Job :=
  q.readyJobs kind ++ (q.dueJobs now).filter fun job => job.kind = kind

/-! ### One after the other -/

/-- Jobs of a kind are picked up until there is none. -/
inductive Serves (kind : String) : List Job → Machine → Machine → Prop
  | none {s s' : Machine} (h : s.exec (dequeue kind) = (none, s')) : Serves kind [] s s'
  | next {job : Job} {jobs : List Job} {s s₁ s' : Machine}
      (h : s.exec (dequeue kind) = (some job, s₁)) (hrest : Serves kind jobs s₁ s') :
      Serves kind (job :: jobs) s s'

/-- Nothing of a kind is left to be picked up, nor anything that is due, and the jobs of other kinds are
where due jobs go. -/
structure Served (kind : String) (s s' : Machine) : Prop where
  clock : s'.clock = s.clock
  scheduled : s'.queue.scheduled = s.queue.scheduled.filter fun job => job.isScheduled s.clock
  ready : s'.queue.readyJobs kind = []
  other : ∀ other, other ≠ kind → s'.queue.readyJobs other = s.queue.available s.clock other

variable {s s' s'' : Machine} {kind : String} {jobs jobs' : List Job}

namespace Queue

variable {q : Queue} {now : Instant}

theorem dueJobs_promoteDue (q : Queue) (now : Instant) : (q.promoteDue now).dueJobs now = [] := by
  rw [dueJobs, scheduled_promoteDue, List.filter_filter, List.filter_eq_nil_iff]
  intro job _
  cases job.isScheduled now <;> simp

theorem available_of_due (h : q.dueJobs now = []) : q.available now kind = q.readyJobs kind := by
  rw [available, h, List.filter_nil, List.append_nil]

theorem dueJobs_pop (q : Queue) (kind : String) (now : Instant) :
    (q.pop kind).2.dueJobs now = q.dueJobs now := by
  rw [dueJobs, scheduled_pop, dueJobs]

theorem dueJobs_filter_eq_nil_iff : ((q.dueJobs now).filter fun job => job.kind = kind) = [] ↔
    ∀ job ∈ q.scheduled, job.kind = kind → job.isScheduled now = true := by
  simp only [dueJobs, List.filter_filter, List.filter_eq_nil_iff, Bool.and_eq_true,
    decide_eq_true_eq, Bool.not_eq_eq_eq_not, Bool.not_true, not_and, Bool.not_eq_false]

end Queue

/-- Picking up a job takes the first of those that can be picked up, and leaves no job that is due. -/
theorem exec_dequeue_available (s : Machine) (kind : String) :
    (s.exec (dequeue kind)).1 = (s.queue.available s.clock kind).head? ∧
      (s.exec (dequeue kind)).2.clock = s.clock ∧
      (s.exec (dequeue kind)).2.queue.dueJobs s.clock = [] ∧
      (s.exec (dequeue kind)).2.queue.scheduled =
        s.queue.scheduled.filter (fun job => job.isScheduled s.clock) ∧
      ∀ other, (s.exec (dequeue kind)).2.queue.readyJobs other =
        if kind = other then (s.queue.available s.clock kind).tail
        else s.queue.available s.clock other := by
  obtain ⟨hjob, hclock, hqueue⟩ := Delivery.exec_dequeue s kind
  rw [hjob, hqueue]
  refine ⟨?_, hclock, ?_, ?_, fun other => ?_⟩
  · rw [Queue.pop_fst, Queue.readyJobs_promoteDue]
    rfl
  · rw [Queue.dueJobs_pop, Queue.dueJobs_promoteDue]
  · rw [Queue.scheduled_pop, Queue.scheduled_promoteDue]
  · rw [Queue.readyJobs_pop, Queue.readyJobs_promoteDue, Queue.readyJobs_promoteDue]
    rfl

theorem serves_available (s : Machine) (kind : String) :
    ∃ s', Serves kind (s.queue.available s.clock kind) s s' ∧ Served kind s s' := by
  -- what is left after one removal is ready, so the induction is on the jobs that can be picked up
  induction hjobs : s.queue.available s.clock kind generalizing s with
  | nil =>
    obtain ⟨hjob, hclock, _, hscheduled, hready⟩ := exec_dequeue_available s kind
    have hown := hready kind
    rw [hjobs] at hjob
    rw [if_pos rfl, hjobs] at hown
    exact ⟨_, .none (Prod.ext hjob rfl), hclock, hscheduled, hown, fun other hne =>
      (hready other).trans (if_neg hne.symm)⟩
  | cons first rest ih =>
    obtain ⟨hjob, hclock, hdue, hscheduled, hready⟩ := exec_dequeue_available s kind
    have hown := hready kind
    rw [hjobs] at hjob
    rw [if_pos rfl, hjobs] at hown
    obtain ⟨s', hserves, hserved⟩ := ih (s.exec (dequeue kind)).2 <| by
      rw [hclock, Queue.available_of_due hdue]
      exact hown
    refine ⟨s', .next (Prod.ext hjob rfl) hserves, hserved.clock.trans hclock, ?_, hserved.ready,
      fun other hne => ?_⟩
    · rw [hserved.scheduled, hscheduled, hclock, List.filter_filter]
      simp only [Bool.and_self]
    · rw [hserved.other other hne, hclock, Queue.available_of_due hdue, hready other,
        if_neg hne.symm]

theorem Serves.unique (h : Serves kind jobs s s') (h' : Serves kind jobs' s s'') :
    jobs' = jobs ∧ s'' = s' := by
  induction h generalizing jobs' with
  | none h =>
    cases h' with
    | none h' =>
      cases h.symm.trans h'
      exact ⟨rfl, rfl⟩
    | next h' _ => cases h.symm.trans h'
  | next h _ ih =>
    cases h' with
    | none h' => cases h.symm.trans h'
    | next h' hrest =>
      cases h.symm.trans h'
      obtain ⟨rfl, rfl⟩ := ih hrest
      exact ⟨rfl, rfl⟩

/-! ### The size that is told -/

theorem exec_queueSize (lt : LocalTransport) (s : Machine) (kind : String) :
    s.exec (lt.toTransport.queueSize kind).run = (.ok (s.queue.size kind), s) := rfl

/-- However the queues were filled, the jobs of a kind that can be picked up at a time are the ready ones
and then the held ones that are due; only jobs that are not yet due stay behind. The size that is told
leaves out the second part, and is the number of all of them just when no held job of the kind is due. -/
theorem size_add_due (lt : LocalTransport) (s : Machine) (kind : String) :
    ∃ jobs s' size, Serves kind jobs s s' ∧
      (∀ jobs' s'', Serves kind jobs' s s'' → jobs' = jobs ∧ s'' = s') ∧ Served kind s s' ∧
      jobs = s.queue.available s.clock kind ∧
      s.exec (lt.toTransport.queueSize kind).run = (.ok size, s) ∧
      size + ((s.queue.dueJobs s.clock).filter fun job => job.kind = kind).length = jobs.length ∧
      (size = jobs.length ↔
        ∀ job ∈ s.queue.scheduled, job.kind = kind → job.isScheduled s.clock = true) := by
  obtain ⟨s', hserves, hserved⟩ := serves_available s kind
  have hsum : s.queue.size kind + ((s.queue.dueJobs s.clock).filter fun job => job.kind = kind).length
      = (s.queue.available s.clock kind).length := by
    rw [Queue.available, List.length_append]
    rfl
  refine ⟨_, s', _, hserves, fun _ _ => hserves.unique, hserved, rfl, exec_queueSize lt s kind, hsum,
    ?_⟩
  rw [← hsum, Nat.left_eq_add, List.length_eq_zero_iff, Queue.dueJobs_filter_eq_nil_iff]

namespace Passage

open Thread

/-- A job was given for the fifth nanosecond. When that has come, one job can be picked up and none is
counted. -/
theorem size_misses_due :
    let lt : LocalTransport := { liveness := none }
    let job : Job := Job.create "k" [] "1"
    ∃ h s s' served, Run lt h s ∧ s.clock = ⟨0, 5⟩ ∧
      given h = [{ job with scheduledAt := some ⟨0, 5⟩ }] ∧ Serves "k" served s s' ∧
      served.map Job.id = ["1"] ∧ s.exec (lt.toTransport.queueSize "k").run = (.ok 0, s) := by
  intro lt job
  let sub : Request := .submit (.later ⟨0, 5⟩ job)
  let s₁ := ((sub.thread lt : Thread Empty Empty Event).drive (Machine.ofClock ⟨0, 0⟩)).2
  let s : Machine := { s₁ with clock := ⟨0, 5⟩ }
  let event : Event := .given [{ job with scheduledAt := some ⟨0, 5⟩ }]
  have hdone : ((sub.thread lt : Thread Empty Empty Event).drive (Machine.ofClock ⟨0, 0⟩)).1 =
      .done event := rfl
  have hcourse := reaches_drive (R := Waits) (sub.thread lt : Thread Empty Empty Event)
    (Machine.ofClock ⟨0, 0⟩)
  rw [hdone] at hcourse
  have hlater : Waits s₁ s := ⟨by decide, rfl⟩
  have hrun : Run lt [event] s := .request sub (.start rfl) (hcourse.meanwhile hlater)
  obtain ⟨s', hserves, _⟩ := serves_available s "k"
  exact ⟨[event], s, s', _, hrun, rfl, rfl, hserves, by decide +kernel, rfl⟩

end Passage

end Turnstile
