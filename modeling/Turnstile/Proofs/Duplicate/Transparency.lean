import Turnstile.Proofs.Duplicate.Marking

/-!
# Marking leaves delivery alone

A transport that marks duplicates delivers as the transport behind it does, whatever the store
answers and whenever it fails: the same ids, the same sizes, and the same jobs in the same order up
to their marks.
-/

namespace Turnstile

/-! ### Without marks -/

def Queue.unmarked (q : Queue) : Queue :=
  { ready := ⟨q.ready.entries.map fun (kind, jobs) => (kind, jobs.map Job.unmarked)⟩
    scheduled := q.scheduled.map Job.unmarked }

namespace Queue

variable {q : Queue} {now : Instant} {job : Job} {kind : String}

theorem lookup_map {α β : Type} (f : α → β) (key : String) (entries : List (String × α)) :
    Keyed.lookup key (entries.map fun (k, v) => (k, f v)) =
      (Keyed.lookup key entries).map f := by
  induction entries with
  | nil => rfl
  | cons e rest ih =>
    simp only [List.map_cons, Keyed.lookup]
    split
    · rfl
    · exact ih

theorem store_map {α β : Type} (f : α → β) (key : String) (value : α)
    (entries : List (String × α)) :
    Keyed.store key (f value) (entries.map fun (k, v) => (k, f v)) =
      (Keyed.store key value entries).map fun (k, v) => (k, f v) := by
  induction entries with
  | nil => rfl
  | cons e rest ih =>
    simp only [List.map_cons, Keyed.store]
    split
    · rfl
    · rw [ih, List.map_cons]

theorem readyJobs_unmarked : q.unmarked.readyJobs kind = (q.readyJobs kind).map Job.unmarked := by
  simp only [readyJobs, Keyed.getD, Keyed.get?, unmarked, lookup_map]
  cases Keyed.lookup kind q.ready.entries <;> rfl

theorem insert_unmarked (jobs : List Job) :
    unmarked { q with ready := q.ready.insert kind jobs } =
      { q.unmarked with ready := q.unmarked.ready.insert kind (jobs.map Job.unmarked) } := by
  simp only [unmarked, Keyed.insert, store_map]

theorem size_unmarked : q.unmarked.size kind = q.size kind := by
  simp only [size, readyJobs_unmarked, List.length_map]

theorem pushReady_unmarked : (q.pushReady job).unmarked = q.unmarked.pushReady job.unmarked := by
  have hkind : job.unmarked.kind = job.kind := rfl
  simp only [pushReady, insert_unmarked, readyJobs_unmarked, hkind, List.map_append,
    List.map_singleton]

theorem push_unmarked : (q.push now job).unmarked = q.unmarked.push now job.unmarked := by
  have hscheduled : job.unmarked.isScheduled now = job.isScheduled now := rfl
  simp only [push, hscheduled]
  split
  · simp only [unmarked, List.map_append, List.map_singleton]
  · exact pushReady_unmarked

theorem promoteDue_unmarked : (q.promoteDue now).unmarked = q.unmarked.promoteDue now := by
  have hfold : ∀ (jobs : List Job) (q : Queue),
      (jobs.foldl pushReady q).unmarked = (jobs.map Job.unmarked).foldl pushReady q.unmarked := by
    intro jobs
    induction jobs with
    | nil => exact fun _ => rfl
    | cons job rest ih =>
      intro q
      rw [List.foldl_cons, ih, pushReady_unmarked, List.map_cons, List.foldl_cons]
  simp only [promoteDue, hfold, dueJobs]
  simp only [unmarked, List.filter_map]
  rfl

theorem pop_unmarked : q.unmarked.pop kind =
    ((q.pop kind).1.map Job.unmarked, (q.pop kind).2.unmarked) := by
  simp only [pop, readyJobs_unmarked]
  cases q.readyJobs kind with
  | nil => rfl
  | cons job rest =>
    simp only [List.map_cons, Option.map_some, insert_unmarked]

end Queue

/-! ### Deliveries -/

/-- What is done with a transport and the queues of this process. -/
inductive Delivery
  | submit (sub : Submission)
  | size (kind : String)
  | dequeue (kind : String)
  | clock (now : Instant)

inductive Delivered
  | ids (ids : List String)
  | size (n : Nat)
  | job (job : Option Job)
  | nothing

def Delivered.unmarked : Delivered → Delivered
  | job j => job (j.map Job.unmarked)
  | other => other

namespace Delivery

def run (t : Transport (StateM Machine)) : Delivery → Task (StateM Machine) Delivered
  | submit sub => do return .ids (← sub.submit t)
  | size kind => do return .size (← t.queueSize kind)
  | dequeue kind => do return .job (← (Turnstile.dequeue kind : StateM Machine (Option Job)))
  | clock now => do
    (Machine.step fun s => ((), { s with clock := now }) : StateM Machine Unit)
    return .nothing

/-- What is answered to each of some deliveries, and the queues after each of them. -/
def observe (t : Transport (StateM Machine)) : List Delivery → Machine →
    List (Except Halt Delivered × Queue)
  | [], _ => []
  | d :: rest, s =>
    let (r, s) := s.exec (d.run t).run
    (r, s.queue) :: observe t rest s

def unmarked (o : Except Halt Delivered × Queue) : Except Halt Delivered × Queue :=
  (o.1.map Delivered.unmarked, o.2.unmarked)

/-- No claim of a submitted job would last longer than any duration. -/
def Lasts (ps : DedupPolicies) : Instant → List Delivery → Prop
  | _, [] => True
  | now, submit sub :: rest => (∀ job ∈ sub.jobs, ps.Lasts job now) ∧ Lasts ps now rest
  | _, clock now :: rest => Lasts ps now rest
  | now, size _ :: rest => Lasts ps now rest
  | now, dequeue _ :: rest => Lasts ps now rest

/-- Two machines at one time whose queues differ in marks only. -/
structure Twins (s s' : Machine) : Prop where
  clock : s'.clock = s.clock
  queue : s'.queue.unmarked = s.queue.unmarked

variable {lt : LocalTransport} {ps : DedupPolicies} {s s' : Machine}

theorem takeIn_unmarked (now : Instant) (jobs : List Job) (q : Queue) :
    (LocalTransport.takeIn now jobs q).unmarked =
      LocalTransport.takeIn now (jobs.map Job.unmarked) q.unmarked := by
  induction jobs generalizing q with
  | nil => rfl
  | cons job rest ih =>
    change (LocalTransport.takeIn now rest (q.push now { job with enqueuedAt := some now })).unmarked =
      LocalTransport.takeIn now (rest.map Job.unmarked)
        (q.unmarked.push now { job.unmarked with enqueuedAt := some now })
    rw [ih, Queue.push_unmarked]
    rfl

theorem exec_dequeue (s : Machine) (kind : String) :
    (s.exec (Turnstile.dequeue kind)).1 = ((s.queue.promoteDue s.clock).pop kind).1 ∧
      (s.exec (Turnstile.dequeue kind)).2.clock = s.clock ∧
      (s.exec (Turnstile.dequeue kind)).2.queue = ((s.queue.promoteDue s.clock).pop kind).2 := by
  have hpromote : (s.exec (promoteDue : StateM Machine Nat)).2.queue =
      s.queue.promoteDue s.clock ∧ (s.exec (promoteDue : StateM Machine Nat)).2.clock = s.clock := by
    rw [promoteDue, Machine.exec_bind, Machine.exec_now, Machine.exec_bind,
      Machine.exec_modifyQueue]
    split <;> exact ⟨rfl, rfl⟩
  obtain ⟨hqueue, hclock⟩ := hpromote
  rw [Turnstile.dequeue, Machine.exec_bind, Machine.exec_modifyQueue, hqueue]
  exact ⟨rfl, hclock, rfl⟩

theorem twins_step (lt : LocalTransport) (d : Delivery) (rest : List Delivery) (h : Twins s s')
    (hl : Lasts ps s.clock (d :: rest)) :
    (s.exec (d.run (lt.toTransport.marking ps)).run).1.map Delivered.unmarked =
        (s'.exec (d.run lt.toTransport).run).1.map Delivered.unmarked ∧
      Twins (s.exec (d.run (lt.toTransport.marking ps)).run).2
        (s'.exec (d.run lt.toTransport).run).2 ∧
      Lasts ps (s.exec (d.run (lt.toTransport.marking ps)).run).2.clock rest := by
  cases d with
  | submit sub =>
    obtain ⟨hjobs, hrest⟩ := hl
    obtain ⟨left, s'', _, hleft, hobserved, hmarking⟩ := sub.exec_submit_marking lt hjobs
    obtain ⟨hids, hclock, hqueue⟩ := LocalTransport.exec_pushAll lt s'' left
    obtain ⟨hids', hclock', hqueue'⟩ := LocalTransport.exec_pushAll lt s' sub.jobs
    have hsame : left.map (·.id) = sub.jobs.map (·.id) := by
      have hi := congrArg (List.map (·.id)) hleft
      rw [List.map_map, List.map_map] at hi
      exact hi
    simp only [run, Machine.exec_run_bind, hmarking, Submission.exec_submit, Machine.exec_run_pure]
    refine ⟨?_, ⟨?_, ?_⟩, ?_⟩
    · rw [hids, hids', hsame]
    · rw [hclock, hclock', h.clock, hobserved.clock]
    · rw [hqueue, hqueue', takeIn_unmarked, takeIn_unmarked, hleft, h.queue, h.clock,
        hobserved.queue, hobserved.clock]
    · rw [hclock, hobserved.clock]
      exact hrest
  | size kind =>
    have hsize : s'.queue.size kind = s.queue.size kind := by
      rw [← Queue.size_unmarked, h.queue, Queue.size_unmarked]
    refine ⟨?_, h, hl⟩
    change Except.ok (Delivered.size (s.queue.size kind)) = .ok (.size (s'.queue.size kind))
    rw [hsize]
  | dequeue kind =>
    obtain ⟨hjob, hclock, hqueue⟩ := exec_dequeue s kind
    obtain ⟨hjob', hclock', hqueue'⟩ := exec_dequeue s' kind
    have hpop : ((s'.queue.promoteDue s'.clock).pop kind).1.map Job.unmarked =
          ((s.queue.promoteDue s.clock).pop kind).1.map Job.unmarked ∧
        ((s'.queue.promoteDue s'.clock).pop kind).2.unmarked =
          ((s.queue.promoteDue s.clock).pop kind).2.unmarked := by
      have hq : (s'.queue.promoteDue s'.clock).unmarked = (s.queue.promoteDue s.clock).unmarked := by
        rw [Queue.promoteDue_unmarked, Queue.promoteDue_unmarked, h.queue, h.clock]
      have hp := congrArg (Queue.pop · kind) hq
      simp only [Queue.pop_unmarked, Prod.mk.injEq] at hp
      exact hp
    refine ⟨?_, ⟨?_, ?_⟩, ?_⟩
    · change Except.ok (Delivered.job ((s.exec (Turnstile.dequeue kind)).1.map Job.unmarked)) =
        .ok (.job ((s'.exec (Turnstile.dequeue kind)).1.map Job.unmarked))
      rw [hjob, hjob', hpop.1]
    · change (s'.exec (Turnstile.dequeue kind)).2.clock = (s.exec (Turnstile.dequeue kind)).2.clock
      rw [hclock, hclock', h.clock]
    · change (s'.exec (Turnstile.dequeue kind)).2.queue.unmarked =
        (s.exec (Turnstile.dequeue kind)).2.queue.unmarked
      rw [hqueue, hqueue', hpop.2]
    · change Lasts ps (s.exec (Turnstile.dequeue kind)).2.clock rest
      rw [hclock]
      exact hl
  | clock now => exact ⟨rfl, ⟨rfl, h.queue⟩, hl⟩

/-- Whatever is delivered, and whatever the two stores answer or fail with, a marking transport
answers and leaves in the queues what the transport behind it does, up to marks. -/
theorem observe_marking (lt : LocalTransport) (ps : DedupPolicies) (ds : List Delivery)
    (s s' : Machine) (h : Twins s s') (hl : Lasts ps s.clock ds) :
    (observe (lt.toTransport.marking ps) ds s).map unmarked =
      (observe lt.toTransport ds s').map unmarked := by
  induction ds generalizing s s' with
  | nil => rfl
  | cons d rest ih =>
    obtain ⟨hanswer, htwins, hrest⟩ := twins_step lt d rest h hl
    simp only [observe, List.map_cons, unmarked]
    rw [hanswer, htwins.queue, ih _ _ htwins hrest]

/-- Two equal jobs are delivered, although the store fails when the second one is checked. -/
theorem observe_marking_of_outage :
    let ps := DedupPolicies.ofPolicy DedupPolicy.default
    let lt : LocalTransport := { liveness := none }
    let job := Job.create "k" [.str "a"] "1"
    let s := (Machine.ofClock Instant.epoch).addPlan "set_if_absent"
      { after := 1, times := 1, outcome := .fail (Fault.wrongKindOfValue "k") }
    Twins s (Machine.ofClock Instant.epoch) ∧
      (observe (lt.toTransport.marking ps)
          [.submit (.batch [job, { job with id := "2" }]), .size "k", .clock ⟨1, 0⟩, .dequeue "k"]
          s).map (fun o => (o.1.map Delivered.unmarked)) =
        [.ok (.ids ["1", "2"]), .ok (.size 2), .ok .nothing,
          .ok (.job (some { job with enqueuedAt := some Instant.epoch }))] := by
  intro ps lt job s
  have htwins : Twins s (Machine.ofClock Instant.epoch) := ⟨rfl, rfl⟩
  refine ⟨htwins, ?_⟩
  have hlasts : ∀ j ∈ [job, { job with id := "2" }], ps.Lasts j s.clock := by
    intro j hj _
    rcases List.mem_pair.mp hj with rfl | rfl <;> rfl
  have hsame := observe_marking lt ps
    [.submit (.batch [job, { job with id := "2" }]), .size "k", .clock ⟨1, 0⟩, .dequeue "k"]
    s _ htwins ⟨hlasts, trivial⟩
  have hanswers := congrArg (List.map Prod.fst) hsame
  rw [List.map_map, List.map_map] at hanswers
  exact hanswers

end Delivery

end Turnstile
