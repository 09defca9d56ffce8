import Turnstile.Proofs.Engine.Scene
import Turnstile.Proofs.Transport.Queue
import Turnstile.Proofs.Worker.Parts

/-!
# What a worker does with one job

A worker that is given one job does the same few things in the same order, whatever the store answers:
it counts the jobs that run, does the work if there is room, takes the job out, counts again, reports,
and submits one more job after a success while work is left. A store call that fails is never an
outcome of the job.
-/

namespace Turnstile

open Thread

/-! ### Workers by their settings -/

/-- What a worker asks of its workload and of its gauges. -/
inductive Demand
  | work (args : List Json)
  | remaining (args : List Json)
  | gauge (series : Series) (value : Double)

/-- How a unit of work ended, and how many are left. Whoever answers a demand gives both. -/
structure Response where
  ended : WorkEnd
  left : Nat

/-- The settings of a worker with its running set and its transport. -/
structure Station where
  kind : String
  most : Int
  entryTtl : Duration
  batchSize : Nat
  /-- The status keys that the running set keeps and checks. -/
  probe : Option Liveness
  /-- The status keys that the transport sets for submitted jobs. -/
  marks : Option Liveness

namespace Station

def running (p : Station) : RunningSet (Thread Demand Response) :=
  { kind := p.kind, entryTtl := p.entryTtl, batchSize := p.batchSize,
    probe := p.probe.map Liveness.probe }

def transport (p : Station) : LocalTransport := { liveness := p.marks }

def key (p : Station) : String := RunningSet.keyOf p.kind

def worker (p : Station) : Worker (Thread Demand Response) where
  load :=
    { kind := p.kind
      maxRunning := pure p.most
      remaining := fun args => do return (← ask (.remaining args)).left
      work := fun args => do return (← ask (.work args)).ended }
  running := p.running
  transport := p.transport.toTransport
  setGauge series value := do
    let _ ← ask (.gauge series value)

/-- All that is seen of a job with an id, from a machine on. -/
def perform [Machine.Names] (p : Station) (h : Host Demand Response) (id : String)
    (args : List Json) (s : Machine) : Except Halt WorkerOutcome × Scene Demand Response :=
  (p.worker.perform id args).run.play h (.ofMachine s)

end Station

/-! ### Deeds -/

/-- What a worker does that matters to others. It also registers jobs and sets status keys. -/
inductive Deed
  | counted (key : String) (answer : Except Fault Nat)
  | worked (args : List Json) (before : Machine) (ended : WorkEnd) (after : Machine)
  | removed (key : String) (texts : List String)
  | surveyed (args : List Json) (left : Nat)
  | gauged (series : Series) (value : Double)

/-- A unit of work that was done, with the machine at its beginning and at its end. -/
structure Stint where
  before : Machine
  ended : WorkEnd
  after : Machine

def Stint.deed (args : List Json) (stint : Stint) : Deed :=
  .worked args stint.before stint.ended stint.after

def Event.deed? : Event Demand Response → Option Deed
  | .called (.setCount key) answer => some (.counted key answer)
  | .called (.setRemove key texts) _ => some (.removed key texts)
  | .called _ _ => none
  | .asked (.work args) before r after => some (.worked args before r.ended after)
  | .asked (.remaining args) _ r _ => some (.surveyed args r.left)
  | .asked (.gauge series value) _ _ _ => some (.gauged series value)

def Scene.deeds (t : Scene Demand Response) : List Deed := t.log.filterMap Event.deed?

def Deed.found : Except Fault Nat → Nat
  | .ok n => n
  | .error _ => 0

variable {α β : Type} {h : Host Demand Response} {t : Scene Demand Response} {p : Station}
  {id : String} {args : List Json}

namespace Scene

theorem deeds_append {events : List (Event Demand Response)} {s : Machine} :
    deeds { log := t.log ++ events, machine := s } = t.deeds ++ events.filterMap Event.deed? :=
  List.filterMap_append

theorem deeds_called (c : StoreCall) : (t.called c).deeds =
    t.deeds ++ [Event.called c (t.machine.callStore c).1].filterMap Event.deed? := deeds_append

theorem deeds_asked (q : Demand) : (t.asked h q).deeds =
    t.deeds ++ [Event.asked q t.machine (h t q).1 (h t q).2].filterMap Event.deed? := deeds_append

end Scene

/-- The machine once a job has joined the ready ones. -/
def Machine.pushed (s : Machine) (job : Job) : Machine := { s with queue := s.queue.pushReady job }

/-! ### Status keys -/

/-- A call that leaves no deed, to the status key of a job. -/
structure StoreCall.OfStatus (id : String) (c : StoreCall) : Prop where
  key : c.key = Liveness.key id
  deed? : ∀ r, Event.deed? (.called c r) = none

section

variable {R : Scene Demand Response → Scene Demand Response → Prop}
  [IsPreorder (Scene Demand Response) R]
  (hc : ∀ (t : Scene Demand Response) c, StoreCall.OfStatus id c → R t (t.called c))

include hc

theorem Liveness.leaves_started (l : Liveness) :
    Leaves R (l.started id : Attempt (Thread Demand Response) Unit).run :=
  (leaves_call (c := .setIfAbsent _ _ _) fun t => hc t _ ⟨rfl, fun _ => rfl⟩).run_bind
    fun _ => leaves_pure _

theorem Liveness.leaves_unset : Leaves R (unset id : Attempt (Thread Demand Response) Unit).run :=
  (leaves_call (c := .delete _) fun t => hc t _ ⟨rfl, fun _ => rfl⟩).run_bind fun _ => leaves_pure _

theorem Liveness.leaves_track (l : Liveness) :
    Leaves R (l.track id : Attempt (Thread Demand Response) Unit).run := by
  refine (leaves_call (c := .setIfAbsent _ _ _) fun t => hc t _ ⟨rfl, fun _ => rfl⟩).run_bind
    fun stored => ?_
  split
  · exact (leaves_call (c := .expireIfEq _ _ _) fun t => hc t _ ⟨rfl, fun _ => rfl⟩).run_bind
      fun _ => leaves_pure _
  · exact leaves_pure _

theorem LocalTransport.leaves_markLive (lt : LocalTransport)
    (hr : ∀ (t : Scene Demand Response) r, R t { t with machine := t.machine.addRecord r }) :
    Leaves R (lt.markLive id : Thread Demand Response Unit) := by
  unfold markLive
  split
  · exact leaves_pure _
  · next l _ => exact (l.leaves_track hc).orNote _ _ hr

/-- A job that is not scheduled joins the ready ones, after its status key may have been set. -/
theorem LocalTransport.yields_push (lt : LocalTransport) {kind : String}
    (hr : ∀ (t : Scene Demand Response) r, R t { t with machine := t.machine.addRecord r }) :
    Yields h (lt.push (Job.create kind args id) : Thread Demand Response String) (fun _ t' =>
      ∃ t₁, R t t₁ ∧ t' = { t₁ with
        machine := t₁.machine.pushed ((Job.create kind args id).stamped t.machine.clock) }) t := by
  have hdue : ((Job.create kind args id).stamped t.machine.clock).isScheduled t.machine.clock = false :=
    rfl
  refine yields_bind (yields_step ?_)
  refine yields_bind ((lt.leaves_markLive hc hr h t).mono fun _ t₁ h₁ => ?_)
  refine yields_bind (yields_step (yields_pure ⟨t₁, h₁, ?_⟩))
  rw [Machine.pushed, ← Queue.push_of_due hdue]
  rfl

end

/-- Nothing was done that matters to others. -/
def Scene.Silent (t t' : Scene Demand Response) : Prop := t'.deeds = t.deeds

instance : IsPreorder (Scene Demand Response) Scene.Silent where
  refl _ := rfl
  trans _ _ _ h h' := Eq.trans h' h

theorem Scene.silent_called {c : StoreCall} (hc : ∀ r, Event.deed? (.called c r) = none)
    (t : Scene Demand Response) : t.Silent (t.called c) := by
  unfold Silent
  rw [deeds_called, List.filterMap_cons, hc]
  exact List.append_nil _

namespace Station

/-! ### Steps of a worker -/

/-- What the next count of the running set answers. -/
def counting (p : Station) (s : Machine) : Except Fault Nat := (s.callStore (.setCount p.key)).1

theorem yields_runningCount : Yields h p.worker.runningCount (fun n t' =>
    n = Deed.found (p.counting t.machine) ∧
      t'.deeds = t.deeds ++ [.counted p.key (p.counting t.machine)]) t := by
  have hdeeds := t.deeds_called (.setCount p.key)
  refine yields_orNote (yields_callStore (c := .setCount p.key) ?_)
  unfold counting
  rcases hc : (t.machine.callStore (.setCount p.key)).1 with f | n
  · rw [hc] at hdeeds
    exact ⟨rfl, hdeeds⟩
  · rw [hc] at hdeeds
    exact ⟨rfl, hdeeds⟩

theorem silent_registerRunning : Leaves Scene.Silent (p.worker.registerRunning id) := by
  refine Leaves.orNote ((leaves_call (c := .setAdd _ _ _) (Scene.silent_called fun _ => rfl)).run_bind
    fun _ => ?_) _ _ fun _ _ => rfl
  cases hp : p.probe with
  | none =>
    simp only [worker, running, hp]
    exact leaves_pure _
  | some l =>
    simp only [worker, running, hp]
    exact l.leaves_started fun t c hc => t.silent_called hc.deed?

theorem yields_work : Yields h (p.worker.load.work args) (fun ended t' =>
    t'.deeds = t.deeds ++ [.worked args t.machine ended t'.machine]) t := by
  refine yields_bind (yields_ask (yields_pure ?_))
  exact t.deeds_asked _

theorem yields_remaining : Yields h (p.worker.load.remaining args) (fun left t' =>
    t'.deeds = t.deeds ++ [.surveyed args left]) t := by
  refine yields_bind (yields_ask (yields_pure ?_))
  exact t.deeds_asked _

theorem yields_setGauge {series : Series} {value : Double} :
    Yields h (p.worker.setGauge series value) (fun _ t' =>
      t'.deeds = t.deeds ++ [.gauged series value]) t := by
  refine yields_bind (yields_ask (yields_pure ?_))
  exact t.deeds_asked _

theorem yields_removeRunning : Yields h (p.worker.removeRunning id) (fun _ t' =>
    t'.deeds = t.deeds ++ [.removed p.key [id]]) t := by
  have hremove : Yields h (p.worker.running.remove id).run (fun _ t' =>
      (t.called (.setRemove p.key [id])).Silent t') t := by
    refine yields_call_leaves fun _ => ?_
    cases hp : p.probe with
    | none =>
      simp only [worker, running, hp]
      exact leaves_pure _
    | some l =>
      simp only [worker, running, hp]
      exact Liveness.leaves_unset fun t c hc => t.silent_called hc.deed?
  refine yields_orNote (hremove.mono ?_)
  rintro (f | a) t' ht'
  · exact ht'.trans (t.deeds_called _)
  · exact ht'.trans (t.deeds_called _)

/-- What a worker reports: how many jobs run, how many may, and how much is left. -/
def report (p : Station) (args : List Json) (c : Except Fault Nat) (left : Nat) : List Deed :=
  [.counted p.key c, .surveyed args left,
    .gauged (Gauge.runningJobs.series p.kind) (Double.ofNat (Deed.found c)),
    .gauged (Gauge.maxRunningJobs.series p.kind) (Double.ofInt p.most),
    .gauged (Gauge.remainingWork.series p.kind) (Double.ofNat left)]

theorem yields_reportMetrics : Yields h (p.worker.reportMetrics args) (fun _ t' =>
    ∃ left, t'.deeds = t.deeds ++ p.report args (p.counting t.machine) left) t := by
  refine yields_bind (yields_runningCount.mono ?_)
  rintro running t₁ ⟨rfl, h₁⟩
  refine yields_bind (yields_remaining.mono fun left t₂ h₂ => ?_)
  refine yields_bind (yields_setGauge.mono fun _ t₃ h₃ => ?_)
  refine yields_bind (yields_pure (a := p.most) ?_)
  refine yields_bind (yields_setGauge.mono fun _ t₄ h₄ => ?_)
  refine yields_setGauge.mono fun _ t₅ h₅ => ⟨left, ?_⟩
  rw [h₅, h₄, h₃, h₂, h₁]
  simp only [List.append_assoc]
  rfl

/-- One more job with the same arguments is ready, behind all others. -/
def Delivered [Machine.Names] (p : Station) (args : List Json) (s : Machine) : Prop :=
  ∃ front n time, s.queue.readyJobs p.kind =
    front ++ [(Job.create p.kind args (Machine.jobIdOf n)).stamped time]

theorem delivered_push [Machine.Names] {n : Nat} {q : Queue} {time : Instant} {s : Machine}
    (hs : s.queue = q.pushReady ((Job.create p.kind args (Machine.jobIdOf n)).stamped time)) :
    p.Delivered args s := by
  refine ⟨q.readyJobs p.kind, n, time, ?_⟩
  rw [hs, Queue.readyJobs_pushReady]
  simp [Job.create, Job.stamped]

theorem yields_reEnqueue [Machine.Names] :
    Yields h (p.worker.reEnqueue args).run (fun r t' => ∃ left,
    t'.deeds = t.deeds ++ [.surveyed args left] ∧ r = .ok (decide (left ≠ 0)) ∧
      (left ≠ 0 → p.Delivered args t'.machine)) t := by
  rw [Worker.reEnqueue_run]
  refine yields_bind (yields_remaining.mono fun left t₁ h₁ => ?_)
  split
  · next hnone => exact yields_pure ⟨left, h₁, by simp [hnone], fun hsome => absurd hnone hsome⟩
  · next hsome =>
    refine yields_bind (yields_step ?_)
    refine yields_run_lift ((p.transport.yields_push (R := Scene.Silent)
      (fun t c hc => t.silent_called hc.deed?) fun _ _ => rfl).mono ?_)
    rintro _ _ ⟨t₂, h₂, rfl⟩
    exact yields_run_pure ⟨left, h₂.trans h₁, by simp [hsome], fun _ => delivered_push rfl⟩

/-! ### One job -/

/-- Whether a job may do its work after such a count: only a count that succeeds can keep it off. -/
def Admits (p : Station) (c : Except Fault Nat) : Prop := 0 < p.most ∧ ∀ n, c = .ok n → (n : Int) < p.most

theorem yields_hasCapacity (hc : ∀ n, p.counting t.machine = .ok n → n < 2 ^ 63) :
    Yields h p.worker.hasCapacity (fun room t' => (room = true ↔ p.Admits (p.counting t.machine)) ∧
      t'.deeds = t.deeds ++ [.counted p.key (p.counting t.machine)]) t := by
  refine yields_bind (yields_pure (a := p.most) ?_)
  refine yields_bind (yields_runningCount.mono ?_)
  rintro running t₁ ⟨rfl, h₁⟩
  refine yields_pure ⟨?_, h₁⟩
  rw [decide_eq_true_iff, Admits]
  cases hcount : p.counting t.machine with
  | error f =>
    have hzero : Worker.signed 0 = 0 := by decide
    simp [Deed.found, hzero]
  | ok n =>
    rw [Deed.found, Worker.signed_of_lt (hc n hcount)]
    simp only [Except.ok.injEq, forall_eq']
    omega

/-- The deeds after the work, or instead of it. -/
def wrapUp (p : Station) (id : String) (args : List Json) (c : Except Fault Nat) (left : Nat) :
    List Deed := .removed p.key [id] :: p.report args c left

theorem yields_wrapUp : Yields h
    (p.worker.removeRunning id >>= fun _ => p.worker.reportMetrics args) (fun _ t' =>
      ∃ c left, t'.deeds = t.deeds ++ p.wrapUp id args c left) t := by
  refine yields_bind (yields_removeRunning.mono fun _ t₁ h₁ => ?_)
  refine yields_reportMetrics.mono ?_
  rintro _ t₂ ⟨left, h₂⟩
  refine ⟨p.counting t₁.machine, left, ?_⟩
  rw [h₂, h₁, List.append_assoc]
  rfl

theorem yields_finish (ended : WorkEnd) : Yields h (p.worker.finish id args ended) (fun _ t' =>
    ∃ c left, t'.deeds = t.deeds ++ p.wrapUp id args c left) t :=
  yields_bind (yields_tally yields_wrapUp)

theorem yields_skip : Yields h (p.worker.skip id args) (fun _ t' =>
    ∃ c left, t'.deeds = t.deeds ++ p.wrapUp id args c left) t :=
  yields_bind (yields_note (yields_bind (yields_tally yields_wrapUp)))

/-- The outcome of a job by how its work ended and how much was left then. -/
def outcome (p : Station) (id : String) (again : Option Nat) : WorkEnd → Except Halt WorkerOutcome
  | .succeeded => .ok (.completed (decide (again.getD 0 ≠ 0)))
  | .failed e => .error (.fault (Fault.workFailed p.kind id e))
  | .panicked => .error .panic

/-- After a success it is asked again how much is left. -/
theorem yields_conclude [Machine.Names] (ended : WorkEnd) :
    Yields h (p.worker.conclude id args ended).run (fun r t' =>
      ∃ again : Option Nat, (again.isSome = true ↔ ended = .succeeded) ∧
      t'.deeds = t.deeds ++ (again.map (Deed.surveyed args)).toList ∧
        r = p.outcome id again ended ∧ (again.getD 0 ≠ 0 → p.Delivered args t'.machine)) t := by
  have hnil : t.deeds = t.deeds ++ ((none : Option Nat).map (Deed.surveyed args)).toList :=
    (List.append_nil _).symm
  cases ended with
  | succeeded =>
    refine yields_run_bind (yields_reEnqueue.mono ?_)
    rintro _ t₁ ⟨left, h₁, rfl, hd⟩
    exact yields_run_pure ⟨some left, iff_of_true rfl rfl, h₁, rfl, hd⟩
  | failed e =>
    unfold Worker.conclude
    simp only [run_bind_liftM]
    exact yields_bind (yields_tally (yields_bind (yields_note (yields_pure
      ⟨none, iff_of_false nofun nofun, hnil, rfl, fun hne => absurd rfl hne⟩))))
  | panicked =>
    exact yields_pure ⟨none, iff_of_false nofun nofun, hnil, rfl, fun hne => absurd rfl hne⟩

/-- What a worker does with a job, and what comes out. The work is a stint, if it is done; `c` is the
second count, and `left` and `again` tell what was left at the report and, after a success, once
more. -/
structure Does [Machine.Names] (p : Station) (id : String) (args : List Json) (s : Machine)
    (stint : Option Stint) (c : Except Fault Nat) (left : Nat) (again : Option Nat)
    (r : Except Halt WorkerOutcome) (t : Scene Demand Response) : Prop where
  work : stint.isSome = true ↔ p.Admits (p.counting s)
  surveyed : again.isSome = true ↔ ∃ w, stint = some w ∧ w.ended = .succeeded
  /-- In particular the work is done once at most, one removal is tried, and each gauge is set once. -/
  deeds : t.deeds = .counted p.key (p.counting s) :: (stint.map (Stint.deed args)).toList ++
    p.wrapUp id args c left ++ (again.map (Deed.surveyed args)).toList
  /-- No store call that failed is an outcome. -/
  outcome : r = stint.elim (.ok .skipped) fun w => p.outcome id again w.ended
  delivered : again.getD 0 ≠ 0 → p.Delivered args t.machine

/-- A worker goes on whatever calls to the store fail, and none of them is an outcome of the job. -/
theorem perform_does [Machine.Names] (p : Station) (h : Host Demand Response) (id : String)
    (args : List Json) {s : Machine} (hc : ∀ n, p.counting s = .ok n → n < 2 ^ 63) :
    ∃ stint c left again, p.Does id args s stint c left again (p.perform h id args s).1
      (p.perform h id args s).2 := by
  have hperform : Yields h (p.worker.perform id args).run (fun r t' => ∃ stint c left again,
      p.Does id args s stint c left again r t') (.ofMachine s) := by
    rw [Worker.perform_run]
    refine yields_bind ((yields_hasCapacity hc).mono ?_)
    rintro room t₁ ⟨hroom, h₁⟩
    cases room with
    | true =>
      refine yields_bind ((silent_registerRunning h t₁).mono fun _ t₂ h₂ => ?_)
      refine yields_bind (yields_work.mono fun ended t₃ h₃ => ?_)
      refine yields_bind ((yields_finish ended).mono ?_)
      rintro _ t₄ ⟨c, left, h₄⟩
      refine (yields_conclude ended).mono ?_
      rintro _ t₅ ⟨again, hagain, h₅, rfl, hd⟩
      refine ⟨some ⟨t₂.machine, ended, t₃.machine⟩, c, left, again, hroom, ?_, ?_, rfl, hd⟩
      · simp only [hagain, Option.some.injEq, exists_eq_left']
      · rw [h₅, h₄, h₃, h₂, h₁]
        rfl
    | false =>
      refine yields_bind (yields_skip.mono ?_)
      rintro _ t₂ ⟨c, left, h₂⟩
      refine yields_pure ⟨none, c, left, none, hroom, ?_, ?_, rfl, fun hne => absurd rfl hne⟩
      · simp
      · rw [h₂, h₁]
        exact (List.append_nil _).symm
  exact hperform

/-- No call succeeds, and there is room only because of that. -/
theorem perform_does_of_outage :
    let p : Station :=
      { kind := "export", most := 1, entryTtl := ⟨60⟩, batchSize := 1, probe := some ⟨⟨60⟩⟩,
        marks := none }
    let outage : List Plan := [⟨0, 9, .fail (Fault.unknownKind "export")⟩]
    let s : Machine := { Machine.ofClock Instant.epoch with
      store := Keyed.empty.insert p.key ⟨.set [("a", Instant.epoch)], none⟩
      plans := Keyed.ofList [("set_count", outage), ("set_add", outage), ("set_remove", outage)] }
    let h : Host Demand Response := fun t _ => (⟨.succeeded, 1⟩, t.machine)
    (∀ n, p.counting s = .ok n → n < 2 ^ 63) ∧
      (p.perform h "b" [] s).1.toOption = some (.completed true) ∧
      ∃ stint c left again, p.Does "b" [] s stint c left again (p.perform h "b" [] s).1
        (p.perform h "b" [] s).2 := by
  intro p outage s h
  have hc : ∀ n, p.counting s = .ok n → n < 2 ^ 63 := nofun
  exact ⟨hc, by decide +kernel, p.perform_does h "b" [] hc⟩

end Station

end Turnstile
