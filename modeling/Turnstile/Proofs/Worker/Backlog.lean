import Turnstile.Proofs.Simulation.Marks
import Turnstile.Proofs.Transport.Steps
import Turnstile.Proofs.Worker.Capacity
import Turnstile.Proofs.Worker.Dispatch
import Turnstile.Proofs.Worker.Executions

/-!
# Working off a backlog

A worker whose jobs take the units of a backlog one by one. From one dispatch to the next it is known
how many units are left, how many jobs wait, that no job runs, and that no job that has run is still
marked as live unless it waits again.
-/

namespace Turnstile

open scoped List
open Machine Thread

variable {Q ρ : Type} {kind id : String} {most : Int} {fails : Nat → Option WorkError}
  {s s' : Machine} {job : Job} {ids : List String}

/-! ### The work -/

def WorkEnd.of : Option WorkError → WorkEnd
  | none => .succeeded
  | some e => .failed e

/-- Takes a unit off the backlog unless it is empty. `fails` tells which units fail. -/
def Machine.takeUnit (kind : String) (fails : Nat → Option WorkError) (s : Machine) :
    WorkEnd × Machine :=
  match s.backlog kind with
  | 0 => (.succeeded, s)
  | left + 1 => (.of (fails (left + 1)), s.consume kind)

def Workload.ofBacklog (kind : String) (most : Int) (fails : Nat → Option WorkError) :
    Workload (Thread Q ρ) where
  kind := kind
  maxRunning := pure most
  remaining := fun _ => Machine.step fun s => (s.backlog kind, s)
  work := fun _ => Machine.step (takeUnit kind fails)

theorem Machine.backlog_consume (s : Machine) (kind : String) :
    (s.consume kind).backlog kind = s.backlog kind - 1 := by
  unfold backlog loadOf consume setLoad Keyed.getD
  rw [Keyed.get?_insert, if_pos rfl]
  rfl

theorem Machine.takeUnit_spec (kind : String) (fails : Nat → Option WorkError) (s : Machine) :
    (s.takeUnit kind fails).1 = .of (Chains.taken fails (s.backlog kind)) ∧
      (s.takeUnit kind fails).2.backlog kind = s.backlog kind - 1 ∧
      ∃ loads, (s.takeUnit kind fails).2 = { s with loads } := by
  have hconsume := s.backlog_consume kind
  unfold takeUnit
  cases hb : s.backlog kind with
  | zero => exact ⟨rfl, hb, s.loads, rfl⟩
  | succ left =>
    rw [hb] at hconsume
    exact ⟨rfl, hconsume, _, rfl⟩

/-! ### The worker -/

namespace Worker

variable {w : Worker (Thread Q ρ)}

/-- A worker on a backlog. Its gauges and its probe do not interfere, apart from the mark of the job
that the probe is told of. -/
structure Works (w : Worker (Thread Q ρ)) (kind : String) (most : Int)
    (fails : Nat → Option WorkError) : Prop where
  load : w.load = .ofBacklog kind most fails
  runningKind : w.running.kind = kind
  gauge : ∀ series value, Within (Apart kind []) (w.setGauge series value)
  completed : ∀ p, w.running.probe = some p → ∀ ids, Within (Apart kind []) (p.completed ids).run
  started : ∀ p, w.running.probe = some p → ∀ id, Within (Apart kind [id]) (p.started id).run
  finished : ∀ p, w.running.probe = some p → ∀ id, Within (Apart kind [id]) (p.finished id).run

theorem works_of_probe {l : Liveness} (hload : w.load = .ofBacklog kind most fails)
    (hkind : w.running.kind = kind)
    (hgauge : ∀ series value, Within (Apart kind []) (w.setGauge series value))
    (hp : w.running.probe = some l.probe) : w.Works kind most fails := by
  obtain ⟨hcompleted, hmarks⟩ := l.within_probe (Q := Q) (ρ := ρ) kind
  have hprobe {p : Probe (Thread Q ρ)} (h : w.running.probe = some p) : l.probe = p :=
    Option.some.inj (hp.symm.trans h)
  refine ⟨hload, hkind, hgauge, fun p h => ?_, fun p h id => ?_, fun p h id => ?_⟩
  · exact hprobe h ▸ hcompleted
  · exact hprobe h ▸ (hmarks id).1
  · exact hprobe h ▸ (hmarks id).2

theorem Works.serves (hw : w.Works kind most fails) : w.Serves kind most (Apart kind []) := by
  refine ⟨?_, hw.runningKind, ?_, fun args => ?_, hw.gauge⟩
  · rw [hw.load]
    rfl
  · rw [hw.load]
    rfl
  · rw [hw.load]
    exact within_step fun s => refl_of (Apart kind []) s

theorem Works.key (hw : w.Works kind most fails) : w.running.key = RunningSet.keyOf kind :=
  congrArg RunningSet.keyOf hw.runningKind

end Worker

variable [Names]

/-! ### What is known -/

/-- What is known about the jobs of a kind. -/
structure Standing where
  left : Nat
  waiting : Nat
  ended : List String
  running : List String
  /-- The jobs that may be marked for now. -/
  active : List String

structure Standing.Holds (kind : String) (g : Standing) (s : Machine) : Prop where
  quiet : s.Quiet
  unscheduled : ∀ job ∈ s.queue.scheduled, job.kind ≠ kind
  members : s.members kind <+ g.running
  left : s.backlog kind = g.left
  waiting : (s.queue.readyJobs kind).length = g.waiting
  named : ∀ job ∈ s.queue.readyJobs kind, ∃ n, job.id = jobIdOf n
  cleared : ∀ id ∈ g.ended, s.Marked id →
    id ∈ g.active ∨ id ∈ (s.queue.readyJobs kind).map (·.id)

namespace Standing.Holds

variable {g : Standing}

theorem apart (h : g.Holds kind s) (ha : Apart kind ids s s') (hi : ids ⊆ g.active) :
    g.Holds kind s' := by
  obtain ⟨hq, hm⟩ := ha.thins h.quiet
  refine ⟨hq, ?_, hm.trans h.members, ha.backlog.trans h.left, ?_, ?_, fun id hid hmark => ?_⟩
  · rw [ha.queue]
    exact h.unscheduled
  · rw [ha.queue]
    exact h.waiting
  · rw [ha.queue]
    exact h.named
  · rw [ha.queue]
    by_cases hmem : id ∈ g.active
    · exact .inl hmem
    · exact h.cleared id hid (ha.marks h.quiet id (fun hids => hmem (hi hids)) hmark)

theorem aside (h : g.Holds kind s) (ha : Apart kind [] s s') : g.Holds kind s' :=
  h.apart ha (List.nil_subset _)

theorem widen (h : g.Holds kind s) {active : List String} (hi : g.active ⊆ active) :
    { g with active }.Holds kind s :=
  ⟨h.quiet, h.unscheduled, h.members, h.left, h.waiting, h.named,
    fun id hid hmark => (h.cleared id hid hmark).imp_left fun hmem => hi hmem⟩

theorem push (h : g.Holds kind s) (job : Job) (hk : job.kind = kind) (hid : ∃ n, job.id = jobIdOf n)
    {active : List String} (ha : g.active = job.id :: active) :
    { g with waiting := g.waiting + 1, active }.Holds kind
      { s with queue := s.queue.pushReady job } := by
  have hready : (s.queue.pushReady job).readyJobs kind = s.queue.readyJobs kind ++ [job] := by
    rw [Queue.readyJobs_pushReady, List.filter_cons_of_pos (by simpa using hk), List.filter_nil]
  refine ⟨h.quiet, h.unscheduled, h.members, h.left, ?_, fun j hj => ?_, fun id' hid' hmark => ?_⟩
  · change ((s.queue.pushReady job).readyJobs kind).length = g.waiting + 1
    rw [hready, List.length_append, h.waiting]
    rfl
  · change j ∈ (s.queue.pushReady job).readyJobs kind at hj
    rw [hready] at hj
    rcases List.mem_append.mp hj with hj | hj
    · exact h.named j hj
    · rw [List.mem_singleton.mp hj]
      exact hid
  · change id' ∈ active ∨ id' ∈ ((s.queue.pushReady job).readyJobs kind).map (·.id)
    rw [hready, List.map_append, List.mem_append]
    rcases h.cleared id' hid' hmark with hmem | hmem
    · rw [ha] at hmem
      rcases List.mem_cons.mp hmem with rfl | hmem
      · exact .inr (.inr (List.mem_singleton_self _))
      · exact .inl hmem
    · exact .inr (.inl hmem)

theorem promoted (h : g.Holds kind s) (now : Instant) :
    g.Holds kind { s with queue := s.queue.promoteDue now } := by
  have hready : (s.queue.promoteDue now).readyJobs kind = s.queue.readyJobs kind := by
    rw [Queue.readyJobs_promoteDue, Queue.dueJobs_filter_of_none h.unscheduled, List.append_nil]
  refine ⟨h.quiet, fun j hj => ?_, h.members, h.left, ?_, ?_, ?_⟩
  · change j ∈ (s.queue.promoteDue now).scheduled at hj
    rw [Queue.scheduled_promoteDue] at hj
    exact h.unscheduled j (List.mem_filter.mp hj).1
  · change ((s.queue.promoteDue now).readyJobs kind).length = g.waiting
    rw [hready]
    exact h.waiting
  · change ∀ job ∈ (s.queue.promoteDue now).readyJobs kind, ∃ n, job.id = jobIdOf n
    rw [hready]
    exact h.named
  · change ∀ id ∈ g.ended, s.Marked id →
      id ∈ g.active ∨ id ∈ ((s.queue.promoteDue now).readyJobs kind).map (·.id)
    rw [hready]
    exact h.cleared

theorem pop (h : g.Holds kind s) {rest : List Job} (hj : s.queue.readyJobs kind = job :: rest) :
    { g with waiting := g.waiting - 1, active := job.id :: g.active }.Holds kind
      { s with queue := (s.queue.pop kind).2 } := by
  have hready : (s.queue.pop kind).2.readyJobs kind = rest := by
    rw [Queue.readyJobs_pop, if_pos rfl, hj, List.tail_cons]
  have hwaiting := h.waiting
  rw [hj, List.length_cons] at hwaiting
  refine ⟨h.quiet, ?_, h.members, h.left, ?_, fun j hmem => ?_, fun id' hid' hmark => ?_⟩
  · change ∀ job ∈ (s.queue.pop kind).2.scheduled, job.kind ≠ kind
    rw [Queue.scheduled_pop]
    exact h.unscheduled
  · change ((s.queue.pop kind).2.readyJobs kind).length = g.waiting - 1
    rw [hready]
    omega
  · change j ∈ (s.queue.pop kind).2.readyJobs kind at hmem
    rw [hready] at hmem
    exact h.named j (hj ▸ List.mem_cons_of_mem job hmem)
  · change id' ∈ job.id :: g.active ∨ id' ∈ ((s.queue.pop kind).2.readyJobs kind).map (·.id)
    rw [hready]
    rcases h.cleared id' hid' hmark with hmem | hmem
    · exact .inl (List.mem_cons_of_mem _ hmem)
    · rw [hj, List.map_cons] at hmem
      rcases List.mem_cons.mp hmem with rfl | hmem
      · exact .inl List.mem_cons_self
      · exact .inr hmem

theorem registered [LawfulNames] {ttl : Duration} (h : g.Holds kind s) (hr : g.running = [])
    (he : ∀ id ∈ g.ended, ∃ n, id = jobIdOf n) :
    { g with running := [id] }.Holds kind
      (s.callStore (.setAdd (RunningSet.keyOf kind) id ttl)).2 := by
  have hcalled := called_callStore s (.setAdd (RunningSet.keyOf kind) id ttl)
  have hm := MemoryStore.membersAt_setAdd s.store s.clock (RunningSet.keyOf kind) id ttl
  rw [← hcalled.members h.quiet] at hm
  have hnone := h.members
  rw [hr] at hnone
  refine ⟨hcalled.quiet h.quiet, ?_, ?_, hcalled.backlog.trans h.left, ?_, ?_,
    fun id' hid' hmark => ?_⟩
  · rw [hcalled.queue]
    exact h.unscheduled
  · exact hm.trans (hnone.append_right [id])
  · rw [hcalled.queue]
    exact h.waiting
  · rw [hcalled.queue]
    exact h.named
  · rw [hcalled.queue]
    obtain ⟨n, rfl⟩ := he id' hid'
    exact h.cleared _ hid' (hcalled.marked_of_ne h.quiet (keyOf_ne_livenessKey kind n) hmark)

theorem removed (h : g.Holds kind s) (hr : g.running = [id]) :
    { g with running := [] }.Holds kind
      (s.callStore (.setRemove (RunningSet.keyOf kind) [id])).2 := by
  have hcalled := called_callStore s (.setRemove (RunningSet.keyOf kind) [id])
  have hm := MemoryStore.membersAt_remove s.store s.clock (RunningSet.keyOf kind) id
  rw [← hcalled.members h.quiet] at hm
  have hone := h.members.filter (· ≠ id)
  have hnone : [id].filter (fun text => decide (text ≠ id)) = [] := by simp
  rw [hr, hnone] at hone
  have hfrees : Apart kind [] s (s.callStore (.setRemove (RunningSet.keyOf kind) [id])).2 :=
    Freeing.frees (c := .setRemove (RunningSet.keyOf kind) [id]) trivial hcalled
  have h' := h.apart hfrees (List.nil_subset _)
  exact ⟨h'.quiet, h'.unscheduled, hm.trans hone, h'.left, h'.waiting, h'.named, h'.cleared⟩

theorem unit_taken (h : g.Holds kind s) (fails : Nat → Option WorkError) :
    { g with left := g.left - 1 }.Holds kind (s.takeUnit kind fails).2 := by
  obtain ⟨_, hleft, loads, hs⟩ := s.takeUnit_spec kind fails
  rw [h.left] at hleft
  rw [hs] at hleft ⊢
  exact ⟨h.quiet, h.unscheduled, h.members, hleft, h.waiting, h.named, h.cleared⟩

theorem unmarked (h : g.Holds kind s) (ha : g.active = [id]) :
    { g with ended := id :: g.ended, active := [] }.Holds kind
      (s.callStore (.delete (Liveness.key id))).2 := by
  have hcalled := called_callStore s (.delete (Liveness.key id))
  have hfrees : Apart kind [] s (s.callStore (.delete (Liveness.key id))).2 :=
    Freeing.frees (c := .delete (Liveness.key id)) trivial hcalled
  have h' := h.apart hfrees (List.nil_subset _)
  have hself : ¬ Marked (s.callStore (.delete (Liveness.key id))).2 id := by
    intro hmark
    refine (hcalled.marked h.quiet).mp hmark ?_
    exact (MemoryStore.live?_erase).trans (if_pos rfl)
  refine ⟨h'.quiet, h'.unscheduled, h'.members, h'.left, h'.waiting, h'.named,
    fun id' hid' hmark => ?_⟩
  have hne : id' ≠ id := by
    rintro rfl
    exact hself hmark
  have hmem := List.mem_of_ne_of_mem hne hid'
  refine (h'.cleared id' hmem hmark).imp_left fun hactive => ?_
  change id' ∈ g.active at hactive
  rw [ha] at hactive
  exact absurd (List.mem_singleton.mp hactive) hne

end Standing.Holds

/-! ### Steps -/

variable {α : Type} {g : Standing} {lt : LocalTransport} {P : Machine → Prop}

/-- What a thread leads to whatever happens apart from the jobs of the kind. -/
abbrev Leads (kind : String) (x : Thread Q ρ α) (post : α → Machine → Prop) (s : Machine) : Prop :=
  Ensures (Apart kind []) (fun _ => True) x post s

theorem leads_within {x : Thread Q ρ α} (hx : Within (Apart kind ids) x) (h : g.Holds kind s)
    (hi : ids ⊆ g.active) : Leads kind x (fun _ s' => g.Holds kind s') s := by
  refine ensures_of_within (T := Apart kind ids) hx (fun _ _ ha => ha.mono (List.nil_subset _))
    (fun _ _ ha => ha) fun s' ha => ?_
  exact ⟨trivial, fun _ => h.apart ha hi⟩

theorem leads_call {c : StoreCall} {f : c.Answer → Attempt (Thread Q ρ) α}
    (hcall : ∀ s₁, Apart kind [] s s₁ → g.Holds kind (s₁.callStore c).2)
    (hf : ∀ a, Within (Apart kind g.active) (f a).run) :
    Leads kind ((callStore c : Attempt (Thread Q ρ) c.Answer) >>= f).run
      (fun _ s' => g.Holds kind s') s := by
  refine ensures_run_bind (ensures_callStore fun s₁ hr₁ => ⟨trivial, fun s₂ hr₂ => ⟨trivial, ?_⟩⟩)
  have h₂ := (hcall s₁ hr₁).aside hr₂
  cases (s₁.callStore c).1 with
  | error f => exact ensures_done fun s₃ hr₃ => ⟨trivial, h₂.aside hr₃⟩
  | ok a => exact leads_within (hf a) h₂ (List.Subset.refl _)

theorem leads_push (lt : LocalTransport) (h : g.Holds kind s) (hk : job.kind = kind)
    (hn : job.scheduledAt = none) (hid : ∃ n, job.id = jobIdOf n) :
    Leads kind (lt.push job : Thread Q ρ String)
      (fun _ s' => { g with waiting := g.waiting + 1 }.Holds kind s') s := by
  have hlive : Within (Apart kind [job.id]) (lt.markLive job.id : Thread Q ρ Unit) :=
    LocalTransport.within_markLive
      (fun s c hk hc => apart_of_livenessKey (called_callStore s c) hk hc) lt
  refine LocalTransport.ensures_push_unscheduled (T := Apart kind [job.id]) hn
    (fun _ _ ha => ha.mono (List.nil_subset _)) hlive fun s₁ hr₁ s₂ hr₂ => ?_
  refine ⟨trivial, fun s₃ hr₃ => ⟨trivial, ?_⟩⟩
  have hactive : { g with active := job.id :: g.active }.Holds kind s₂ :=
    ((h.aside hr₁).widen (List.subset_cons_self _ _)).apart hr₂
      (List.cons_subset_cons _ (List.nil_subset _))
  have hpushed := hactive.push (job.stamped s₁.clock) hk hid rfl
  exact hpushed.aside hr₃

theorem leads_dequeue (h : g.Holds kind s) (ha : g.active = []) :
    Leads kind (dequeue kind : Thread Q ρ (Option Job)) (fun
      | none => fun s' => g.waiting = 0 ∧ g.Holds kind s'
      | some job => fun s' => (∃ n, job.id = jobIdOf n) ∧ ∃ waiting, g.waiting = waiting + 1 ∧
          { g with waiting, active := [job.id] }.Holds kind s') s := by
  refine ensures_dequeue fun s₁ hr₁ s₂ hr₂ => ⟨trivial, fun s₃ hr₃ => ⟨trivial, fun s₄ hr₄ => ?_⟩⟩
  have h₃ : g.Holds kind s₃ := (((h.aside hr₁).aside hr₂).promoted s₁.clock).aside hr₃
  have hwaiting := h₃.waiting
  refine ⟨trivial, ?_⟩
  rw [Queue.pop_fst]
  cases hj : s₃.queue.readyJobs kind with
  | nil =>
    rw [hj, List.length_nil] at hwaiting
    have hpop : (s₃.queue.pop kind).2 = s₃.queue := by
      unfold Queue.pop
      rw [hj]
    rw [hpop] at hr₄
    exact ⟨hwaiting.symm, h₃.aside hr₄⟩
  | cons job rest =>
    rw [hj, List.length_cons] at hwaiting
    have h₄ := (h₃.pop hj).aside hr₄
    rw [ha, ← hwaiting, Nat.add_sub_cancel] at h₄
    refine ⟨h₃.named job ?_, rest.length, hwaiting.symm, h₄⟩
    rw [hj]
    exact List.mem_cons_self

/-! ### One job -/

namespace Worker

variable {w : Worker (Thread Q ρ)} {d : Dispatcher (Thread Q ρ)} {args : List Json}

theorem leads_remaining (hw : w.Works kind most fails) (h : g.Holds kind s) (args : List Json) :
    Leads kind (w.load.remaining args) (fun left s' => left = g.left ∧ g.Holds kind s') s := by
  rw [hw.load]
  refine ensures_step fun s₁ hr₁ => ⟨trivial, fun s₂ hr₂ => ⟨trivial, ?_, ?_⟩⟩
  · exact (h.aside hr₁).left
  · exact (h.aside hr₁).aside hr₂

theorem leads_work (hw : w.Works kind most fails) (h : g.Holds kind s) (args : List Json) :
    Leads kind (w.load.work args) (fun result s' =>
      result = .of (Chains.taken fails g.left) ∧ { g with left := g.left - 1 }.Holds kind s') s := by
  rw [hw.load]
  refine ensures_step fun s₁ hr₁ => ⟨trivial, fun s₂ hr₂ => ⟨trivial, ?_, ?_⟩⟩
  · rw [(s₁.takeUnit_spec kind fails).1, (h.aside hr₁).left]
  · exact ((h.aside hr₁).unit_taken fails).aside hr₂

theorem leads_registerRunning [LawfulNames] (hw : w.Works kind most fails) (h : g.Holds kind s)
    (hr : g.running = []) (ha : g.active = [id]) (he : ∀ id ∈ g.ended, ∃ n, id = jobIdOf n) :
    Leads kind (w.registerRunning id) (fun _ s' => { g with running := [id] }.Holds kind s') s := by
  have hregister : Leads kind (w.running.register id).run
      (fun _ s' => { g with running := [id] }.Holds kind s') s := by
    unfold RunningSet.register
    rw [hw.key]
    refine leads_call (fun s₁ hr₁ => (h.aside hr₁).registered hr he) fun _ => ?_
    rw [ha]
    cases hp : w.running.probe with
    | none => exact .done _
    | some p => exact hw.started p hp id
  exact hregister.orNote _ _

theorem leads_removeRunning (hw : w.Works kind most fails) (h : g.Holds kind s)
    (hr : g.running = [id]) (ha : g.active = [id]) :
    Leads kind (w.removeRunning id) (fun _ s' => { g with running := [] }.Holds kind s') s := by
  have hremove : Leads kind (w.running.remove id).run
      (fun _ s' => { g with running := [] }.Holds kind s') s := by
    unfold RunningSet.remove
    rw [hw.key]
    refine leads_call (fun s₁ hr₁ => (h.aside hr₁).removed hr) fun _ => ?_
    rw [ha]
    cases hp : w.running.probe with
    | none => exact .done _
    | some p => exact hw.finished p hp id
  exact hremove.orNote _ _

theorem leads_finish (hw : w.Works kind most fails) (h : g.Holds kind s) (hr : g.running = [id])
    (ha : g.active = [id]) (args : List Json) (result : WorkEnd) :
    Leads kind (w.finish id args result) (fun _ s' => { g with running := [] }.Holds kind s') s := by
  refine ensures_bind ((leads_within (within_tally _) h (List.nil_subset _)).mono ?_)
  intro _ s₁ _ h₁
  refine ensures_bind ((leads_removeRunning hw h₁ hr ha).mono fun _ s₂ _ h₂ => ?_)
  exact leads_within (within_reportMetrics hw.serves args) h₂ (List.nil_subset _)

theorem leads_reEnqueue (hw : w.Works kind most fails) (ht : w.transport = lt.toTransport)
    (h : g.Holds kind s) (args : List Json) :
    Leads kind (w.reEnqueue args).run (fun r s' => (∃ again, r = .ok again) ∧
      { g with waiting := Chains.next none g.left g.waiting }.Holds kind s') s := by
  have hkind : w.kind = kind := hw.serves.loadKind
  rw [reEnqueue_run]
  refine ensures_bind ((leads_remaining hw h args).mono ?_)
  rintro left s₁ _ ⟨rfl, h₁⟩
  split
  · next hl =>
    have hnext : Chains.next none g.left g.waiting = g.waiting := by rw [hl, Chains.next_zero]
    rw [hnext]
    exact ensures_done fun s₂ hr₂ => ⟨trivial, ⟨_, rfl⟩, h₁.aside hr₂⟩
  · next hl =>
    rw [Chains.next_none hl, ht, hkind]
    refine ensures_bind (ensures_step fun s₂ hr₂ => ⟨trivial, fun s₃ hr₃ => ⟨trivial, ?_⟩⟩)
    have h₃ := ((h₁.aside hr₂).aside (apart_issued s₂)).aside hr₃
    have hpush : Leads kind (lt.push (Job.create kind args (jobIdOf s₂.issued)) : Thread Q ρ String)
        (fun _ s' => { g with waiting := g.waiting + 1 }.Holds kind s') s₃ :=
      leads_push lt h₃ rfl rfl ⟨_, rfl⟩
    refine ensures_run_lift (hpush.mono fun _ s₄ _ h₄ => ?_)
    exact ensures_done fun s₅ hr₅ => ⟨trivial, ⟨_, rfl⟩, h₄.aside hr₅⟩

/-- What a handler says of a job that ended like that. -/
def haltOf (kind id : String) : Option WorkError → Except Halt Unit
  | none => .ok ()
  | some e => .error (.fault (Fault.workFailed kind id e))

theorem leads_conclude (hw : w.Works kind most fails) (ht : w.transport = lt.toTransport)
    (h : g.Holds kind s) (args : List Json) (end' : Option WorkError) :
    Leads kind (w.conclude id args (.of end')).run (fun r s' =>
      r.map (fun _ => ()) = haltOf kind id end' ∧
        { g with waiting := Chains.next end' g.left g.waiting }.Holds kind s') s := by
  have hkind : w.kind = kind := hw.serves.loadKind
  cases end' with
  | none =>
    refine ensures_run_bind ((leads_reEnqueue hw ht h args).lasting.mono ?_)
    rintro r s₁ _ hl
    obtain ⟨_, ⟨again, rfl⟩, _⟩ := hl s₁ (refl_of (Apart kind []) s₁)
    exact ensures_done fun s₂ hr₂ => ⟨trivial, rfl, (hl s₂ hr₂).2.2⟩
  | some e =>
    rw [Chains.next_some]
    unfold WorkEnd.of conclude
    simp only [run_bind_liftM]
    refine ensures_bind ((leads_within (within_tally _) h (List.nil_subset _)).mono ?_)
    intro _ s₁ _ h₁
    refine ensures_bind ((leads_within (within_note _) h₁ (List.nil_subset _)).mono ?_)
    intro _ s₂ _ h₂
    refine ensures_done fun s₃ hr₃ => ⟨trivial, ?_, h₂.aside hr₃⟩
    rw [hkind]
    rfl

theorem leads_perform [LawfulNames] (hw : w.Works kind most fails) (ht : w.transport = lt.toTransport)
    (hmost : 1 ≤ most) (h : g.Holds kind s) (hr : g.running = []) (ha : g.active = [id])
    (he : ∀ id ∈ g.ended, ∃ n, id = jobIdOf n) (args : List Json) :
    Leads kind (w.perform id args).run (fun r s' =>
      r.map (fun _ => ()) = haltOf kind id (Chains.taken fails g.left) ∧
        { g with
          left := g.left - 1
          waiting := Chains.next (Chains.taken fails g.left) (g.left - 1) g.waiting }.Holds kind s')
      s := by
  have hroom : Leads kind w.hasCapacity (fun room s' => room = true ∧ g.Holds kind s') s := by
    refine ensures_hasCapacity hw.serves fun s₁ hr₁ => ?_
    have h₁ := h.aside hr₁
    have hnone := h₁.members.length_le
    rw [hr, List.length_nil] at hnone
    refine ⟨h₁.quiet, trivial, fun s₂ hr₂ => ⟨trivial, ?_, h₁.aside hr₂⟩⟩
    rw [signed_of_lt (by omega), decide_eq_true_eq]
    omega
  rw [perform_run]
  refine ensures_bind (hroom.mono ?_)
  rintro room s₁ _ ⟨rfl, h₁⟩
  rw [if_pos rfl]
  unfold start
  refine ensures_bind ((leads_registerRunning hw h₁ hr ha he).mono fun _ s₂ _ h₂ => ?_)
  refine ensures_bind ((leads_work hw h₂ args).mono ?_)
  rintro result s₃ _ ⟨rfl, h₃⟩
  refine ensures_bind ((leads_finish hw h₃ rfl ha args _).mono fun _ s₄ _ h₄ => ?_)
  have hg : ({ g with running := [], left := g.left - 1 } : Standing) =
      { g with left := g.left - 1 } := by
    rw [← hr]
  have h₄ : { g with left := g.left - 1 }.Holds kind s₄ := hg ▸ h₄
  exact leads_conclude hw ht h₄ args _

theorem leads_settle (d : Dispatcher (Thread Q ρ)) {l : Liveness} (hl : d.liveness = some l)
    (h : g.Holds kind s) (ha : g.active = [job.id]) (end' : Option WorkError) :
    Leads kind (d.settle job (haltOf kind job.id end')) (fun r s' =>
      r = .ok (Dispatch.of kind (job.id, end')) ∧
        { g with ended := job.id :: g.ended, active := [] }.Holds kind s') s := by
  have hclear : Leads kind (d.clearLiveness job)
      (fun _ s' => { g with ended := job.id :: g.ended, active := [] }.Holds kind s') s := by
    unfold Dispatcher.clearLiveness
    rw [hl]
    refine Ensures.orNote (leads_call (fun s₁ hr₁ => ?_) fun _ => .done _) _ _
    exact (h.aside hr₁).unmarked ha
  cases end' with
  | none =>
    refine ensures_bind (hclear.mono fun _ s₁ _ h₁ => ?_)
    exact ensures_done fun s₂ hr₂ => ⟨trivial, rfl, h₁.aside hr₂⟩
  | some e =>
    refine ensures_bind (hclear.mono fun _ s₁ _ h₁ => ?_)
    exact ensures_done fun s₂ hr₂ => ⟨trivial, rfl, h₁.aside hr₂⟩

/-- What one dispatch leads to when no job is active: nothing if no job waits. -/
def Turned (kind : String) (fails : Nat → Option WorkError) (g : Standing) (r : Except Halt Dispatch)
    (s : Machine) : Prop :=
  match g.waiting with
  | 0 => r = .ok .idle ∧ g.Holds kind s
  | waiting + 1 => ∃ n, r = .ok (Dispatch.of kind (jobIdOf n, Chains.taken fails g.left)) ∧
      { g with
        left := g.left - 1
        waiting := Chains.next (Chains.taken fails g.left) (g.left - 1) waiting
        ended := jobIdOf n :: g.ended }.Holds kind s

theorem leads_runNext [LawfulNames] (hw : w.Works kind most fails) (ht : w.transport = lt.toTransport)
    (hd : d.handlers.get? kind = some w.handle) {l : Liveness} (hl : d.liveness = some l)
    (hmost : 1 ≤ most) (h : g.Holds kind s) (hr : g.running = []) (ha : g.active = [])
    (he : ∀ id ∈ g.ended, ∃ n, id = jobIdOf n) :
    Leads kind (d.runNext kind).run (Turned kind fails g) s := by
  refine Dispatcher.ensures_runNext hd fun s₁ hr₁ => ?_
  refine Dispatcher.ensures_dispatchTo (leads_dequeue (h.aside hr₁) ha) ?_ ?_
  · rintro s₂ ⟨hwaiting, h₂⟩
    refine ensures_done fun s₃ hr₃ => ⟨trivial, ?_⟩
    rw [Turned, hwaiting]
    exact ⟨rfl, h₂.aside hr₃⟩
  · rintro job s₂ ⟨⟨n, hn⟩, waiting, hwaiting, h₂⟩
    have hexecute : Leads kind (d.execute w.handle job) (fun r s' =>
        r = haltOf kind job.id (Chains.taken fails g.left) ∧
          { g with
            left := g.left - 1
            waiting := Chains.next (Chains.taken fails g.left) (g.left - 1) waiting
            active := [job.id] }.Holds kind s') s₂ := by
      refine Dispatcher.ensures_execute fun s₃ hr₃ => ensures_run_bind ?_
      have hperform := leads_perform hw ht hmost (h₂.aside hr₃) hr rfl he job.args
      refine hperform.lasting.mono ?_
      rintro (f | out) s₄ _ hl
      · exact ensures_done hl
      · exact ensures_done hl
    refine ensures_bind (hexecute.mono ?_)
    rintro _ s₃ _ ⟨rfl, h₃⟩
    refine (leads_settle d hl h₃ rfl _).mono ?_
    rintro _ s₄ _ ⟨rfl, h₄⟩
    rw [Turned, hwaiting, ha]
    rw [hn] at h₄ ⊢
    exact ⟨n, rfl, h₄⟩

end Worker

end Turnstile
