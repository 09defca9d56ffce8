import Turnstile.Proofs.Engine.Timeline
import Turnstile.Proofs.Lease.Loops

/-!
# The pace of batch tasks

A batch task begins a step only if there was time left when it last read the clock. So its steps are
over before its lease is, as long as the loop begins soon enough and no step takes too long.
-/

namespace Turnstile.BatchTask

open Thread (Reads Timeline)

variable {κ : Type} {β : Type} {key : String} {timeout : Duration} {readings : List Instant}

abbrev Moment (κ : Type) : Type := Thread.Moment κ Unit (Except Halt Bool) (Except Halt Bool)

/-! ### The clock readings of a loop -/

/-- A loop goes on after its first reading of the clock, and while there was time left at its newest
one. -/
def Timely (timeout : Duration) (readings : List Instant) : Prop :=
  ∃ start last, readings.getLast? = some start ∧ readings.head? = some last ∧
    (last = start ∨ start.timeLeft last < timeout)

/-- The steps of a thread begin in time, and but by calls it does nothing to the key or the clock. -/
def Orderly (key : String) (timeout : Duration) :
    List Instant → Thread Unit (Except Halt Bool) β → Prop
  | _, .done _ => True
  | readings, .call _ next => ∀ r, Orderly key timeout readings (next r)
  | readings, .step effect next => ∀ s : Machine, s.Elsewhere key (effect s) ∧
    (Reads (.step effect next) → Orderly key timeout (s.clock :: readings) (next s)) ∧
    (¬ Reads (.step effect next) → Orderly key timeout readings (next s))
  | readings, .await _ next => Timely timeout readings ∧ ∀ r, Orderly key timeout readings (next r)

section

variable {next : Machine → Thread Unit (Except Halt Bool) β}

theorem orderly_step {effect : Machine → Machine} (he : ∀ s : Machine, s.Elsewhere key (effect s))
    (hr : ¬ Reads (.step effect next)) (hn : ∀ s, Orderly key timeout readings (next s)) :
    Orderly key timeout readings (.step effect next) :=
  fun s => ⟨he s, fun h => absurd h hr, fun _ => hn s⟩

theorem orderly_record {r : JournalRecord} (hn : ∀ s, Orderly key timeout readings (next s)) :
    Orderly key timeout readings (.step (fun s => s.addRecord r) next) := by
  refine orderly_step (fun s => ?_) (Thread.not_reads_record r) hn
  have hidle : s.Idle (s.addRecord r) := ⟨rfl, rfl, rfl, rfl⟩
  exact hidle.elsewhere key

theorem orderly_tally {t : Tally} (hn : ∀ s, Orderly key timeout readings (next s)) :
    Orderly key timeout readings (.step (fun s => s.addTally t) next) := by
  refine orderly_step (fun s => ?_) (Thread.not_reads_tally t) hn
  have hidle : s.Idle (s.addTally t) := ⟨rfl, rfl, rfl, rfl⟩
  exact hidle.elsewhere key

theorem orderly_wait {d : Duration} (hn : ∀ s, Orderly key timeout readings (next s)) :
    Orderly key timeout readings (.step (fun s => s.wait d) next) :=
  orderly_step (fun s => (s.idle_wait d).elsewhere key) (Thread.not_reads_wait d) hn

theorem orderly_fresh (hn : ∀ s, Orderly key timeout readings (next s)) :
    Orderly key timeout readings (.step (fun s => { s with issued := s.issued + 1 }) next) :=
  orderly_step (fun _ => ⟨le_refl _, Nat.le_succ _, id, fun _ _ => rfl⟩) Thread.not_reads_fresh hn

theorem orderly_read {f : Instant → Thread Unit (Except Halt Bool) β}
    (hf : ∀ t, Orderly key timeout (t :: readings) (f t)) :
    Orderly key timeout readings (now >>= f) := by
  intro s
  have hidle : s.Idle s := ⟨rfl, rfl, rfl, rfl⟩
  exact ⟨hidle.elsewhere key, fun _ => hf s.clock, fun h => absurd ⟨f, rfl⟩ h⟩

end

theorem orderly_acquire (plan : LockPlan) (l : Lease) (attempt retries : Nat)
    {f : Except Fault Nat → Thread Unit (Except Halt Bool) β}
    (h : ∀ r, Orderly key timeout readings (f r)) :
    Orderly key timeout readings ((plan.acquire l attempt retries).run >>= f) := by
  induction retries generalizing attempt with
  | zero =>
    rintro (e | _ | _)
    · exact h _
    · exact orderly_tally fun _ => orderly_tally fun _ => h _
    · exact orderly_tally fun _ => h _
  | succ retries ih =>
    rintro (e | _ | _)
    · exact h _
    · exact orderly_tally fun _ => orderly_wait fun _ => ih (attempt + 1)
    · exact orderly_tally fun _ => h _

theorem orderly_giveUp (l : Lease) {f : Unit → Thread Unit (Except Halt Bool) β}
    (h : Orderly key timeout readings (f ())) :
    Orderly key timeout readings (LockPlan.giveUp l >>= f) := by
  rintro (e | _)
  · exact orderly_record fun _ => h
  · exact h

/-- The loop begins a step only when time is left since its first reading. -/
theorem orderly_steps (b : LoopBounds) (start : Instant) (done left : Nat)
    {g : Except Halt Bool → Thread Unit (Except Halt Bool) β}
    (hstart : readings.getLast? = some start) (ht : Timely b.timeout readings)
    (h : ∀ r readings, Orderly key b.timeout readings (g r)) :
    Orderly key b.timeout readings
      ((b.steps start (ExceptT.mk (Thread.ask ())) done left).run >>= g) := by
  induction left generalizing done readings with
  | zero => exact orderly_record fun _ => h _ _
  | succ left ih =>
    rw [steps_succ]
    refine ⟨ht, ?_⟩
    rintro (e | _ | _)
    · exact h _ _
    · exact orderly_record fun _ => h _ _
    · refine orderly_read fun t => ?_
      split
      · exact orderly_record fun _ => h _ _
      · next htime =>
        have hlast : (t :: readings).getLast? = some start := by
          rw [List.getLast?_cons, hstart]
          rfl
        exact ih (done + 1) hlast ⟨start, t, hlast, rfl, Or.inr (Nat.lt_of_not_le htime)⟩

theorem orderly_run (b : LoopBounds) {g : Except Halt Bool → Thread Unit (Except Halt Bool) β}
    (h : ∀ r readings, Orderly key b.timeout readings (g r)) :
    Orderly key b.timeout [] ((b.run (ExceptT.mk (Thread.ask ()))).run >>= g) := by
  unfold LoopBounds.run
  split
  · exact orderly_tally fun _ => h _ _
  · refine orderly_read
      (f := fun start => (b.steps start (ExceptT.mk (Thread.ask ())) 0 b.limit).run >>= g)
      fun start => ?_
    exact orderly_steps b start 0 b.limit rfl ⟨start, start, rfl, rfl, Or.inl rfl⟩ h

theorem orderly_process [Machine.Names] (t : BatchTask) :
    Orderly key t.bounds.timeout [] t.process := by
  rw [process_eq, LockPlan.run_bind]
  refine orderly_fresh fun s => ?_
  split
  · exact orderly_tally fun _ => trivial
  · refine orderly_acquire _ _ _ _ ?_
    rintro (f | attempts)
    · exact trivial
    · exact orderly_record fun _ => orderly_run t.bounds fun _ _ => orderly_giveUp _ trivial

/-! ### The time that a task takes -/

section

variable [DecidableEq κ] {task : κ → BatchTask} {m : Moment κ} {earlier moments : List (Moment κ)}
  {who : κ} {first pace : Duration}

/-- The runs of batch tasks on one key, which nobody else writes. -/
def Runs [Machine.Names] (task : κ → BatchTask) (key : String) : List (Moment κ) → Prop :=
  Timeline (fun who => (task who).process) (fun s => s.Quiet ∧ s.store.live? s.clock key = none)
    (Machine.Elsewhere key)

/-- Bounds on the time that a task takes from its lease to the first reading of its loop, and from
each reading to the end of the step that follows. -/
structure Paced (first pace : Duration) (who : κ) (m : Moment κ) : Prop where
  first : ∀ t ∈ LockPlan.takings m.log who, ∀ start, (m.readings who).getLast? = some start →
    t.timeLeft start ≤ first
  step : InStep (m.threads who) → ∀ last, (m.readings who).head? = some last →
    last.timeLeft m.machine.clock ≤ pace

namespace Runs

variable [Machine.Names]

theorem orderly (h : Runs task key moments) : ∀ m ∈ moments, ∀ who,
    Orderly key (task who).bounds.timeout (m.readings who) (m.threads who) :=
  h.own (P := fun who => Orderly key (task who).bounds.timeout)
    (fun who => (task who).orderly_process) (fun _ _ _ _ hn => hn)
    (fun _ _ f hf t => (hf (Machine.ofClock t)).2.1 ⟨f, rfl⟩)
    (fun _ _ _ _ hn hr s => (hn s).2.2 hr) (fun _ _ _ _ hn => hn.2)

/-- Neither the clock nor the count of names goes back. -/
theorem onward (h : Runs task key (m :: earlier)) : ∀ m' ∈ m :: earlier,
    m'.machine.clock ≤ m.machine.clock ∧ m'.machine.issued ≤ m.machine.issued := by
  refine Timeline.since (R := fun m' m => m'.machine.clock ≤ m.machine.clock ∧
    m'.machine.issued ≤ m.machine.issued) (fun _ => ⟨le_refl _, Nat.le_refl _⟩)
    (fun _ _ _ h h' => ⟨le_trans h.1 h'.1, Nat.le_trans h.2 h'.2⟩) h ?_
  intro m₁ hm m₂ ht
  cases ht with
  | @call who c next hw =>
    have hobserved := m₁.machine.observed_callStore c
    exact ⟨ge_of_eq hobserved.clock, Nat.le_of_eq hobserved.issued.symm⟩
  | step who hw hr =>
    have ho := h.orderly m₁ hm who
    rw [hw] at ho
    obtain ⟨he, _⟩ := ho m₁.machine
    exact ⟨he.clock, he.issued⟩
  | read => exact ⟨le_refl _, Nat.le_refl _⟩
  | answer => exact ⟨le_refl _, Nat.le_refl _⟩
  | elsewhere he => exact ⟨he.clock, he.issued⟩

/-- A task that has given its lease up does not take another one. -/
theorem stays_left (h : Runs task key (m :: earlier)) (who : κ) : ∀ m' ∈ m :: earlier,
    (∃ l, LockPlan.Follows l .left (m'.threads who)) →
      ∃ l, LockPlan.Follows l .left (m.threads who) := by
  refine Timeline.stays (P := fun x => ∃ l, LockPlan.Follows l .left x) h ?_ ?_ ?_ who
  · rintro c next ⟨l, hl⟩
    cases hl
  · rintro effect next ⟨l, hl⟩ s
    exact ⟨l, hl.of_step.2 s⟩
  · rintro q next ⟨l, hl⟩
    cases hl

/-- While the clock shows no two times that are far apart, every task keeps pace. -/
theorem paced (h : Runs task key moments) {P : Instant → Prop}
    (hshown : ∀ m ∈ moments, P m.machine.clock)
    (hclose : ∀ t u, P t → P u → t.timeLeft u ≤ pace) :
    ∀ m ∈ moments, ∀ who, Paced pace pace who m := by
  intro m hm who
  obtain ⟨hmade, hread⟩ := h.clocked hshown m hm
  constructor
  · intro t ht start hstart
    obtain ⟨made, hmem, rfl⟩ := List.mem_map.mp ht
    exact hclose _ _ (hmade made (List.mem_of_mem_filter hmem))
      (hread who start (List.mem_of_mem_getLast? hstart))
  · intro _ last hlast
    exact hclose _ _ (hread who last (List.mem_of_mem_head? hlast)) (hshown m hm)

/-- The lease of a task outlasts its steps. -/
theorem lt_deadline (h : Runs task key moments) (hm : m ∈ moments)
    (hplain : ∀ m ∈ moments, m.machine.clock.Plain) (hp : Paced first pace who m)
    (hshort : first.nanos + (task who).bounds.timeout.nanos + pace.nanos <
      (task who).lock.ttl.nanos) (hin : InStep (m.threads who)) {t d : Instant}
    (ht : t ∈ LockPlan.takings m.log who) (hd : t.deadline? (task who).lock.ttl = some d) :
    m.machine.clock < d := by
  obtain ⟨next, hnext⟩ := hin
  have ho := h.orderly m hm who
  rw [hnext] at ho
  obtain ⟨start, last, hstart, hlast, htime⟩ := ho.1
  obtain ⟨hmade, hread⟩ := h.clocked hplain m hm
  have hct : t.Plain := by
    obtain ⟨made, hmem, rfl⟩ := List.mem_map.mp ht
    exact hmade made (List.mem_of_mem_filter hmem)
  have hcstart := hread who start (List.mem_of_mem_getLast? hstart)
  have hclast := hread who last (List.mem_of_mem_head? hlast)
  have hc := hplain m hm
  obtain ⟨hcd, hdn⟩ := Instant.plain_of_deadline? hct hd
  have h1 : (t.timeLeft start).nanos ≤ first.nanos := hp.first t ht start hstart
  have h2 : (start.timeLeft last).nanos ≤ (task who).bounds.timeout.nanos := by
    rcases htime with rfl | hlt
    · rw [Instant.timeLeft_of_plain hclast hclast, Int.sub_self]
      exact Nat.zero_le _
    · exact Nat.le_of_lt hlt
  have h3 : (last.timeLeft m.machine.clock).nanos ≤ pace.nanos := hp.step ⟨next, hnext⟩ last hlast
  rw [Instant.timeLeft_of_plain hct hcstart] at h1
  rw [Instant.timeLeft_of_plain hcstart hclast] at h2
  rw [Instant.timeLeft_of_plain hclast hc] at h3
  rw [← not_le, Instant.le_iff_toNanos_le hcd hc]
  omega

end Runs

end

end Turnstile.BatchTask
