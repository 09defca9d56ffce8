import Turnstile.Proofs.Engine.Moments

/-!
# Timelines of threads

A timeline is a run with all the moments that it came by. Each moment also has what the clock showed
the threads that read it, so that bounds on the time a thread takes can be told.
-/

namespace Turnstile.Thread

variable {Q ρ α : Type} {κ : Type}

/-! ### Reading the clock -/

/-- A thread whose next step is to read the clock. -/
def Reads (x : Thread Q ρ α) : Prop := ∃ f : Instant → Thread Q ρ α, x = now >>= f

/-- A step that changes some machine is no reading. -/
theorem not_reads {effect : Machine → Machine} {next : Machine → Thread Q ρ α} {s : Machine}
    (h : effect s ≠ s) : ¬ Reads (.step effect next) := by
  rintro ⟨f, hf⟩
  have hkept : effect = fun s => s := (Thread.step.inj hf).1
  exact h (congrFun hkept s)

section

variable {next : Machine → Thread Q ρ α}

theorem not_reads_record (r : JournalRecord) : ¬ Reads (.step (fun s => s.addRecord r) next) :=
  not_reads (s := Machine.ofClock Instant.epoch) fun h =>
    List.cons_ne_self r _ (congrArg Machine.journal h)

theorem not_reads_tally (t : Tally) : ¬ Reads (.step (fun s => s.addTally t) next) := by
  refine not_reads (s := Machine.ofClock Instant.epoch) fun h => ?_
  have hm : MetricValues.empty.add t = MetricValues.empty := congrArg Machine.metrics h
  unfold MetricValues.add at hm
  split at hm
  · cases congrArg MetricValues.observations hm
  · cases congrArg MetricValues.counters hm

theorem not_reads_fresh :
    ¬ Reads (.step (fun s : Machine => { s with issued := s.issued + 1 }) next) :=
  not_reads (s := Machine.ofClock Instant.epoch) fun h =>
    Nat.succ_ne_self 0 (congrArg Machine.issued h)

/-- Even a wait of no time leaves a span and enters it again. -/
theorem not_reads_wait (d : Duration) : ¬ Reads (.step (fun s => s.wait d) next) :=
  not_reads (s := { Machine.ofClock Instant.epoch with spans := [LogSpan.runNext ""] }) fun h =>
    nomatch congrArg Machine.journal h

end

/-! ### Moments -/

/-- How far a run has come. -/
structure Moment (κ Q ρ α : Type) where
  /-- The calls so far, the newest first. -/
  log : List (Made κ)
  /-- What the clock has shown each thread, the newest reading first. -/
  readings : κ → List Instant
  threads : κ → Thread Q ρ α
  machine : Machine

variable [DecidableEq κ]

/-- What becomes of a moment when one thread takes its next step, or something happens elsewhere. -/
inductive Turn (elsewhere : Machine → Machine → Prop) (m : Moment κ Q ρ α) :
    Moment κ Q ρ α → Prop
  | call (who : κ) {c : StoreCall} {next : Except Fault c.Answer → Thread Q ρ α}
      (hw : m.threads who = call c next) :
      Turn elsewhere m
        { m with
          log := ⟨m.machine.clock, who, c, (m.machine.callStore c).1⟩ :: m.log
          threads := Function.update m.threads who (next (m.machine.callStore c).1)
          machine := (m.machine.callStore c).2 }
  | read (who : κ) {f : Instant → Thread Q ρ α} (hw : m.threads who = now >>= f) :
      Turn elsewhere m
        { m with
          readings := Function.update m.readings who (m.machine.clock :: m.readings who)
          threads := Function.update m.threads who (f m.machine.clock) }
  | step (who : κ) {effect : Machine → Machine} {next : Machine → Thread Q ρ α}
      (hw : m.threads who = step effect next) (hr : ¬ Reads (step effect next)) :
      Turn elsewhere m
        { m with
          threads := Function.update m.threads who (next m.machine)
          machine := effect m.machine }
  | answer (who : κ) {q : Q} {next : ρ → Thread Q ρ α} (r : ρ) (hw : m.threads who = await q next) :
      Turn elsewhere m { m with threads := Function.update m.threads who (next r) }
  | elsewhere {s : Machine} (he : elsewhere m.machine s) : Turn elsewhere m { m with machine := s }

/-- A call whose answer is known. -/
theorem Turn.called {elsewhere : Machine → Machine → Prop} {m : Moment κ Q ρ α} {s' : Machine}
    (who : κ) {c : StoreCall} {next : Except Fault c.Answer → Thread Q ρ α}
    {r : Except Fault c.Answer} (hw : m.threads who = .call c next)
    (hc : m.machine.callStore c = (r, s')) :
    Turn elsewhere m
      { m with
        log := ⟨m.machine.clock, who, c, r⟩ :: m.log
        threads := Function.update m.threads who (next r)
        machine := s' } := by
  have hcall : Turn elsewhere m _ := .call who hw
  rw [hc] at hcall
  exact hcall

/-- The moments of a run, the newest first. -/
inductive Timeline (init : κ → Thread Q ρ α) (starts : Machine → Prop)
    (elsewhere : Machine → Machine → Prop) : List (Moment κ Q ρ α) → Prop
  | start {s : Machine} (hs : starts s) :
      Timeline init starts elsewhere [⟨[], fun _ => [], init, s⟩]
  | turn {m m' : Moment κ Q ρ α} {earlier : List (Moment κ Q ρ α)}
      (h : Timeline init starts elsewhere (m :: earlier)) (ht : Turn elsewhere m m') :
      Timeline init starts elsewhere (m' :: m :: earlier)

variable {init : κ → Thread Q ρ α} {starts : Machine → Prop} {elsewhere : Machine → Machine → Prop}
  {m m' : Moment κ Q ρ α} {earlier moments : List (Moment κ Q ρ α)}

namespace Timeline

/-- What holds at first and is kept by every turn holds at all moments. -/
theorem all {P : Moment κ Q ρ α → Prop} (h : Timeline init starts elsewhere moments)
    (hstart : ∀ s, starts s → P ⟨[], fun _ => [], init, s⟩)
    (hturn : ∀ m ∈ moments, ∀ m', P m → Turn elsewhere m m' → P m') : ∀ m ∈ moments, P m := by
  induction h with
  | start hs =>
    intro m hm
    rw [List.mem_singleton.mp hm]
    exact hstart _ hs
  | @turn m m' earlier h ht ih =>
    have hearlier := ih fun m₀ hm₀ => hturn m₀ (List.mem_cons_of_mem _ hm₀)
    intro m₀ hm
    rcases List.mem_cons.mp hm with rfl | hold
    · exact hturn m (List.mem_cons_of_mem _ List.mem_cons_self) _ (hearlier m List.mem_cons_self) ht
    · exact hearlier m₀ hold

theorem interleaved (h : Timeline init starts elsewhere moments) (hm : m ∈ moments) :
    Interleaved init starts elsewhere m.log m.threads m.machine := by
  refine h.all (P := fun m => Interleaved init starts elsewhere m.log m.threads m.machine)
    (fun s hs => .start hs) (fun m _ m' hi ht => ?_) m hm
  cases ht with
  | call who hw => exact hi.call who hw
  | read who hw => exact hi.step who hw
  | step who hw hr => exact hi.step who hw
  | answer who r hw => exact hi.answer who r hw
  | elsewhere he => exact hi.elsewhere he

/-- What holds of every thread at first, and of what a thread becomes with each step that it takes,
holds of all threads together with their own readings. -/
theorem own {P : κ → List Instant → Thread Q ρ α → Prop}
    (h : Timeline init starts elsewhere moments) (hinit : ∀ who, P who [] (init who))
    (hcall : ∀ who readings c next, P who readings (.call c next) → ∀ r, P who readings (next r))
    (hread : ∀ who readings f, P who readings (now >>= f) → ∀ t, P who (t :: readings) (f t))
    (hstep : ∀ who readings effect next, P who readings (.step effect next) →
      ¬ Reads (.step effect next) → ∀ s, P who readings (next s))
    (hanswer : ∀ who readings q next, P who readings (.await q next) →
      ∀ r, P who readings (next r)) :
    ∀ m ∈ moments, ∀ who, P who (m.readings who) (m.threads who) := by
  have hupdate {m : Moment κ Q ρ α} {who : κ} {x : Thread Q ρ α}
      (hp : ∀ who, P who (m.readings who) (m.threads who)) (hx : P who (m.readings who) x) :
      ∀ other, P other (m.readings other) (Function.update m.threads who x other) :=
    (Function.forall_update_iff m.threads fun other => P other (m.readings other)).mpr
      ⟨hx, fun other _ => hp other⟩
  refine h.all (P := fun m => ∀ who, P who (m.readings who) (m.threads who)) (fun _ _ => hinit) ?_
  intro m _ m' hp ht
  cases ht with
  | call who hw => exact hupdate hp (hcall _ _ _ _ (hw ▸ hp who) _)
  | read who hw =>
    intro other
    by_cases ho : other = who
    · subst ho
      simp only [Function.update_self]
      exact hread _ _ _ (hw ▸ hp other) _
    · simp only [Function.update_of_ne ho]
      exact hp other
  | step who hw hr => exact hupdate hp (hstep _ _ _ _ (hw ▸ hp who) hr _)
  | answer who r hw => exact hupdate hp (hanswer _ _ _ _ (hw ▸ hp who) r)
  | elsewhere => exact hp

/-- What every turn does to a moment, a run does to each moment that it has left. -/
theorem since {R : Moment κ Q ρ α → Moment κ Q ρ α → Prop} (hrefl : ∀ m, R m m)
    (htrans : ∀ m m' m'', R m m' → R m' m'' → R m m'')
    (h : Timeline init starts elsewhere (m :: earlier))
    (hturn : ∀ m₁ ∈ m :: earlier, ∀ m₂, Turn elsewhere m₁ m₂ → R m₁ m₂) :
    ∀ m' ∈ m :: earlier, R m' m := by
  generalize hall : m :: earlier = moments at h
  induction h generalizing m earlier with
  | start hs =>
    cases hall
    intro m' hm
    rw [List.mem_singleton.mp hm]
    exact hrefl _
  | @turn m₁ m₂ rest h ht ih =>
    cases hall
    intro m' hm
    rcases List.mem_cons.mp hm with rfl | hold
    · exact hrefl _
    · have hbefore := ih (fun m₃ hm₃ => hturn m₃ (List.mem_cons_of_mem _ hm₃)) rfl m' hold
      have hlast := hturn m₁ (List.mem_cons_of_mem _ List.mem_cons_self) m₂ ht
      exact htrans _ _ _ hbefore hlast

theorem log_suffix (h : Timeline init starts elsewhere (m :: earlier)) :
    ∀ m' ∈ m :: earlier, m'.log <:+ m.log := by
  refine h.since (R := fun m' m => m'.log <:+ m.log) (fun m => List.suffix_refl _)
    (fun _ _ _ => List.IsSuffix.trans) ?_
  intro m₁ _ m₂ ht
  cases ht with
  | call => exact List.suffix_cons _ _
  | read => exact List.suffix_refl _
  | step => exact List.suffix_refl _
  | answer => exact List.suffix_refl _
  | elsewhere => exact List.suffix_refl _

/-- What a thread does not lose with any step of its own it does not lose at all. -/
theorem stays {P : Thread Q ρ α → Prop} (h : Timeline init starts elsewhere (m :: earlier))
    (hcall : ∀ c next, P (.call c next) → ∀ r, P (next r))
    (hstep : ∀ effect next, P (.step effect next) → ∀ s, P (next s))
    (hanswer : ∀ q next, P (.await q next) → ∀ r, P (next r)) (who : κ) :
    ∀ m' ∈ m :: earlier, P (m'.threads who) → P (m.threads who) := by
  have hupdate {m : Moment κ Q ρ α} {mover : κ} {x : Thread Q ρ α}
      (hx : P (m.threads mover) → P x) (hp : P (m.threads who)) :
      P (Function.update m.threads mover x who) := by
    by_cases ho : who = mover
    · subst ho
      rw [Function.update_self]
      exact hx hp
    · rw [Function.update_of_ne ho]
      exact hp
  refine h.since (R := fun m' m => P (m'.threads who) → P (m.threads who)) (fun _ => id)
    (fun _ _ _ h h' hp => h' (h hp)) ?_
  intro m₁ _ m₂ ht
  cases ht with
  | call mover hw => exact hupdate fun hp => hcall _ _ (hw ▸ hp) _
  | read mover hw => exact hupdate fun hp => hstep _ _ (hw ▸ hp) _
  | step mover hw hr => exact hupdate fun hp => hstep _ _ (hw ▸ hp) _
  | answer mover r hw => exact hupdate fun hp => hanswer _ _ (hw ▸ hp) r
  | elsewhere => exact id

/-- The times of the calls and the readings are times that the clock has shown. -/
theorem clocked {P : Instant → Prop} (h : Timeline init starts elsewhere moments)
    (hclock : ∀ m ∈ moments, P m.machine.clock) :
    ∀ m ∈ moments, (∀ made ∈ m.log, P made.time) ∧ ∀ who, ∀ t ∈ m.readings who, P t := by
  refine h.all (fun _ _ => ⟨fun _ hm => absurd hm List.not_mem_nil,
    fun _ _ ht => absurd ht List.not_mem_nil⟩) ?_
  rintro m hm m' ⟨hlog, hreadings⟩ ht
  cases ht with
  | call =>
    refine ⟨fun made hmade => ?_, hreadings⟩
    rcases List.mem_cons.mp hmade with rfl | hold
    · exact hclock m hm
    · exact hlog made hold
  | read who hw =>
    refine ⟨hlog, fun other t ht => ?_⟩
    by_cases ho : other = who
    · subst ho
      simp only [Function.update_self] at ht
      rcases List.mem_cons.mp ht with rfl | hold
      · exact hclock m hm
      · exact hreadings other t hold
    · simp only [Function.update_of_ne ho] at ht
      exact hreadings other t ht
  | step => exact ⟨hlog, hreadings⟩
  | answer => exact ⟨hlog, hreadings⟩
  | elsewhere => exact ⟨hlog, hreadings⟩

end Timeline

end Turnstile.Thread
