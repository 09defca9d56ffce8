import Turnstile.Proofs.Lease.Pace

/-!
# One batch task at a time

Batch tasks on one key run their steps one task at a time as long as the steps come to their ends
soon enough: a lease has to last for the time until the loop begins, for the time-out of the loop, and
for one step more.
-/

namespace Turnstile.BatchTask

open Thread (Timeline)

variable {κ : Type} [DecidableEq κ] {task : κ → BatchTask} {key : String} {m : Moment κ}
  {earlier moments : List (Moment κ)} {who : κ}

/-! ### Tasks that come to their steps -/

/-- What a task does whose first step has begun. -/
def begun (t : BatchTask) (start : Instant) (l : Lease) :
    Thread Unit (Except Halt Bool) (Except Halt Bool) :=
  (t.bounds.steps start (ExceptT.mk (Thread.ask ())) 0 t.bounds.limit).run >>= fun outcome =>
    LockPlan.giveUp l >>= fun _ => .done outcome

theorem inStep_begun {t : BatchTask} (hlimit : t.bounds.limit ≠ 0) (start : Instant) (l : Lease) :
    InStep (t.begun start l) := by
  obtain ⟨left, hleft⟩ := Nat.exists_eq_succ_of_ne_zero hlimit
  rw [begun, hleft, Nat.succ_eq_add_one, steps_succ]
  exact ⟨_, rfl⟩

section

variable [Machine.Names]

/-- What is new after a task has taken its lease and come to its first step. -/
structure Entered (t : BatchTask) (who : κ) (m m' : Moment κ) : Prop where
  log : m'.log = ⟨m.machine.clock, who,
    .setIfAbsent t.leaseKey (Machine.tokenOf m.machine.issued) t.lock.ttl, .ok true⟩ :: m.log
  readings : m'.readings = Function.update m.readings who (m.machine.clock :: m.readings who)
  threads : m'.threads = Function.update m.threads who (t.begun m.machine.clock
    { key := t.leaseKey, token := Machine.tokenOf m.machine.issued, ttl := t.lock.ttl })
  quiet : m'.machine.Quiet
  issued : m'.machine.issued = m.machine.issued + 1
  store : m'.machine.store = Keyed.insert m.machine.store t.leaseKey
    (Slot.ofToken (Machine.tokenOf m.machine.issued) (m.machine.clock.deadline? t.lock.ttl))

/-- The course of a task that gets its lease with the first attempt. -/
theorem process_of_taken (t : BatchTask) (hne : t.leaseKey.isEmpty = false)
    (hlimit : t.bounds.limit ≠ 0) :
    ∃ next, t.process = .step (fun s => { s with issued := s.issued + 1 }) next ∧ ∀ s : Machine,
      ∃ next', next s =
        .call (.setIfAbsent t.leaseKey (Machine.tokenOf s.issued) t.lock.ttl) next' ∧
        next' (.ok true) = tally (.leaseAttempt .acquired) >>= fun _ =>
          note (.lockObtained t.leaseKey false) >>= fun _ => now >>= fun start =>
            t.begun start
              { key := t.leaseKey, token := Machine.tokenOf s.issued, ttl := t.lock.ttl } := by
  rw [process_eq, LockPlan.run_bind]
  refine ⟨_, rfl, fun s => ?_⟩
  simp only [hne, Bool.false_eq_true, if_false, LoopBounds.run, hlimit]
  cases t.lock.retries <;> exact ⟨_, rfl, rfl⟩

/-- A task that finds its key free comes to its first step while the clock stands still. -/
theorem Runs.enters (h : Runs task key (m :: earlier)) (who : κ) (hkey : (task who).leaseKey = key)
    (hne : key.isEmpty = false) (hlimit : (task who).bounds.limit ≠ 0)
    (hw : m.threads who = (task who).process) (hq : m.machine.Quiet)
    (hfree : m.machine.store.live? m.machine.clock key = none) :
    ∃ m' between, Runs task key (m' :: (between ++ m :: earlier)) ∧
      (∀ m₁ ∈ m' :: between, m₁.machine.clock = m.machine.clock) ∧ Entered (task who) who m m' := by
  subst hkey
  obtain ⟨next, hprocess, hnext⟩ := (task who).process_of_taken hne hlimit
  obtain ⟨next', hcall, htaken⟩ := hnext m.machine
  have h1 := Timeline.turn h (.step who (hw.trans hprocess) Thread.not_reads_fresh)
  obtain ⟨s', he, hstore, hquiet, hobserved⟩ := Machine.callStore_spec
    (s := { m.machine with issued := m.machine.issued + 1 }) hq
    (.setIfAbsent (task who).leaseKey (Machine.tokenOf m.machine.issued) (task who).lock.ttl)
  rcases m.machine.store.call_setIfAbsent m.machine.clock (task who).leaseKey
    (Machine.tokenOf m.machine.issued) (task who).lock.ttl with ⟨_, hfound⟩ | ⟨slot, hslot, _⟩
  · rw [hfound] at he hstore
    have h2 := h1.turn (.called who ((Function.update_self ..).trans hcall) he)
    have h3 := h2.turn (.step who ((Function.update_self ..).trans htaken) (Thread.not_reads_tally _))
    have h4 := h3.turn (.step who (Function.update_self ..) (Thread.not_reads_record _))
    have h5 := h4.turn (.read who (Function.update_self ..))
    refine ⟨_, [_, _, _, _], h5, ?_, ?_⟩
    · have hclock : s'.clock = m.machine.clock := hobserved.clock
      simp only [List.forall_mem_cons]
      exact ⟨hclock, hclock, hclock, hclock, trivial, nofun⟩
    · refine ⟨rfl, ?_, ?_, hquiet, hobserved.issued, hstore⟩
      · rw [← hobserved.clock]
        rfl
      · simp only [Function.update_idem]
        rw [← hobserved.clock]
        rfl
  · rw [hfree] at hslot
    cases hslot

/-- If its first step finds no work left, a task returns while the clock stands still. -/
theorem Runs.returns (h : Runs task key (m :: earlier)) (who : κ)
    (hlimit : (task who).bounds.limit ≠ 0) {start : Instant} {l : Lease}
    (hw : m.threads who = (task who).begun start l) (hq : m.machine.Quiet) :
    ∃ m' between, Runs task key (m' :: (between ++ m :: earlier)) ∧
      (∀ m₁ ∈ m' :: between, m₁.machine.clock = m.machine.clock) ∧
      (∀ other, LockPlan.takings m'.log other = LockPlan.takings m.log other) ∧
      m'.readings = m.readings ∧ m'.machine.issued = m.machine.issued ∧
      m'.threads = Function.update m.threads who (.done (.ok true)) := by
  obtain ⟨left, hleft⟩ := Nat.exists_eq_succ_of_ne_zero hlimit
  rw [begun, hleft, Nat.succ_eq_add_one, steps_succ] at hw
  have h1 := Timeline.turn h (.answer who (.ok false) hw)
  have h2 := h1.turn (.step who (Function.update_self ..) (Thread.not_reads_record _))
  obtain ⟨s', he, hstore, hquiet, hobserved⟩ := Machine.callStore_spec
    (s := m.machine.addRecord (.notice (.loopFinished 1))) hq (.deleteIfEq l.key l.token)
  obtain ⟨b, hb⟩ : ∃ b, (m.machine.store.call m.machine.clock (.deleteIfEq l.key l.token)).1 =
      .ok b := by
    simp only [MemoryStore.call, MemoryStore.deleteIfEq]
    split <;> exact ⟨_, rfl⟩
  have hanswer := he.trans (congrArg (·, s') hb)
  have h3 := h2.turn (.called who (Function.update_self ..) hanswer)
  have hclock : s'.clock = m.machine.clock := hobserved.clock
  refine ⟨_, [_, _], h3, ?_, fun other => ?_, rfl, hobserved.issued, ?_⟩
  · simp only [List.forall_mem_cons]
    exact ⟨hclock, rfl, trivial, fun _ hm => absurd hm List.not_mem_nil⟩
  · exact LockPlan.takings_cons_of_not fun hmade => Bool.false_ne_true hmade.2
  · simp only [Function.update_idem]
    rfl

/-- A task whose first step goes on until its lease is over meets another one there. -/
theorem meet (task : Bool → BatchTask) (key : String) (hkey : ∀ who, (task who).leaseKey = key)
    (hne : key.isEmpty = false) (hlimit : ∀ who, (task who).bounds.limit ≠ 0) {t u d : Instant}
    (htu : t ≤ u) (hd : t.deadline? (task true).lock.ttl = some d) (hdu : d ≤ u) :
    ∃ m earlier, Runs task key (m :: earlier) ∧
      (∀ m' ∈ m :: earlier, m'.machine.clock = t ∨ m'.machine.clock = u) ∧
      LockPlan.takings m.log = (fun who => if who then [t] else [u]) ∧
      m.readings = (fun who => if who then [t] else [u]) ∧
      (∀ who, ∃ start l, m.threads who = (task who).begun start l) ∧
      m.machine.Quiet ∧ m.machine.issued = 2 := by
  have h0 : Runs task key [⟨[], fun _ => [], fun who => (task who).process, Machine.ofClock t⟩] :=
    .start ⟨fun _ => rfl, rfl⟩
  obtain ⟨m₁, before, h1, hclock, e1⟩ :=
    h0.enters true (hkey true) hne (hlimit true) rfl (fun _ => rfl) rfl
  have ht : m₁.machine.clock = t := hclock m₁ List.mem_cons_self
  have h2 := Timeline.turn h1 (.elsewhere (Machine.elsewhere_clock u (ht.symm ▸ htu)))
  have hprocess : m₁.threads false = (task false).process := by
    rw [e1.threads, Function.update_of_ne Bool.false_ne_true]
  have hfree : m₁.machine.store.live? u key = none := by
    have hover : (Slot.ofToken (Machine.tokenOf 0) (t.deadline? (task true).lock.ttl)).isExpired u =
        true := Slot.isExpired_iff.mpr ⟨d, hd, hdu⟩
    rw [e1.store, MemoryStore.live?_insert, if_pos (hkey true)]
    exact if_pos hover
  obtain ⟨m₃, between, h3, hclock', e3⟩ :=
    Runs.enters h2 false (hkey false) hne (hlimit false) hprocess e1.quiet hfree
  refine ⟨m₃, _, h3, ?_, ?_, ?_, ?_, e3.quiet, ?_⟩
  · intro m' hm
    rcases List.mem_append.mp (show m' ∈ (m₃ :: between) ++ _ from hm) with hm | hm
    · exact Or.inr (hclock' m' hm)
    rcases List.mem_cons.mp hm with rfl | hm
    · exact Or.inr rfl
    rcases List.mem_append.mp (show m' ∈ (m₁ :: before) ++ _ from hm) with hm | hm
    · exact Or.inl (hclock m' hm)
    · rw [List.mem_singleton.mp hm]
      exact Or.inl rfl
  · funext who
    rw [e3.log]
    cases who <;> simp [LockPlan.takings, LockPlan.takes, e1.log, Machine.ofClock]
  · funext who
    rw [e3.readings]
    cases who <;> simp [e1.readings, Machine.ofClock]
  · intro who
    cases who with
    | false => exact ⟨_, _, by rw [e3.threads, Function.update_self]⟩
    | true => exact ⟨_, _, by rw [e3.threads, Function.update_of_ne Bool.false_ne_true.symm,
        e1.threads, Function.update_self]⟩
  · rw [e3.issued]
    exact congrArg Nat.succ e1.issued

/-! ### Tasks apart -/

namespace Runs

/-- At every moment of a run there are blocks in which the tasks are. -/
theorem inv (h : Runs task key (m :: earlier)) (hkey : ∀ who, (task who).leaseKey = key)
    (htokens : ∀ a b, a < m.machine.issued → b < m.machine.issued →
      Machine.tokenOf a = Machine.tokenOf b → a = b) {m' : Moment κ} (hm : m' ∈ m :: earlier) :
    ∃ (blocks : κ → Thread Bool (Except Halt Bool) (Except Fault (Except Halt Bool)))
      (number : κ → Option Nat) (progress : κ → LockPlan.Progress),
      LockPlan.Inv (fun who => (task who).lock) key m'.log blocks m'.machine number progress ∧
      LockPlan.Numbered key m'.log number ∧
      ∀ who, Thread.Fills (blocks who) (m'.threads who) := by
  have hissued := (h.onward m' hm).2
  exact inv_of_interleaved hkey (Timeline.interleaved h hm) fun a b ha hb =>
    htokens a b (Nat.lt_of_lt_of_le ha hissued) (Nat.lt_of_lt_of_le hb hissued)

/-- No other task has been in a step since a task that is in a step took its lease. -/
theorem alone (h : Runs task key (m :: earlier)) (hkey : ∀ who, (task who).leaseKey = key)
    (htokens : ∀ a b, a < m.machine.issued → b < m.machine.issued →
      Machine.tokenOf a = Machine.tokenOf b → a = b) {first pace : κ → Duration}
    (hshort : ∀ who, (first who).nanos + (task who).bounds.timeout.nanos + (pace who).nanos <
      (task who).lock.ttl.nanos)
    (hplain : ∀ m' ∈ m :: earlier, m'.machine.clock.Plain)
    (hpaced : ∀ m' ∈ m :: earlier, ∀ who, Paced (first who) (pace who) who m') {other : κ}
    (hne : who ≠ other) (hin : InStep (m.threads who)) {m' : Moment κ} (hm : m' ∈ m :: earlier)
    (htaken : LockPlan.takings m'.log who ≠ []) : ¬ InStep (m'.threads other) := by
  intro hin'
  obtain ⟨blocks, number, progress, hi, _, hf⟩ := h.inv hkey htokens hm
  have hinside : ∃ t, progress who = .inside t := by
    cases hp : progress who with
    | inside t => exact ⟨t, rfl⟩
    | seeking => exact absurd (hi.untaken who hp) htaken
    | left =>
      have hstands := hi.stands who
      rw [hp] at hstands
      obtain ⟨next, hnext⟩ := hin
      obtain ⟨l, hl⟩ := h.stays_left who m' hm (hstands.left_of_fills (hf who))
      rw [hnext] at hl
      cases hl
  have hinside' : ∃ t, progress other = .inside t := by
    obtain ⟨next, hnext⟩ := hin'
    exact (hi.stands other).inside_of_await (hnext ▸ hf other)
  obtain ⟨t, ht⟩ := hinside
  obtain ⟨t', ht'⟩ := hinside'
  obtain ⟨htakings, hle⟩ := hi.taken who t ht
  obtain ⟨htakings', hle'⟩ := hi.taken other t' ht'
  have hlasts : ∀ d, t.deadline? (task who).lock.ttl = some d → m.machine.clock < d := by
    intro d hd
    have hmem : t ∈ LockPlan.takings m'.log who := by
      rw [htakings]
      exact List.mem_singleton_self t
    have hmem' := (((Timeline.log_suffix h m' hm).filter _).map _).subset hmem
    exact h.lt_deadline List.mem_cons_self hplain (hpaced m List.mem_cons_self who) (hshort who)
      hin hmem' hd
  have hlasts' : ∀ d, t'.deadline? (task other).lock.ttl = some d → m'.machine.clock < d := by
    intro d hd
    have hmem : t' ∈ LockPlan.takings m'.log other := by
      rw [htakings']
      exact List.mem_singleton_self t'
    exact h.lt_deadline hm hplain (hpaced m' hm other) (hshort other) hin' hmem hd
  -- the lease of one of them was over when the other one took its own
  rcases hi.apart who other t t' hne ht ht' with ⟨_, d, hd, hover⟩ | ⟨_, d, hd, hover⟩
  · exact absurd (hlasts d hd) (not_lt_of_ge (le_trans hover (le_trans hle' (h.onward m' hm).1)))
  · exact absurd (hlasts' d hd) (not_lt_of_ge (le_trans hover hle))

theorem taken_of_inStep (h : Runs task key (m :: earlier)) (hkey : ∀ who, (task who).leaseKey = key)
    (htokens : ∀ a b, a < m.machine.issued → b < m.machine.issued →
      Machine.tokenOf a = Machine.tokenOf b → a = b) (hin : InStep (m.threads who)) :
    LockPlan.takings m.log who ≠ [] := by
  obtain ⟨next, hnext⟩ := hin
  obtain ⟨blocks, number, progress, hi, _, hf⟩ := h.inv hkey htokens List.mem_cons_self
  obtain ⟨t, ht⟩ := (hi.stands who).inside_of_await (hnext ▸ hf who)
  rw [(hi.taken who t ht).1]
  exact List.cons_ne_nil _ _

/-- The token of a task that has ended, however it did, is not the one that holds the key. -/
theorem released (h : Runs task key (m :: earlier)) (hkey : ∀ who, (task who).leaseKey = key)
    (htokens : ∀ a b, a < m.machine.issued → b < m.machine.issued →
      Machine.tokenOf a = Machine.tokenOf b → a = b) {r : Except Halt Bool}
    (hdone : m.threads who = .done r) {made : Thread.Made κ} (hmade : made ∈ m.log)
    (hwho : made.who = who) {token : String} {ttl : Duration}
    (hcall : made.call = .setIfAbsent key token ttl) {slot : Slot}
    (hslot : m.machine.store.live? m.machine.clock key = some slot) : slot.value ≠ .text token := by
  intro hvalue
  obtain ⟨blocks, number, progress, hi, hnumbered, hf⟩ := h.inv hkey htokens List.mem_cons_self
  obtain ⟨n, hn, rfl⟩ := hnumbered made hmade token ttl hcall
  rw [hwho] at hn
  -- whose token the slot has is still inside
  obtain ⟨_, d, ⟨other, n', t, ho, hinside, rfl, _⟩, rfl, _⟩ := (hi.owned slot).mp hslot
  have hsame : n' = n := htokens n' n (hi.bound other n' ho) (hi.bound who n hn)
    (StoredValue.text.inj hvalue)
  subst hsame
  rw [hi.distinct other who n' ho hn] at hinside
  exact (hi.stands who).not_inside_of_done (hdone ▸ hf who) t hinside

end Runs

/-- While a batch task runs its steps, no other task on its key runs one, if the lease lasts for the
time until the loop begins, the time-out of the loop and one step. No task runs a step without having
taken its lease, and whatever a task ends with, its token does not hold the lease any more. -/
theorem steps_apart (task : κ → BatchTask) (key : String)
    (hkey : ∀ who, (task who).leaseKey = key) (m : Moment κ) (earlier : List (Moment κ))
    (h : Runs task key (m :: earlier))
    (htokens : ∀ a b, a < m.machine.issued → b < m.machine.issued →
      Machine.tokenOf a = Machine.tokenOf b → a = b) :
    (∀ first pace : κ → Duration,
      (∀ who, (first who).nanos + (task who).bounds.timeout.nanos + (pace who).nanos <
        (task who).lock.ttl.nanos) →
      (∀ m' ∈ m :: earlier, m'.machine.clock.Plain) →
      (∀ m' ∈ m :: earlier, ∀ who, Paced (first who) (pace who) who m') →
      ∀ who other, who ≠ other → InStep (m.threads who) →
        ∀ m' ∈ m :: earlier, LockPlan.takings m'.log who ≠ [] → ¬ InStep (m'.threads other)) ∧
    (∀ who, InStep (m.threads who) → LockPlan.takings m.log who ≠ []) ∧
    (∀ who r, m.threads who = .done r → ∀ made ∈ m.log, made.who = who →
      ∀ token ttl, made.call = .setIfAbsent key token ttl →
        ∀ slot, m.machine.store.live? m.machine.clock key = some slot →
          slot.value ≠ .text token) := by
  refine ⟨?_, fun _ hin => h.taken_of_inStep hkey htokens hin, ?_⟩
  · intro first pace hshort hplain hpaced who other hne hin m' hm htaken
    exact h.alone hkey htokens hshort hplain hpaced hne hin hm htaken
  · intro who r hdone made hmade hwho token ttl hcall slot hslot
    exact h.released hkey htokens hdone hmade hwho hcall hslot

end

/-- A task of at most one step. -/
def brief (ttl timeout : Duration) : BatchTask :=
  { leaseKey := "k", lock := { LockPlan.default with ttl }, bounds := { limit := 1, timeout } }

/-- A task in its first step, three nanoseconds after it took a lease of ten, keeps the other one
out. -/
theorem steps_apart_of_two :
    ∃ (m : Moment Bool) (earlier : List (Moment Bool)),
      Runs (fun _ => brief ⟨10⟩ ⟨2⟩) "k" (m :: earlier) ∧ m.machine.clock = ⟨0, 3⟩ ∧
        InStep (m.threads true) ∧ LockPlan.takings m.log true ≠ [] ∧
        ¬ InStep (m.threads false) := by
  let task : Bool → BatchTask := fun _ => brief ⟨10⟩ ⟨2⟩
  let m₀ : Moment Bool :=
    ⟨[], fun _ => [], fun who => (task who).process, Machine.ofClock Instant.epoch⟩
  have h0 : Runs task "k" [m₀] := .start ⟨fun _ => rfl, rfl⟩
  obtain ⟨m, between, h1, hclock, e⟩ :=
    h0.enters true rfl (by decide) Nat.one_ne_zero rfl (fun _ => rfl) rfl
  have hepoch : m.machine.clock = Instant.epoch := hclock m List.mem_cons_self
  let m₂ : Moment Bool := { m with machine := { m.machine with clock := ⟨0, 3⟩ } }
  have h2 : Runs task "k" (m₂ :: m :: (between ++ [m₀])) :=
    Timeline.turn h1 (.elsewhere (Machine.elsewhere_clock ⟨0, 3⟩ (by rw [hepoch]; decide)))
  have hin : InStep (m.threads true) := by
    rw [e.threads, Function.update_self]
    exact inStep_begun Nat.one_ne_zero _ _
  have htaken : LockPlan.takings m.log true ≠ [] := by
    rw [e.log]
    exact List.cons_ne_nil _ _
  have htokens : ∀ a < 1, ∀ b < 1, Machine.tokenOf a = Machine.tokenOf b → a = b := by decide
  have hshown : ∀ m' ∈ m₂ :: m :: (between ++ [m₀]),
      m'.machine.clock = Instant.epoch ∨ m'.machine.clock = ⟨0, 3⟩ := by
    intro m' hm
    rcases List.mem_cons.mp hm with rfl | hm
    · exact Or.inr rfl
    rcases List.mem_append.mp (show m' ∈ (m :: between) ++ _ from hm) with hm | hm
    · exact Or.inl (hclock m' hm)
    · rw [List.mem_singleton.mp hm]
      exact Or.inl rfl
  have hpaced : ∀ m' ∈ m₂ :: m :: (between ++ [m₀]), ∀ who, Paced ⟨3⟩ ⟨3⟩ who m' := by
    refine Runs.paced (P := fun t => t = Instant.epoch ∨ t = ⟨0, 3⟩) h2 hshown fun t u ht hu => ?_
    rcases ht with rfl | rfl <;> rcases hu with rfl | rfl <;> decide
  refine ⟨m₂, _, h2, rfl, hin, htaken, ?_⟩
  refine (steps_apart task "k" (fun _ => rfl) _ _ h2 ?_).1 (fun _ => ⟨3⟩) (fun _ => ⟨3⟩) ?_ ?_ hpaced
    true false Bool.false_ne_true.symm hin m₂ List.mem_cons_self htaken
  · intro a b ha hb
    have hissued : m₂.machine.issued = 1 := e.issued
    rw [hissued] at ha hb
    exact htokens a ha b hb
  · exact fun _ => by decide
  · intro m' hm
    rcases hshown m' hm with he | he <;> rw [he] <;> decide

/-- Bounds on the times between readings do not bound a last step, which no reading follows: another
task may then run a step at the same time. The same may come of a lease that is taken in the leap
second of a day, because the next day hides that second from the differences of times. -/
theorem steps_together :
    (∃ (m m' : Moment Bool) (earlier : List (Moment Bool)),
      Runs (fun _ => brief ⟨10⟩ ⟨2⟩) "k" (m :: earlier) ∧
      (∀ m' ∈ m :: earlier, m'.machine.clock.Plain) ∧
      (∀ a b, a < m.machine.issued → b < m.machine.issued →
        Machine.tokenOf a = Machine.tokenOf b → a = b) ∧
      (∀ who, ∀ t ∈ LockPlan.takings m.log who, ∀ start, (m.readings who).getLast? = some start →
        t.timeLeft start ≤ ⟨0⟩) ∧
      (∀ who, (m.readings who).IsChain fun later earlier => earlier.timeLeft later ≤ ⟨3⟩) ∧
      0 + 2 + 3 < 10 ∧ m.threads true = .done (.ok true) ∧
      m' ∈ earlier ∧ InStep (m'.threads true) ∧ InStep (m'.threads false)) ∧
    (∃ (m : Moment Bool) (earlier : List (Moment Bool)),
      Runs (fun _ => brief ⟨500000000⟩ ⟨50000000⟩) "k" (m :: earlier) ∧
      (∀ a b, a < m.machine.issued → b < m.machine.issued →
        Machine.tokenOf a = Machine.tokenOf b → a = b) ∧
      (∀ m' ∈ m :: earlier, ∀ who, Paced ⟨200000000⟩ ⟨200000000⟩ who m') ∧
      200000000 + 50000000 + 200000000 < 500000000 ∧
      InStep (m.threads true) ∧ InStep (m.threads false)) := by
  have htokens : ∀ a < 2, ∀ b < 2, Machine.tokenOf a = Machine.tokenOf b → a = b := by decide
  constructor
  · obtain ⟨m', earlier, h, hclock, htaken, hread, hbegun, hq, hissued⟩ :=
      meet (fun _ => brief ⟨10⟩ ⟨2⟩) "k" (fun _ => rfl) (by decide) (fun _ => Nat.one_ne_zero)
        (t := ⟨0, 0⟩) (u := ⟨0, 20⟩) (d := ⟨0, 10⟩) (by decide) (by decide) (by decide)
    obtain ⟨start, l, htrue⟩ := hbegun true
    obtain ⟨m, between, h', hclock', htaken', hread', hissued', hthreads⟩ :=
      h.returns true Nat.one_ne_zero htrue hq
    have hshown : ∀ m₁ ∈ m :: (between ++ m' :: earlier),
        m₁.machine.clock = ⟨0, 0⟩ ∨ m₁.machine.clock = ⟨0, 20⟩ := by
      intro m₁ hm
      rcases List.mem_append.mp (show m₁ ∈ (m :: between) ++ _ from hm) with hm | hm
      · rw [hclock' m₁ hm]
        exact hclock m' List.mem_cons_self
      · exact hclock m₁ hm
    refine ⟨m, m', between ++ m' :: earlier, h', ?_, ?_, ?_, ?_, by decide, ?_,
      List.mem_append_right _ List.mem_cons_self, ?_, ?_⟩
    · intro m₁ hm
      rcases hshown m₁ hm with he | he <;> rw [he] <;> decide
    · intro a b ha hb
      rw [hissued', hissued] at ha hb
      exact htokens a ha b hb
    · intro who t ht start hs
      rw [htaken', htaken] at ht
      rw [hread', hread] at hs
      cases who <;> cases List.mem_singleton.mp ht <;> cases Option.some.inj hs <;> decide
    · intro who
      rw [hread', hread]
      cases who <;> exact .singleton _
    · rw [hthreads, Function.update_self]
    · rw [htrue]
      exact inStep_begun Nat.one_ne_zero _ _
    · obtain ⟨start', l', hfalse⟩ := hbegun false
      rw [hfalse]
      exact inStep_begun Nat.one_ne_zero _ _
  · obtain ⟨m, earlier, h, hclock, _, _, hbegun, _, hissued⟩ :=
      meet (fun _ => brief ⟨500000000⟩ ⟨50000000⟩) "k" (fun _ => rfl) (by decide) (fun _ => Nat.one_ne_zero)
        (t := ⟨86399, 1000000000⟩) (u := ⟨86400, 200000000⟩) (d := ⟨86399, 1500000000⟩) (by decide)
        (by decide) (by decide)
    have hpaced : ∀ m' ∈ m :: earlier, ∀ who, Paced ⟨200000000⟩ ⟨200000000⟩ who m' := by
      refine h.paced (P := fun t => t = ⟨86399, 1000000000⟩ ∨ t = ⟨86400, 200000000⟩) hclock
        fun t u ht hu => ?_
      rcases ht with rfl | rfl <;> rcases hu with rfl | rfl <;> decide
    have hin : ∀ who, InStep (m.threads who) := by
      intro who
      obtain ⟨start, l, hwho⟩ := hbegun who
      rw [hwho]
      exact inStep_begun Nat.one_ne_zero _ _
    refine ⟨m, earlier, h, ?_, hpaced, by decide, hin true, hin false⟩
    intro a b ha hb
    rw [hissued] at ha hb
    exact htokens a ha b hb

end Turnstile.BatchTask
