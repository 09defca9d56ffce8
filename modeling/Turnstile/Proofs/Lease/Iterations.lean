import Turnstile.Lease.Batch
import Turnstile.Proofs.Engine.Scene

/-!
# Where a bounded loop ends

A loop ends after the first step that leaves no work, fails, or is followed by a reading of the clock
that shows that time is up; or else at its limit. What a step does and answers, and where it leaves the
clock, is up to the step and its host.
-/

namespace Turnstile.LoopBounds

open Thread

variable {Q ρ : Type} {b : LoopBounds} {h : Host Q ρ} {step : Task (Thread Q ρ) Bool}
  {t : Scene Q ρ} {start : Instant}

/-! ### Rounds -/

/-- What the last of so many steps in a row has answered, and the scene that it has left. -/
def rounds (h : Host Q ρ) (step : Task (Thread Q ρ) Bool) (t : Scene Q ρ) :
    Nat → Except Halt Bool × Scene Q ρ
  | 0 => (.ok true, t)
  | n + 1 => step.run.play h (rounds h step t n).2

/-- A loop that began at `t` ends after so many steps. What is held against the time allowed is the
difference of the two clock readings in nanoseconds (`Instant.timeLeft_of_plain`). -/
def Ends (b : LoopBounds) (h : Host Q ρ) (step : Task (Thread Q ρ) Bool) (t : Scene Q ρ) (n : Nat) :
    Prop :=
  (rounds h step t n).1 ≠ .ok true ∨
    b.timeout ≤ t.machine.clock.timeLeft (rounds h step t n).2.machine.clock ∨ n = b.limit

/-- What a loop notes when it ends after so many steps, the last of which has answered and left a
scene. -/
def closing (b : LoopBounds) (start : Instant) (n : Nat) (t : Scene Q ρ) :
    Except Halt Bool → Scene Q ρ
  | .error _ => t
  | .ok false => { t with machine := t.machine.addRecord (.notice (.loopFinished n)) }
  | .ok true =>
    if b.timeout ≤ start.timeLeft t.machine.clock then
      { t with machine := t.machine.addRecord (.notice (.loopTimedOut n b.timeout)) }
    else { t with machine := t.machine.addRecord (.notice (.loopLimitReached b.limit)) }

theorem log_closing (b : LoopBounds) (start : Instant) (n : Nat) (t : Scene Q ρ)
    (r : Except Halt Bool) : (b.closing start n t r).log = t.log := by
  rcases r with e | _ | _
  · rfl
  · rfl
  · simp only [closing]
    split <;> rfl

/-- The answer of a loop that began at `t` and ends after so many steps, and the scene that it leaves. -/
def outcome (b : LoopBounds) (h : Host Q ρ) (step : Task (Thread Q ρ) Bool) (t : Scene Q ρ) (n : Nat) :
    Except Halt Bool × Scene Q ρ :=
  ((rounds h step t n).1.map (!·),
    b.closing t.machine.clock n (rounds h step t n).2 (rounds h step t n).1)

theorem outcome_eq_ok_iff (b : LoopBounds) {n : Nat} {finished : Bool} :
    (b.outcome h step t n).1 = .ok finished ↔ (rounds h step t n).1 = .ok (!finished) := by
  simp only [outcome]
  rcases (rounds h step t n).1 with e | more
  · simp [Except.map]
  · cases finished <;> simp [Except.map]

theorem outcome_eq_error_iff (b : LoopBounds) {n : Nat} {e : Halt} :
    (b.outcome h step t n).1 = .error e ↔ (rounds h step t n).1 = .error e := by
  simp only [outcome]
  cases (rounds h step t n).1 <;> simp [Except.map]

/-! ### One step -/

theorem play_steps_zero (done : Nat) : (b.steps start step done 0).run.play h t =
    (.ok false, { t with machine := t.machine.addRecord (.notice (.loopLimitReached b.limit)) }) :=
  rfl

theorem play_steps_succ (done left : Nat) :
    (b.steps start step done (left + 1)).run.play h t =
      match step.run.play h t with
      | (.ok true, t') =>
        if b.timeout ≤ start.timeLeft t'.machine.clock then
          (.ok false, b.closing start (done + 1) t' (.ok true))
        else (b.steps start step (done + 1) left).run.play h t'
      | (r, t') => (r.map (!·), b.closing start (done + 1) t' r) := by
  rw [steps, ExceptT.run_bind, play_bind]
  rcases step.run.play h t with ⟨e | _ | _, t'⟩
  · rfl
  · rfl
  · change Thread.play h (ExceptT.run (if b.timeout ≤ start.timeLeft t'.machine.clock then _ else _))
      t' = _
    by_cases hover : b.timeout ≤ start.timeLeft t'.machine.clock
    · simp only [closing, if_pos hover]
      rfl
    · simp only [if_neg hover]

theorem rounds_succ (n : Nat) :
    rounds h step t (n + 1) = step.run.play h (rounds h step t n).2 := rfl

theorem play_steps_of_ends {done left : Nat} (hl : done + (left + 1) = b.limit)
    (hend : b.Ends h step t (done + 1)) :
    (b.steps t.machine.clock step done (left + 1)).run.play h (rounds h step t done).2 =
      b.outcome h step t (done + 1) := by
  rw [play_steps_succ, ← rounds_succ, outcome]
  unfold Ends at hend
  generalize rounds h step t (done + 1) = last at hend ⊢
  rcases last with ⟨e | _ | _, t'⟩
  · rfl
  · rfl
  · by_cases hover : b.timeout ≤ t.machine.clock.timeLeft t'.machine.clock
    · simp only [if_pos hover]
      rfl
    · have hlast : left = 0 := by
        simp only [ne_eq, not_true, hover, false_or] at hend
        omega
      subst hlast
      simp only [play_steps_zero, closing, if_neg hover]
      rfl

theorem play_steps_of_open {done left : Nat} (hopen : ¬ b.Ends h step t (done + 1)) :
    (b.steps t.machine.clock step done (left + 1)).run.play h (rounds h step t done).2 =
      (b.steps t.machine.clock step (done + 1) left).run.play h (rounds h step t (done + 1)).2 := by
  rw [play_steps_succ, ← rounds_succ]
  unfold Ends at hopen
  generalize rounds h step t (done + 1) = last at hopen ⊢
  rcases last with ⟨e | _ | _, t'⟩
  · simp at hopen
  · simp at hopen
  · simp only [not_or] at hopen
    simp only [if_neg hopen.2.1]

/-! ### The whole loop -/

/-- A loop that has not ended by now ends after the first of the steps to come after which it may. -/
theorem play_steps (left done : Nat) (hl : done + (left + 1) = b.limit)
    (hopen : ∀ j, 1 ≤ j → j ≤ done → ¬ b.Ends h step t j) :
    ∃ k, done < k ∧ k ≤ b.limit ∧ b.Ends h step t k ∧
      (∀ j, 1 ≤ j → j < k → ¬ b.Ends h step t j) ∧
      (b.steps t.machine.clock step done (left + 1)).run.play h (rounds h step t done).2 =
        b.outcome h step t k := by
  induction left generalizing done with
  | zero =>
    have hend : b.Ends h step t (done + 1) := Or.inr (Or.inr hl)
    refine ⟨done + 1, by omega, by omega, hend, ?_, play_steps_of_ends hl hend⟩
    intro j hj hlt
    exact hopen j hj (by omega)
  | succ left ih =>
    by_cases hend : b.Ends h step t (done + 1)
    · refine ⟨done + 1, by omega, by omega, hend, ?_, play_steps_of_ends hl hend⟩
      intro j hj hlt
      exact hopen j hj (by omega)
    · obtain ⟨k, hk, hlimit, hends, hfirst, hplay⟩ := ih (done + 1) (by omega) (by
        intro j hj hle
        by_cases hlast : j = done + 1
        · rw [hlast]
          exact hend
        · exact hopen j hj (by omega))
      exact ⟨k, by omega, hlimit, hends, hfirst, (play_steps_of_open hend).trans hplay⟩

/-- Whatever program the step is, the loop ends after the first time that it may. -/
theorem play_run (b : LoopBounds) (h : Host Q ρ) (step : Task (Thread Q ρ) Bool) (t : Scene Q ρ)
    (hlimit : 0 < b.limit) :
    ∃ k, 1 ≤ k ∧ k ≤ b.limit ∧ b.Ends h step t k ∧
      (∀ j, 1 ≤ j → j < k → ¬ b.Ends h step t j) ∧
      (b.run step).run.play h t = b.outcome h step t k := by
  have hrun : (b.run step).run.play h t =
      (b.steps t.machine.clock step 0 b.limit).run.play h t := by
    unfold run
    rw [if_neg (by omega)]
    rfl
  obtain ⟨left, hleft⟩ : ∃ left, b.limit = left + 1 := ⟨b.limit - 1, by omega⟩
  have hopen (j : Nat) (hj : 1 ≤ j) (hzero : j ≤ 0) : ¬ b.Ends h step t j := by omega
  obtain ⟨k, hk, hle, hends, hfirst, hplay⟩ :=
    play_steps left 0 (by rw [hleft, Nat.zero_add]) hopen
  rw [← hleft] at hplay
  exact ⟨k, hk, hle, hends, hfirst, hrun.trans hplay⟩

theorem play_run_of_zero (hlimit : b.limit = 0) :
    (b.run step).run.play h t = (.error (.fault Fault.zeroLoopLimit),
      { t with machine := t.machine.addTally (.fault Fault.zeroLoopLimit.code) }) := by
  unfold run
  rw [if_pos hlimit]
  rfl

/-! ### Steps of any kind -/

/-- A step that does what its host likes. -/
def anyStep : Task (Thread Unit (Except Halt Bool)) Bool := ExceptT.mk (ask ())

theorem length_log_rounds (h : Host Unit (Except Halt Bool)) (t : Scene Unit (Except Halt Bool))
    (n : Nat) : (rounds h anyStep t n).2.log.length = t.log.length + n := by
  induction n with
  | zero => rfl
  | succ n ih =>
    change ((rounds h anyStep t n).2.asked h ()).log.length = _
    simp only [Scene.asked, List.length_append, List.length_singleton, ih]
    omega

/-- A loop with a limit runs its step until the first time that it may end, and answers by the last step
whether work is left. Without one it runs no step. -/
theorem run_ends_first (b : LoopBounds) (h : Host Unit (Except Halt Bool))
    (t : Scene Unit (Except Halt Bool)) :
    (b.limit = 0 → ∃ t', (b.run anyStep).run.play h t = (.error (.fault Fault.zeroLoopLimit), t') ∧
      Fault.zeroLoopLimit.code = .invalidInput ∧ t'.log = t.log) ∧
    (0 < b.limit → ∃ k answer t', (b.run anyStep).run.play h t = (answer, t') ∧
      1 ≤ k ∧ k ≤ b.limit ∧ b.Ends h anyStep t k ∧
      (∀ j, 1 ≤ j → j < k → ¬ b.Ends h anyStep t j) ∧
      t' = b.closing t.machine.clock k (rounds h anyStep t k).2 (rounds h anyStep t k).1 ∧
      t'.log = (rounds h anyStep t k).2.log ∧ t'.log.length = t.log.length + k ∧
      (answer = .ok true ↔ (rounds h anyStep t k).1 = .ok false) ∧
      (answer = .ok false ↔ ∀ j, 1 ≤ j → j ≤ k → (rounds h anyStep t j).1 = .ok true) ∧
      ∀ e, answer = .error e ↔ (rounds h anyStep t k).1 = .error e) := by
  constructor
  · intro hlimit
    exact ⟨_, play_run_of_zero hlimit, rfl, rfl⟩
  · intro hlimit
    obtain ⟨k, hk, hle, hends, hfirst, hplay⟩ := b.play_run h anyStep t hlimit
    have hlog := b.log_closing t.machine.clock k (rounds h anyStep t k).2 (rounds h anyStep t k).1
    have hopen (j : Nat) (hj : 1 ≤ j) (hlt : j < k) : (rounds h anyStep t j).1 = .ok true := by
      by_contra hstop
      exact hfirst j hj hlt (Or.inl hstop)
    refine ⟨k, _, _, hplay, hk, hle, hends, hfirst, rfl, hlog, ?_, b.outcome_eq_ok_iff, ?_,
      fun _ => b.outcome_eq_error_iff⟩
    · rw [hlog, length_log_rounds]
    · refine b.outcome_eq_ok_iff.trans ?_
      constructor
      · intro hlast j hj hle
        by_cases hjk : j = k
        · rw [hjk]
          exact hlast
        · exact hopen j hj (by omega)
      · intro hall
        exact hall k hk (le_refl k)

/-- The clock goes back in the first step, and time is up in the second one, which leaves no work. -/
theorem run_ends_first_of_two :
    let b : LoopBounds := { limit := 3, timeout := Duration.ofSeconds 10 }
    let h : Host Unit (Except Halt Bool) := fun t _ =>
      if t.log.length = 0 then (.ok true, { t.machine with clock := ⟨-5, 0⟩ })
      else (.ok false, { t.machine with clock := ⟨20, 0⟩ })
    ∃ t', (b.run anyStep).run.play h (.ofMachine (Machine.ofClock Instant.epoch)) = (.ok true, t') ∧
      t'.log.length = 2 := by
  intro b h
  obtain ⟨k, answer, t', hplay, hk, _, hends, hfirst, _, _, hlength, htrue, _, _⟩ :=
    (run_ends_first b h (.ofMachine (Machine.ofClock Instant.epoch))).2 (by decide)
  have hopen : ¬ b.Ends h anyStep (.ofMachine (Machine.ofClock Instant.epoch)) 1 := by
    rintro (hwork | htime | hlimit)
    · exact hwork rfl
    · exact absurd htime (by decide)
    · exact absurd hlimit (by decide)
  have hend : b.Ends h anyStep (.ofMachine (Machine.ofClock Instant.epoch)) 2 := Or.inl nofun
  have htwo : k = 2 := by
    rcases Nat.lt_trichotomy k 2 with hlt | heq | hgt
    · have hone : k = 1 := by omega
      subst hone
      exact absurd hends hopen
    · exact heq
    · exact absurd hend (hfirst 2 (by decide) hgt)
  subst htwo
  rw [htrue.mpr rfl] at hplay
  exact ⟨t', hplay, hlength⟩

end Turnstile.LoopBounds
