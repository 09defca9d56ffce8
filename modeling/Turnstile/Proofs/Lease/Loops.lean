import Turnstile.Lease.Batch
import Turnstile.Proofs.Lease.Blocks

/-!
# Loops under a lock

A batch task is a block under a lock with a loop in the place of the block. So a run of batch tasks is
a run of blocks, each of which is open while its loop runs.
-/

namespace Turnstile

theorem Machine.Idle.elsewhere {s s' : Machine} (h : s.Idle s') (key : String) :
    s.Elsewhere key s' := by
  refine ⟨ge_of_eq h.clock, Nat.le_of_eq h.issued.symm, ?_, ?_⟩
  · intro hq method
    rw [h.plans]
    exact hq method
  · intro now _
    rw [h.store]

/-! ### Threads that fill in answers -/

namespace Thread

variable {Q ρ α Q' ρ' β : Type}

/-- `y` does what `x` does; while `x` waits for an answer, `y` goes on by itself, and comes back with
an answer. -/
inductive Fills : Thread Q ρ α → Thread Q' ρ' β → Prop
  | done (a : α) (b : β) : Fills (.done a) (.done b)
  | call {c : StoreCall} {next : Except Fault c.Answer → Thread Q ρ α}
      {next' : Except Fault c.Answer → Thread Q' ρ' β} (hn : ∀ r, Fills (next r) (next' r)) :
      Fills (.call c next) (.call c next')
  | step {effect : Machine → Machine} {next : Machine → Thread Q ρ α}
      {next' : Machine → Thread Q' ρ' β} (hn : ∀ s, Fills (next s) (next' s)) :
      Fills (.step effect next) (.step effect next')
  | aside {q : Q} {next : ρ → Thread Q ρ α} {effect : Machine → Machine}
      {next' : Machine → Thread Q' ρ' β} (he : ∀ s : Machine, s.Idle (effect s))
      (hn : ∀ s, Fills (.await q next) (next' s)) : Fills (.await q next) (.step effect next')
  | ask {q : Q} {next : ρ → Thread Q ρ α} {q' : Q'} {next' : ρ' → Thread Q' ρ' β}
      (hn : ∀ r, Fills (.await q next) (next' r)) : Fills (.await q next) (.await q' next')
  | back {q : Q} {next : ρ → Thread Q ρ α} {y : Thread Q' ρ' β} (r : ρ) (h : Fills (next r) y) :
      Fills (.await q next) y

/-- What becomes of a thread by answers alone. -/
inductive Answered : Thread Q ρ α → Thread Q ρ α → Prop
  | refl (x : Thread Q ρ α) : Answered x x
  | answer {q : Q} {next : ρ → Thread Q ρ α} {x : Thread Q ρ α} (r : ρ) (h : Answered (next r) x) :
      Answered (.await q next) x

variable {x : Thread Q ρ α}

theorem Fills.of_done {b : β} (h : Fills x (.done b : Thread Q' ρ' β)) :
    ∃ a, Answered x (.done a) := by
  generalize hy : (Thread.done b : Thread Q' ρ' β) = y at h
  induction h with
  | done a b => exact ⟨a, .refl _⟩
  | back r h ih =>
    obtain ⟨a, ha⟩ := ih hy
    exact ⟨a, .answer r ha⟩
  | call => cases hy
  | step => cases hy
  | aside => cases hy
  | ask => cases hy

theorem Fills.of_call {c : StoreCall} {next' : Except Fault c.Answer → Thread Q' ρ' β}
    (h : Fills x (.call c next')) :
    ∃ next, Answered x (.call c next) ∧ ∀ r, Fills (next r) (next' r) := by
  generalize hy : Thread.call c next' = y at h
  induction h with
  | call hn =>
    cases hy
    exact ⟨_, .refl _, hn⟩
  | back r h ih =>
    obtain ⟨next, ha, hn⟩ := ih hy
    exact ⟨next, .answer r ha, hn⟩
  | done => cases hy
  | step => cases hy
  | aside => cases hy
  | ask => cases hy

theorem Fills.of_step {effect : Machine → Machine} {next' : Machine → Thread Q' ρ' β}
    (h : Fills x (.step effect next')) :
    (∃ next, Answered x (.step effect next) ∧ ∀ s, Fills (next s) (next' s)) ∨
      ∃ x', Answered x x' ∧ (∀ s : Machine, s.Idle (effect s)) ∧ ∀ s, Fills x' (next' s) := by
  generalize hy : Thread.step effect next' = y at h
  induction h with
  | step hn =>
    cases hy
    exact Or.inl ⟨_, .refl _, hn⟩
  | aside he hn =>
    cases hy
    exact Or.inr ⟨_, .refl _, he, hn⟩
  | back r h ih =>
    rcases ih hy with ⟨next, ha, hn⟩ | ⟨x', ha, he, hn⟩
    · exact Or.inl ⟨next, .answer r ha, hn⟩
    · exact Or.inr ⟨x', .answer r ha, he, hn⟩
  | done => cases hy
  | call => cases hy
  | ask => cases hy

theorem Fills.of_await {q' : Q'} {next' : ρ' → Thread Q' ρ' β} (h : Fills x (.await q' next')) :
    ∃ q next, Answered x (.await q next) ∧ ∀ r, Fills (.await q next) (next' r) := by
  generalize hy : Thread.await q' next' = y at h
  induction h with
  | ask hn =>
    cases hy
    exact ⟨_, _, .refl _, hn⟩
  | back r h ih =>
    obtain ⟨q, next, ha, hn⟩ := ih hy
    exact ⟨q, next, .answer r ha, hn⟩
  | done => cases hy
  | call => cases hy
  | step => cases hy
  | aside => cases hy

section

variable {κ : Type} [DecidableEq κ] {init : κ → Thread Q ρ α} {init' : κ → Thread Q' ρ' β}
  {starts : Machine → Prop} {elsewhere : Machine → Machine → Prop} {log : List (Made κ)} {s : Machine}

theorem Interleaved.answered {threads : κ → Thread Q ρ α} {who : κ}
    (h : Interleaved init starts elsewhere log threads s) (ha : Answered (threads who) x) :
    Interleaved init starts elsewhere log (Function.update threads who x) s := by
  generalize hy : threads who = y at ha
  induction ha generalizing threads with
  | refl y =>
    rw [← hy, Function.update_eq_self]
    exact h
  | answer r ha ih =>
    have hanswered := ih (h.answer who r hy) (Function.update_self ..)
    rwa [Function.update_idem] at hanswered

/-- A run of threads that fill in answers is a run of the threads that they fill in for. -/
theorem Interleaved.filled {threads : κ → Thread Q' ρ' β}
    (h : Interleaved init' starts elsewhere log threads s)
    (hinit : ∀ who, Fills (init who) (init' who))
    (hidle : ∀ s s' : Machine, s.Idle s' → elsewhere s s') :
    ∃ filled, Interleaved init starts elsewhere log filled s ∧
      ∀ who, Fills (filled who) (threads who) := by
  have hupdate {filled : κ → Thread Q ρ α} {threads : κ → Thread Q' ρ' β} {who : κ}
      {x : Thread Q ρ α} {y : Thread Q' ρ' β} (hf : ∀ who, Fills (filled who) (threads who))
      (hx : Fills x y) : ∀ other, Fills (Function.update filled who x other)
        (Function.update threads who y other) := by
    intro other
    by_cases ho : other = who
    · subst ho
      rw [Function.update_self, Function.update_self]
      exact hx
    · rw [Function.update_of_ne ho, Function.update_of_ne ho]
      exact hf other
  induction h with
  | start hs => exact ⟨init, .start hs, hinit⟩
  | @call log threads s who c next hr hw ih =>
    obtain ⟨filled, hrun, hf⟩ := ih
    obtain ⟨next', ha, hn⟩ := (hw ▸ hf who).of_call
    have hcall := (hrun.answered ha).call who (Function.update_self ..)
    rw [Function.update_idem] at hcall
    exact ⟨_, hcall, hupdate hf (hn _)⟩
  | @step log threads s who effect next hr hw ih =>
    obtain ⟨filled, hrun, hf⟩ := ih
    rcases (hw ▸ hf who).of_step with ⟨next', ha, hn⟩ | ⟨x', ha, he, hn⟩
    · have hstep := (hrun.answered ha).step who (Function.update_self ..)
      rw [Function.update_idem] at hstep
      exact ⟨_, hstep, hupdate hf (hn s)⟩
    · exact ⟨_, (hrun.answered ha).elsewhere (hidle _ _ (he s)), hupdate hf (hn s)⟩
  | @answer log threads s who q next r hr hw ih =>
    obtain ⟨filled, hrun, hf⟩ := ih
    obtain ⟨q', next', ha, hn⟩ := (hw ▸ hf who).of_await
    exact ⟨_, hrun.answered ha, hupdate hf (hn r)⟩
  | elsewhere hr he ih =>
    obtain ⟨filled, hrun, hf⟩ := ih
    exact ⟨filled, hrun.elsewhere he, hf⟩

end

end Thread

variable {Q ρ α Q' ρ' β : Type}

/-! ### Blocks under a lock -/

namespace LockPlan

/-- The parts of a block under a lock, and what follows it. -/
theorem run_bind [Machine.Names] (plan : LockPlan) (key : String) (block : Bool → Thread Q ρ α)
    (g : Except Fault α → Thread Q ρ β) :
    (plan.run key block).run >>= g =
      .step (fun s => { s with issued := s.issued + 1 }) fun s =>
        let l : Lease := { key, token := Machine.tokenOf s.issued, ttl := plan.ttl }
        if key.isEmpty then tally (.fault Fault.emptyLeaseKey.code) >>= fun _ =>
          g (.error Fault.emptyLeaseKey)
        else (plan.acquire l 0 plan.retries).run >>= fun
          | .error f => g (.error f)
          | .ok attempts => note (.lockObtained key (decide (0 < attempts))) >>= fun _ =>
            block (decide (0 < attempts)) >>= fun a => giveUp l >>= fun _ => g (.ok a) := by
  refine congrArg (Thread.step _) (funext fun s => ?_)
  change ((Lease.ofToken key (Machine.tokenOf s.issued) plan.ttl : Attempt (Thread Q ρ) Lease).run
    >>= _) >>= g = _
  unfold Lease.ofToken
  split
  · rfl
  · change ((plan.acquire _ 0 plan.retries).run >>= _) >>= g = _
    rw [Thread.bind_bind]
    refine congrArg _ (funext fun r => ?_)
    rcases r with f | attempts
    · rfl
    · refine congrArg (Thread.step _) (funext fun _ => ?_)
      change ((block _ >>= fun a => _) >>= _) >>= g = _
      rw [Thread.bind_bind, Thread.bind_bind]
      refine congrArg (block _ >>= ·) (funext fun a => ?_)
      change ((giveUp _ >>= fun u => _) >>= _) >>= g = _
      rw [Thread.bind_bind, Thread.bind_bind]
      rfl

theorem fills_acquire (plan : LockPlan) (l : Lease) (attempt retries : Nat)
    {f : Except Fault Nat → Thread Q ρ α} {g : Except Fault Nat → Thread Q' ρ' β}
    (h : ∀ r, Thread.Fills (f r) (g r)) :
    Thread.Fills ((plan.acquire l attempt retries).run >>= f)
      ((plan.acquire l attempt retries).run >>= g) := by
  induction retries generalizing attempt with
  | zero =>
    refine .call ?_
    rintro (e | b)
    · exact h _
    · cases b with
      | true => exact .step fun _ => h _
      | false => exact .step fun _ => .step fun _ => h _
  | succ retries ih =>
    refine .call ?_
    rintro (e | b)
    · exact h _
    · cases b with
      | true => exact .step fun _ => h _
      | false => exact .step fun _ => .step fun _ => ih _

theorem fills_giveUp (l : Lease) {f : Unit → Thread Q ρ α} {g : Unit → Thread Q' ρ' β}
    (h : Thread.Fills (f ()) (g ())) :
    Thread.Fills (giveUp l >>= f) (giveUp l >>= g) := by
  refine .call ?_
  rintro (e | b)
  · exact .step fun _ => h
  · exact h

/-- A thread that has given its lease up only ends. -/
theorem Follows.left_of_fills {l : Lease} {x : Thread Q ρ α} {y : Thread Q' ρ' β}
    (h : Follows l .left x) (hf : Thread.Fills x y) : Follows l .left y := by
  induction hf with
  | done a b => exact .done (by decide)
  | step hn ih =>
    obtain ⟨he, hnext⟩ := h.of_step
    exact .step he fun s => ih s (hnext s)
  | call => cases h
  | aside => cases h
  | ask => cases h
  | back => cases h

namespace Stands

variable [Machine.Names] {κ : Type} {plan : κ → LockPlan} {who : κ} {key : String}
  {i : Option Nat} {p : Progress} {x x' : Thread Bool ρ (Except Fault ρ)} {y : Thread Q' ρ' β}

theorem answered (h : Stands (plan who) key i p x) (ha : Thread.Answered x x') :
    Stands (plan who) key i p x' := by
  induction ha with
  | refl => exact h
  | answer r ha ih => exact ih (h.await.2 r)

theorem inside_of_await {q' : Q'} {next' : ρ' → Thread Q' ρ' β} (h : Stands (plan who) key i p x)
    (hf : Thread.Fills x (.await q' next')) : ∃ t, p = .inside t := by
  obtain ⟨q, next, ha, _⟩ := hf.of_await
  exact (h.answered ha).await.1

theorem not_inside_of_done {b : β} (h : Stands (plan who) key i p x)
    (hf : Thread.Fills x (.done b : Thread Q' ρ' β)) (t : Instant) : p ≠ .inside t := by
  rintro rfl
  obtain ⟨a, ha⟩ := hf.of_done
  have hdone := h.answered ha
  cases i with
  | none => cases hdone.2
  | some n =>
    cases hdone with
    | done hs => exact hs rfl

theorem left_of_fills (h : Stands (plan who) key i .left x) (hf : Thread.Fills x y) :
    ∃ l, Follows l .left y := by
  cases i with
  | none => cases h.2
  | some n => exact ⟨_, Follows.left_of_fills h hf⟩

end Stands

end LockPlan

/-! ### The loop of a batch task -/

namespace BatchTask

/-- A process that runs a batch task. A step of the task runs until it is answered. -/
def process [Machine.Names] (t : BatchTask) : Thread Unit (Except Halt Bool) (Except Halt Bool) :=
  (t.run (ExceptT.mk (Thread.ask ()))).run

def InStep (x : Thread Unit (Except Halt Bool) (Except Halt Bool)) : Prop :=
  ∃ next, x = .await () next

/-- One round of the loop, and what follows the loop. -/
theorem steps_succ (b : LoopBounds) (start : Instant) (done left : Nat)
    (g : Except Halt Bool → Thread Unit (Except Halt Bool) β) :
    (b.steps start (ExceptT.mk (Thread.ask ())) done (left + 1)).run >>= g =
      .await () fun
        | .error e => g (.error e)
        | .ok false => note (.loopFinished (done + 1)) >>= fun _ => g (.ok true)
        | .ok true => now >>= fun t =>
          if b.timeout ≤ start.timeLeft t then
            note (.loopTimedOut (done + 1) b.timeout) >>= fun _ => g (.ok false)
          else (b.steps start (ExceptT.mk (Thread.ask ())) (done + 1) left).run >>= g := by
  refine congrArg (Thread.await ()) (funext fun r => ?_)
  rcases r with e | _ | _
  · rfl
  · rfl
  · refine congrArg (Thread.step _) (funext fun s => ?_)
    change (ExceptT.run (if b.timeout ≤ start.timeLeft s.clock then _ else _) >>= g) =
      if b.timeout ≤ start.timeLeft s.clock then _ else _
    split <;> rfl

theorem fills_steps (b : LoopBounds) (start : Instant) (done left : Nat) {q : Q}
    {next : Except Halt Bool → Thread Q (Except Halt Bool) α}
    {g : Except Halt Bool → Thread Unit (Except Halt Bool) β}
    (h : ∀ r, Thread.Fills (next r) (g r)) :
    Thread.Fills (.await q next)
      ((b.steps start (ExceptT.mk (Thread.ask ())) done left).run >>= g) := by
  induction left generalizing done with
  | zero =>
    refine .aside (fun _ => ⟨rfl, rfl, rfl, rfl⟩) fun _ => .back (.ok false) ?_
    exact h _
  | succ left ih =>
    rw [steps_succ]
    refine .ask ?_
    rintro (e | _ | _)
    · exact .back _ (h _)
    · exact .aside (fun _ => ⟨rfl, rfl, rfl, rfl⟩) fun _ => .back _ (h _)
    · refine .aside (fun _ => ⟨rfl, rfl, rfl, rfl⟩) fun s => ?_
      change Thread.Fills _ (if b.timeout ≤ start.timeLeft s.clock then _ else _)
      split
      · exact .aside (fun _ => ⟨rfl, rfl, rfl, rfl⟩) fun _ => .back _ (h _)
      · exact ih (done + 1)

/-- The loop fills in for the block that is open meanwhile. -/
theorem fills_run (b : LoopBounds) {q : Q}
    {next : Except Halt Bool → Thread Q (Except Halt Bool) α}
    {g : Except Halt Bool → Thread Unit (Except Halt Bool) β}
    (h : ∀ r, Thread.Fills (next r) (g r)) :
    Thread.Fills (.await q next) ((b.run (ExceptT.mk (Thread.ask ()))).run >>= g) := by
  unfold LoopBounds.run
  split
  · exact .aside (fun _ => ⟨rfl, rfl, rfl, rfl⟩) fun _ => .back _ (h _)
  · exact .aside (fun _ => ⟨rfl, rfl, rfl, rfl⟩) fun s => fills_steps b s.clock 0 b.limit h

theorem process_eq [Machine.Names] (t : BatchTask) : t.process =
    (t.lock.run t.leaseKey fun _ => (t.bounds.run (ExceptT.mk (Thread.ask ()))).run).run >>= fun
      | .error f => .done (.error (.fault f))
      | .ok outcome => .done outcome := by
  change ((ExceptT.run _ >>= fun r => .done (Halt.ofAttempt r)) >>= _ :
    Thread Unit (Except Halt Bool) _) = _
  rw [Thread.bind_bind]
  refine congrArg _ (funext fun r => ?_)
  cases r <;> rfl

/-- A batch task does as a process does that runs a block under the same lock. -/
theorem fills_process [Machine.Names] (t : BatchTask) :
    Thread.Fills (t.lock.process t.leaseKey : Thread Bool (Except Halt Bool) _) t.process := by
  rw [process_eq, ← Thread.bind_done (t.lock.process t.leaseKey), LockPlan.process,
    LockPlan.run_bind, LockPlan.run_bind]
  refine .step fun s => ?_
  split
  · exact .step fun _ => .done _ _
  · refine LockPlan.fills_acquire _ _ _ _ ?_
    rintro (f | attempts)
    · exact .done _ _
    · exact .step fun _ => fills_run t.bounds fun outcome => LockPlan.fills_giveUp _ (.done _ _)

/-! ### Batch tasks in turns -/

section

variable {κ : Type} [DecidableEq κ] {task : κ → BatchTask} {key : String}
  {log : List (Thread.Made κ)}
  {threads : κ → Thread Unit (Except Halt Bool) (Except Halt Bool)} {s : Machine}

/-- What is known of the calls of batch tasks on one key by what is known of blocks. -/
theorem inv_of_interleaved [Machine.Names] (hkey : ∀ who, (task who).leaseKey = key)
    (h : Thread.Interleaved (fun who => (task who).process)
      (fun s => s.Quiet ∧ s.store.live? s.clock key = none) (Machine.Elsewhere key) log threads s)
    (htokens : ∀ a b, a < s.issued → b < s.issued →
      Machine.tokenOf a = Machine.tokenOf b → a = b) :
    ∃ (blocks : κ → Thread Bool (Except Halt Bool) (Except Fault (Except Halt Bool)))
      (number : κ → Option Nat) (progress : κ → LockPlan.Progress),
      LockPlan.Inv (fun who => (task who).lock) key log blocks s number progress ∧
      LockPlan.Numbered key log number ∧ ∀ who, Thread.Fills (blocks who) (threads who) := by
  have hinit (who : κ) : Thread.Fills
      ((task who).lock.process key : Thread Bool (Except Halt Bool) _) (task who).process := by
    rw [← hkey who]
    exact (task who).fills_process
  obtain ⟨blocks, hblocks, hf⟩ := h.filled hinit fun s s' hidle => hidle.elsewhere key
  obtain ⟨number, progress, hi, hn⟩ := LockPlan.inv_of_interleaved hblocks htokens
  exact ⟨blocks, number, progress, hi, hn, hf⟩

end

end BatchTask

end Turnstile
