import Turnstile.Lease.Lock
import Turnstile.Proofs.Engine.Dialogue
import Turnstile.Proofs.Store.Memory

/-!
# Attempts at a lock

Whatever others do to the key of a lock between its attempts, the attempt that first finds the key free
takes the lease, and every attempt before it waits. `LockPlan.approach` is what has been exchanged up
to an attempt that all others before found taken; from it the rest of a run is told.
-/

namespace Turnstile

variable {ρ : Type}

namespace Lease

abbrev taking (l : Lease) : StoreCall := .setIfAbsent l.key l.token l.ttl

abbrev leaving (l : Lease) : StoreCall := .deleteIfEq l.key l.token

end Lease

namespace LockPlan

variable (plan : LockPlan) (w : Partner ρ) (key : String)

/-- The lease of a run, with the token that it is given. -/
def leaseOf : Lease := { key, token := w.reply [] .token, ttl := plan.ttl }

/-- What has been exchanged up to an attempt, if those before it found the lease taken. -/
def approach : Nat → Past ρ
  | 0 => w.said [] .token
  | n + 1 =>
    let turned := w.said (w.said (approach n) (.store (plan.leaseOf w key).taking))
      (.tally (.leaseAttempt .contended))
    w.said (w.said turned .jitter) (.sleep (plan.backoff.delay n (w.reply turned .jitter)))

/-- The number that is drawn after an attempt has found the lease taken. -/
def drawn (n : Nat) : Double :=
  w.reply (w.said (w.said (plan.approach w key n) (.store (plan.leaseOf w key).taking))
    (.tally (.leaseAttempt .contended))) .jitter

/-! ### What an attempt finds -/

/-- The attempt is answered. -/
def Answered (n : Nat) : Prop :=
  ∃ obtained, w.reply (plan.approach w key n) (.store (plan.leaseOf w key).taking) = .ok obtained

def Free (n : Nat) : Prop :=
  (w.store (plan.approach w key n)).live? (w.clock (plan.approach w key n)) key = none

/-- Every attempt before is answered and finds the key taken. -/
def TakenBefore (n : Nat) : Prop :=
  ∀ i < n, plan.Answered w key i ∧ ¬ plan.Free w key i

variable {plan w key} {n : Nat}

theorem reply_of_taken (ha : plan.Answered w key n) (hf : ¬ plan.Free w key n) :
    w.reply (plan.approach w key n) (.store (plan.leaseOf w key).taking) = .ok false ∧
      w.left (plan.approach w key n) (plan.leaseOf w key).taking = w.store (plan.approach w key n) := by
  obtain ⟨obtained, hreply⟩ := ha
  obtain ⟨hcall, hleft⟩ := Partner.call_eq hreply
  obtain ⟨slot, hslot⟩ := Option.ne_none_iff_exists'.mp hf
  have hlive : (w.store (plan.approach w key n)).live? (w.clock (plan.approach w key n))
      (plan.leaseOf w key).key = some slot := hslot
  simp only [Lease.taking, MemoryStore.call, MemoryStore.setIfAbsent, hlive] at hcall hleft
  cases hcall
  exact ⟨hreply, hleft⟩

theorem reply_of_free (ha : plan.Answered w key n) (hf : plan.Free w key n) :
    w.reply (plan.approach w key n) (.store (plan.leaseOf w key).taking) = .ok true ∧
      w.left (plan.approach w key n) (plan.leaseOf w key).taking =
        (w.store (plan.approach w key n)).insert key
          { value := .text (plan.leaseOf w key).token
            deadline := (w.clock (plan.approach w key n)).deadline? plan.ttl } := by
  obtain ⟨obtained, hreply⟩ := ha
  obtain ⟨hcall, hleft⟩ := Partner.call_eq hreply
  have hlive : (w.store (plan.approach w key n)).live? (w.clock (plan.approach w key n))
      (plan.leaseOf w key).key = none := hf
  simp only [Lease.taking, MemoryStore.call, MemoryStore.setIfAbsent, hlive] at hcall hleft
  cases hcall
  exact ⟨hreply, hleft⟩

/-! ### The way to an attempt -/

theorem slept_approach (n : Nat) : (plan.approach w key n).slept =
    (List.range n).map fun i => plan.backoff.delay i (plan.drawn w key i) := by
  induction n with
  | zero => rfl
  | succ n ih =>
    simp only [approach, Past.slept_said, ih, Inquiry.times, List.append_nil, List.range_succ,
      List.map_append, List.map_singleton, drawn]

theorem tallied_approach (n : Nat) :
    (plan.approach w key n).tallied = List.replicate n (.leaseAttempt .contended) := by
  induction n with
  | zero => rfl
  | succ n ih =>
    simp only [approach, Past.tallied_said, ih, Inquiry.tallies, List.append_nil,
      List.replicate_succ']

theorem entered_approach (n : Nat) : (plan.approach w key n).entered = [] := by
  induction n with
  | zero => rfl
  | succ n ih => simp only [approach, Past.entered_said, ih, Inquiry.flags, List.append_nil]

theorem called_approach (n : Nat) :
    (plan.approach w key n).called = List.replicate n (plan.leaseOf w key).taking := by
  induction n with
  | zero => rfl
  | succ n ih =>
    simp only [approach, Past.called_said, ih, Inquiry.calls, List.append_nil, List.replicate_succ']

theorem TakenBefore.of_le {m : Nat} (h : plan.TakenBefore w key n) (hm : m ≤ n) :
    plan.TakenBefore w key m := fun i hi => h i (Nat.lt_of_lt_of_le hi hm)

theorem untouched_approach (h : plan.TakenBefore w key n) : w.Untouched (plan.approach w key n) := by
  induction n with
  | zero => exact Partner.untouched_nil.aside (by simp)
  | succ n ih =>
    obtain ⟨ha, hf⟩ := h n (Nat.lt_succ_self n)
    have hbefore := ih (h.of_le (Nat.le_succ n))
    have htried := hbefore.said (q := .store (plan.leaseOf w key).taking) fun c hc => by
      cases hc
      exact (reply_of_taken ha hf).2
    exact ((htried.aside (by simp)).aside (by simp)).aside (by simp)

/-! ### One attempt of the program -/

section

variable (plan : LockPlan) (lease : Lease) (n retries : Nat) {past : Past ρ}

theorem acquire_last : ∃ next, (plan.acquire lease n 0 : Attempt (Dialogue ρ) Nat).run =
      .ask (.store lease.taking) next ∧
    next (.ok true) = .ask (.tally (.leaseAttempt .acquired)) (fun _ => .done (.ok n)) ∧
    next (.ok false) = .ask (.tally (.leaseAttempt .exhausted)) (fun _ =>
      .ask (.tally (.fault (Fault.lockNotAcquired lease.key (n + 1)).code)) fun _ =>
        .done (.error (Fault.lockNotAcquired lease.key (n + 1)))) ∧
    ∀ f, next (.error f) = .done (.error f) :=
  ⟨_, rfl, rfl, rfl, fun _ => rfl⟩

theorem acquire_more : ∃ next, (plan.acquire lease n (retries + 1) : Attempt (Dialogue ρ) Nat).run =
      .ask (.store lease.taking) next ∧
    next (.ok true) = .ask (.tally (.leaseAttempt .acquired)) (fun _ => .done (.ok n)) ∧
    next (.ok false) = .ask (.tally (.leaseAttempt .contended)) (fun _ =>
      .ask .jitter fun jitter => .ask (.sleep (plan.backoff.delay n jitter)) fun _ =>
        (plan.acquire lease (n + 1) retries : Attempt (Dialogue ρ) Nat).run) ∧
    ∀ f, next (.error f) = .done (.error f) :=
  ⟨_, rfl, rfl, rfl, fun _ => rfl⟩

theorem course_acquire_of_free (h : w.reply past (.store lease.taking) = .ok true) :
    w.course (plan.acquire lease n retries : Attempt (Dialogue ρ) Nat).run past =
      (w.said (w.said past (.store lease.taking)) (.tally (.leaseAttempt .acquired)), .ok n) := by
  cases retries with
  | zero =>
    obtain ⟨next, hrun, hfree, -⟩ := plan.acquire_last (ρ := ρ) lease n
    rw [hrun, Partner.course, h, hfree]
    rfl
  | succ retries =>
    obtain ⟨next, hrun, hfree, -⟩ := plan.acquire_more (ρ := ρ) lease n retries
    rw [hrun, Partner.course, h, hfree]
    rfl

theorem course_acquire_of_fault {f : Fault} (h : w.reply past (.store lease.taking) = .error f) :
    w.course (plan.acquire lease n retries : Attempt (Dialogue ρ) Nat).run past =
      (w.said past (.store lease.taking), .error f) := by
  cases retries with
  | zero =>
    obtain ⟨next, hrun, -, -, hfault⟩ := plan.acquire_last (ρ := ρ) lease n
    rw [hrun, Partner.course, h, hfault]
    rfl
  | succ retries =>
    obtain ⟨next, hrun, -, -, hfault⟩ := plan.acquire_more (ρ := ρ) lease n retries
    rw [hrun, Partner.course, h, hfault]
    rfl

theorem course_acquire_last (h : w.reply past (.store lease.taking) = .ok false) :
    w.course (plan.acquire lease n 0 : Attempt (Dialogue ρ) Nat).run past =
      (w.said (w.said (w.said past (.store lease.taking)) (.tally (.leaseAttempt .exhausted)))
          (.tally (.fault (Fault.lockNotAcquired lease.key (n + 1)).code)),
        .error (Fault.lockNotAcquired lease.key (n + 1))) := by
  obtain ⟨next, hrun, -, htaken, -⟩ := plan.acquire_last (ρ := ρ) lease n
  rw [hrun, Partner.course, h, htaken]
  rfl

end

theorem course_acquire_more (retries : Nat) (ha : plan.Answered w key n)
    (hf : ¬ plan.Free w key n) :
    w.course (plan.acquire (plan.leaseOf w key) n (retries + 1) : Attempt (Dialogue ρ) Nat).run
        (plan.approach w key n) =
      w.course (plan.acquire (plan.leaseOf w key) (n + 1) retries : Attempt (Dialogue ρ) Nat).run
        (plan.approach w key (n + 1)) := by
  obtain ⟨next, hrun, -, htaken, -⟩ := plan.acquire_more (ρ := ρ) (plan.leaseOf w key) n retries
  rw [hrun, Partner.course, (reply_of_taken ha hf).1, htaken]
  rfl

theorem course_acquire_approach (h : plan.TakenBefore w key n) (retries : Nat) :
    w.course (plan.acquire (plan.leaseOf w key) 0 (n + retries) : Attempt (Dialogue ρ) Nat).run
        (plan.approach w key 0) =
      w.course (plan.acquire (plan.leaseOf w key) n retries : Attempt (Dialogue ρ) Nat).run
        (plan.approach w key n) := by
  induction n generalizing retries with
  | zero => rw [Nat.zero_add]
  | succ n ih =>
    obtain ⟨ha, hf⟩ := h n (Nat.lt_succ_self n)
    rw [Nat.add_right_comm, Nat.add_assoc, ih (h.of_le (Nat.le_succ n)) (retries + 1)]
    exact course_acquire_more retries ha hf

/-! ### A run -/

variable (plan w key) in
/-- All that a run exchanges with its partner, and its result. -/
def ran : Past ρ × Except Fault ρ :=
  w.course (plan.run key Dialogue.block : Attempt (Dialogue ρ) ρ).run []

/-- What a run does once it has its lease. -/
def work (lease : Lease) (attempts : Nat) : Attempt (Dialogue ρ) ρ := do
  let retried := decide (0 < attempts)
  note (m := Dialogue ρ) (.lockObtained lease.key retried)
  let result ← (Dialogue.block retried : Dialogue ρ ρ)
  giveUp (m := Dialogue ρ) lease
  return result

theorem run_eq (plan : LockPlan) (hkey : key ≠ "") :
    (plan.run key Dialogue.block : Attempt (Dialogue ρ) ρ).run = .ask .token fun token =>
      (plan.acquire { key, token, ttl := plan.ttl } 0 plan.retries >>=
        work { key, token, ttl := plan.ttl } : Attempt (Dialogue ρ) ρ).run := by
  have hfull : key.isEmpty = false := by simpa using hkey
  unfold run Lease.fresh Lease.ofToken
  simp only [hfull, Bool.false_eq_true, if_false]
  rfl

theorem work_eq (lease : Lease) (a : Nat) : ∃ next : ρ → Except Fault Bool → Dialogue ρ (Except Fault ρ),
    (work lease a).run = .ask (.record (.notice (.lockObtained lease.key (decide (0 < a))))) (fun _ =>
      .ask (.block (decide (0 < a))) fun r => .ask (.store lease.leaving) (next r)) ∧
    (∀ r b, next r (.ok b) = .done (.ok r)) ∧
    ∀ r f, next r (.error f) =
      .ask (.record (.notice (.lockNotReleased lease.key f))) fun _ => .done (.ok r) :=
  ⟨_, rfl, fun _ _ => rfl, fun _ _ => rfl⟩

/-- A run is its attempts, and work under the lease if one of them has taken it. -/
theorem ran_eq (hkey : key ≠ "") (h : plan.TakenBefore w key n) {retries : Nat}
    (hn : n + retries = plan.retries) {r : Except Fault Nat} {past : Past ρ}
    (hacquire : w.course
      (plan.acquire (plan.leaseOf w key) n retries : Attempt (Dialogue ρ) Nat).run
      (plan.approach w key n) = (past, r)) :
    plan.ran w key = w.course (ExceptT.bindCont (work (plan.leaseOf w key)) r) past := by
  have hway := course_acquire_approach h retries
  rw [hn, hacquire] at hway
  rw [ran, run_eq plan hkey, Partner.course]
  change w.course ((plan.acquire (plan.leaseOf w key) 0 plan.retries :
    Attempt (Dialogue ρ) Nat).run >>= ExceptT.bindCont (work (plan.leaseOf w key)))
      (plan.approach w key 0) = _
  rw [Partner.course_bind, hway]

/-! ### How a run ends -/

section

variable (plan w key) (a : Nat)

/-- What has been exchanged when the block is run, if an attempt has taken the lease. -/
def told : Past ρ :=
  let taken := w.said (w.said (plan.approach w key a) (.store (plan.leaseOf w key).taking))
    (.tally (.leaseAttempt .acquired))
  w.said taken (.record (.notice (.lockObtained key (decide (0 < a)))))

/-- What has been exchanged when the block is over. -/
def worked : Past ρ := w.said (plan.told w key a) (.block (decide (0 < a)))

/-- A run whose attempt with a number takes the lease. -/
structure Enters : Prop where
  /-- The block's outcome, a value or a panic, is passed on. -/
  value : (plan.ran w key).2 = .ok (w.reply (plan.told w key a) (.block (decide (0 < a))))
  once : (plan.ran w key).1.entered = [decide (0 < a)]
  waits : (plan.told w key a).slept =
    (List.range a).map fun i => plan.backoff.delay i (plan.drawn w key i)
  counters : (plan.ran w key).1.tallied =
    List.replicate a (.leaseAttempt .contended) ++ [.leaseAttempt .acquired]
  /-- The block comes after the waits, and the release after the block and last, but for a complaint
  if it fails. -/
  order : (plan.ran w key).1 = w.said (plan.worked w key a) (.store (plan.leaseOf w key).leaving) ∨
    ∃ f, w.reply (plan.worked w key a) (.store (plan.leaseOf w key).leaving) = .error f ∧
      (plan.ran w key).1 =
        w.said (w.said (plan.worked w key a) (.store (plan.leaseOf w key).leaving))
          (.record (.notice (.lockNotReleased key f)))
  untouched : w.Untouched (plan.approach w key a)
  taken : w.left (plan.approach w key a) (plan.leaseOf w key).taking =
    (w.store (plan.approach w key a)).insert key
      { value := .text (plan.leaseOf w key).token
        deadline := (w.clock (plan.approach w key a)).deadline? plan.ttl }
  released : ∀ deleted,
    w.reply (plan.worked w key a) (.store (plan.leaseOf w key).leaving) = .ok deleted →
      w.left (plan.worked w key a) (plan.leaseOf w key).leaving =
        if (w.store (plan.worked w key a)).holds (w.clock (plan.worked w key a)) key
            (plan.leaseOf w key).token
        then (w.store (plan.worked w key a)).erase key else w.store (plan.worked w key a)

/-- A run all of whose attempts find the key taken. -/
structure Exhausts : Prop where
  fault : (plan.ran w key).2 = .error (Fault.lockNotAcquired key (plan.retries + 1))
  attempts : (plan.ran w key).1.called =
    List.replicate (plan.retries + 1) (plan.leaseOf w key).taking
  never : (plan.ran w key).1.entered = []
  waits : (plan.ran w key).1.slept =
    (List.range plan.retries).map fun i => plan.backoff.delay i (plan.drawn w key i)
  counters : (plan.ran w key).1.tallied =
    List.replicate plan.retries (.leaseAttempt .contended) ++
      [.leaseAttempt .exhausted, .fault (Fault.lockNotAcquired key (plan.retries + 1)).code]
  untouched : w.Untouched (plan.ran w key).1

/-- A run that is stopped by a fault of the store at an attempt. -/
structure Stops (f : Fault) : Prop where
  fault : (plan.ran w key).2 = .error f
  order : (plan.ran w key).1 =
    w.said (plan.approach w key a) (.store (plan.leaseOf w key).taking)
  never : (plan.ran w key).1.entered = []
  waits : (plan.ran w key).1.slept =
    (List.range a).map fun i => plan.backoff.delay i (plan.drawn w key i)
  counters : (plan.ran w key).1.tallied = List.replicate a (.leaseAttempt .contended)
  untouched : w.Untouched (plan.approach w key a)

end

/-- Giving up a lease deletes its key if it holds the lease's token, and nothing else. -/
theorem left_leaving {past : Past ρ} {lease : Lease} {deleted : Bool}
    (h : w.reply past (.store lease.leaving) = .ok deleted) :
    w.left past lease.leaving =
      if (w.store past).holds (w.clock past) lease.key lease.token
      then (w.store past).erase lease.key else w.store past := by
  rw [(Partner.call_eq h).2, Lease.leaving, MemoryStore.call, MemoryStore.deleteIfEq]
  split <;> rfl

theorem enters (hkey : key ≠ "") {a : Nat} (ha : a ≤ plan.retries) (h : plan.TakenBefore w key a)
    (hanswered : plan.Answered w key a) (hfree : plan.Free w key a) : plan.Enters w key a := by
  obtain ⟨hreply, htaken⟩ := reply_of_free hanswered hfree
  have hran := ran_eq hkey h (Nat.add_sub_of_le ha) (course_acquire_of_free _ _ _ _ hreply)
  obtain ⟨next, hwork, hok, hfault⟩ := work_eq (ρ := ρ) (plan.leaseOf w key) a
  have hcourse : plan.ran w key = w.course
      (next (w.reply (plan.told w key a) (.block (decide (0 < a))))
        (w.reply (plan.worked w key a) (.store (plan.leaseOf w key).leaving)))
      (w.said (plan.worked w key a) (.store (plan.leaseOf w key).leaving)) := by
    rw [hran]
    change w.course (work (plan.leaseOf w key) a).run _ = _
    rw [hwork]
    rfl
  have hends : (plan.ran w key).2 = .ok (w.reply (plan.told w key a) (.block (decide (0 < a)))) ∧
      ((plan.ran w key).1 = w.said (plan.worked w key a) (.store (plan.leaseOf w key).leaving) ∨
        ∃ f, w.reply (plan.worked w key a) (.store (plan.leaseOf w key).leaving) = .error f ∧
          (plan.ran w key).1 =
            w.said (w.said (plan.worked w key a) (.store (plan.leaseOf w key).leaving))
              (.record (.notice (.lockNotReleased key f)))) := by
    cases hleft : w.reply (plan.worked w key a) (.store (plan.leaseOf w key).leaving) with
    | ok deleted =>
      rw [hcourse, hleft, hok]
      exact ⟨rfl, Or.inl rfl⟩
    | error f =>
      rw [hcourse, hleft, hfault]
      exact ⟨rfl, Or.inr ⟨f, rfl, rfl⟩⟩
  obtain ⟨hvalue, horder⟩ := hends
  have hwaits : (plan.told w key a).slept =
      (List.range a).map fun i => plan.backoff.delay i (plan.drawn w key i) := by
    simp [told, slept_approach, Inquiry.times]
  refine ⟨hvalue, ?_, hwaits, ?_, horder, untouched_approach h, htaken, fun _ => left_leaving⟩
  · rcases horder with h | ⟨f, -, h⟩ <;>
      simp [h, worked, told, entered_approach, Inquiry.flags]
  · rcases horder with h | ⟨f, -, h⟩ <;>
      simp [h, worked, told, tallied_approach, Inquiry.tallies]

theorem exhausts (hkey : key ≠ "") (h : plan.TakenBefore w key (plan.retries + 1)) :
    plan.Exhausts w key := by
  obtain ⟨ha, hf⟩ := h plan.retries (Nat.lt_succ_self _)
  obtain ⟨hreply, hleft⟩ := reply_of_taken ha hf
  have hbefore := untouched_approach (h.of_le (Nat.le_succ _))
  have hcourse : plan.ran w key =
      (w.said (w.said (w.said (plan.approach w key plan.retries)
          (.store (plan.leaseOf w key).taking)) (.tally (.leaseAttempt .exhausted)))
          (.tally (.fault (Fault.lockNotAcquired key (plan.retries + 1)).code)),
        .error (Fault.lockNotAcquired key (plan.retries + 1))) :=
    ran_eq hkey (h.of_le (Nat.le_succ _)) (Nat.add_zero _) (course_acquire_last _ _ _ hreply)
  have htried := hbefore.said (q := .store (plan.leaseOf w key).taking) fun c hc => by
    cases hc
    exact hleft
  refine ⟨by rw [hcourse], ?_, ?_, ?_, ?_, ?_⟩ <;> rw [hcourse]
  · simp [called_approach, Inquiry.calls, List.replicate_succ']
  · simp [entered_approach, Inquiry.flags]
  · simp [slept_approach, Inquiry.times]
  · simp [tallied_approach, Inquiry.tallies]
  · exact (htried.aside (by simp)).aside (by simp)

theorem stops (hkey : key ≠ "") {a : Nat} (ha : a ≤ plan.retries) (h : plan.TakenBefore w key a)
    {f : Fault}
    (hf : w.reply (plan.approach w key a) (.store (plan.leaseOf w key).taking) = .error f) :
    plan.Stops w key a f := by
  have hcourse : plan.ran w key =
      (w.said (plan.approach w key a) (.store (plan.leaseOf w key).taking), .error f) :=
    ran_eq hkey h (Nat.add_sub_of_le ha) (course_acquire_of_fault _ _ _ _ hf)
  refine ⟨by rw [hcourse], by rw [hcourse], ?_, ?_, ?_, untouched_approach h⟩ <;> rw [hcourse]
  · simp [entered_approach, Inquiry.flags]
  · simp [slept_approach, Inquiry.times]
  · simp [tallied_approach, Inquiry.tallies]

/-- Every run goes one of three ways: an attempt finds the key free, all find it taken, or the store
fails before either. -/
theorem attempts_cases (plan : LockPlan) (w : Partner ρ) (key : String) :
    (∃ a ≤ plan.retries, plan.TakenBefore w key a ∧ plan.Answered w key a ∧ plan.Free w key a) ∨
      plan.TakenBefore w key (plan.retries + 1) ∨
      ∃ a ≤ plan.retries, plan.TakenBefore w key a ∧ ∃ f,
        w.reply (plan.approach w key a) (.store (plan.leaseOf w key).taking) = .error f := by
  have hcount : ∀ n ≤ plan.retries + 1, plan.TakenBefore w key n ∨
      ∃ a < n, plan.TakenBefore w key a ∧ ¬ (plan.Answered w key a ∧ ¬ plan.Free w key a) := by
    intro n hn
    induction n with
    | zero => exact Or.inl fun i hi => absurd hi (Nat.not_lt_zero i)
    | succ n ih =>
      rcases ih (by omega) with htaken | ⟨a, ha, hother⟩
      · by_cases hnext : plan.Answered w key n ∧ ¬ plan.Free w key n
        · left
          intro i hi
          rcases Nat.lt_succ_iff_lt_or_eq.mp hi with hlt | rfl
          · exact htaken i hlt
          · exact hnext
        · exact Or.inr ⟨n, Nat.lt_succ_self n, htaken, hnext⟩
      · exact Or.inr ⟨a, by omega, hother⟩
  rcases hcount _ (Nat.le_refl _) with htaken | ⟨a, ha, htaken, hother⟩
  · exact Or.inr (Or.inl htaken)
  · by_cases hanswered : plan.Answered w key a
    · have hfree : plan.Free w key a := by
        by_contra hf
        exact hother ⟨hanswered, hf⟩
      exact Or.inl ⟨a, by omega, htaken, hanswered, hfree⟩
    · refine Or.inr (Or.inr ⟨a, by omega, htaken, ?_⟩)
      cases hreply : w.reply (plan.approach w key a) (.store (plan.leaseOf w key).taking) with
      | ok obtained => exact absurd ⟨obtained, hreply⟩ hanswered
      | error f => exact ⟨f, rfl⟩

/-- A run under a lock, whatever others do to the key meanwhile and however the block ends. -/
theorem run_ends (plan : LockPlan) (w : Partner ρ) (hkey : key ≠ "") :
    ((∃ a ≤ plan.retries, plan.TakenBefore w key a ∧ plan.Answered w key a ∧ plan.Free w key a) ∨
        plan.TakenBefore w key (plan.retries + 1) ∨
        ∃ a ≤ plan.retries, plan.TakenBefore w key a ∧ ∃ f,
          w.reply (plan.approach w key a) (.store (plan.leaseOf w key).taking) = .error f) ∧
      (∀ a ≤ plan.retries, plan.TakenBefore w key a → plan.Answered w key a → plan.Free w key a →
        plan.Enters w key a) ∧
      (plan.TakenBefore w key (plan.retries + 1) → plan.Exhausts w key) ∧
      ∀ a ≤ plan.retries, plan.TakenBefore w key a → ∀ f,
        w.reply (plan.approach w key a) (.store (plan.leaseOf w key).taking) = .error f →
          plan.Stops w key a f := by
  refine ⟨attempts_cases plan w key, ?_, exhausts hkey, ?_⟩
  · intro a ha htaken hanswered hfree
    exact enters hkey ha htaken hanswered hfree
  · intro a ha htaken f hf
    exact stops hkey ha htaken hf

/-- The holder of a key leaves it after the first attempt of another client. -/
theorem run_ends_of_handover :
    let plan : LockPlan := { LockPlan.default with retries := 3 }
    let held : MemoryStore := Keyed.empty.insert "export" { value := .text "other", deadline := none }
    let w : Partner Nat := Partner.reliable
      (fun past => if past.length ≤ 1 then held else Keyed.empty) (fun _ => Instant.epoch) "token" 7
    "export" ≠ "" ∧ plan.TakenBefore w "export" 1 ∧ plan.Answered w "export" 1 ∧
      plan.Free w "export" 1 ∧ plan.Enters w "export" 1 := by
  intro plan held w
  have hkey : "export" ≠ "" := by decide
  have htaken : plan.TakenBefore w "export" 1 := by
    intro i hi
    obtain rfl : i = 0 := by omega
    refine ⟨⟨false, rfl⟩, ?_⟩
    intro hfree
    cases hfree
  have hanswered : plan.Answered w "export" 1 := ⟨true, rfl⟩
  have hfree : plan.Free w "export" 1 := rfl
  exact ⟨hkey, htaken, hanswered, hfree,
    (run_ends plan w hkey).2.1 1 (by decide) htaken hanswered hfree⟩

end LockPlan

end Turnstile
