import Turnstile.Lease.Lock
import Turnstile.Proofs.Engine.Thread
import Turnstile.Proofs.Lease.Exclusion

/-!
# Blocks under a lock

Any number of processes run blocks under locks on one key, and their steps interleave in any order.
Two blocks are open at the same time only if the time of the earlier lease is over. The
specification, section 8, has no such condition: a block is not ended when its lease is.
-/

namespace Turnstile

/-- What a step of a process on its own may do: write to the journal, count and wait. -/
structure Machine.Idle (s s' : Machine) : Prop where
  clock : s'.clock = s.clock
  store : s'.store = s.store
  plans : s'.plans = s.plans
  issued : s'.issued = s.issued

namespace Machine

theorem Idle.trans {s s' s'' : Machine} (h : s.Idle s') (h' : s'.Idle s'') : s.Idle s'' :=
  ⟨h'.clock.trans h.clock, h'.store.trans h.store, h'.plans.trans h.plans,
    h'.issued.trans h.issued⟩

theorem idle_foldl {γ : Type} {f : Machine → γ → Machine}
    (h : ∀ (s : Machine) c, s.Idle (f s c))
    (cs : List γ) (s : Machine) : s.Idle (cs.foldl f s) := by
  induction cs generalizing s with
  | nil => exact ⟨rfl, rfl, rfl, rfl⟩
  | cons c rest ih => exact (h s c).trans (ih (f s c))

theorem idle_wait (s : Machine) (d : Duration) : s.Idle (s.wait d) := by
  have hleft := idle_foldl (f := fun s span => s.addRecord (.left span))
    (fun _ _ => ⟨rfl, rfl, rfl, rfl⟩) s.spans s
  have hentered := idle_foldl (f := fun s span => s.addRecord (.entered span))
    (fun _ _ => ⟨rfl, rfl, rfl, rfl⟩) s.spans.reverse
  have hwaited (s : Machine) (waited : Duration) : s.Idle { s with waited } :=
    ⟨rfl, rfl, rfl, rfl⟩
  exact (hleft.trans (hwaited _ _)).trans (hentered _)

end Machine

namespace LockPlan

variable {Q ρ α β : Type} {l : Lease}

/-! ### What a process does with its lease -/

/-- How far a process has come. -/
inductive Stage
  | seeking
  | inside
  | left
deriving DecidableEq

/-- A thread that takes its lease at most once, opens its block only then, and gives the lease up at
the end. -/
inductive Follows (l : Lease) : Stage → Thread Q ρ α → Prop
  | done {stage : Stage} {a : α} (h : stage ≠ .inside) : Follows l stage (.done a)
  | step {stage : Stage} {effect : Machine → Machine} {next : Machine → Thread Q ρ α}
      (he : ∀ s : Machine, s.Idle (effect s)) (hn : ∀ s, Follows l stage (next s)) :
      Follows l stage (.step effect next)
  | take {next : Except Fault Bool → Thread Q ρ α} (htaken : Follows l .inside (next (.ok true)))
      (hheld : Follows l .seeking (next (.ok false)))
      (hfault : ∀ f, Follows l .seeking (next (.error f))) :
      Follows l .seeking (.call (.setIfAbsent l.key l.token l.ttl) next)
  | block {q : Q} {next : ρ → Thread Q ρ α} (hn : ∀ r, Follows l .inside (next r)) :
      Follows l .inside (.await q next)
  | giveUp {next : Except Fault Bool → Thread Q ρ α} (hn : ∀ r, Follows l .left (next r)) :
      Follows l .inside (.call (.deleteIfEq l.key l.token) next)

theorem Follows.recorded {stage : Stage} {effect : Machine → Machine}
    {next : Machine → Thread Q ρ α} (hn : ∀ s, Follows l stage (next s))
    (he : ∀ s : Machine, s.Idle (effect s) := by exact fun _ => ⟨rfl, rfl, rfl, rfl⟩) :
    Follows l stage (.step effect next) := .step he hn

theorem Follows.of_step {stage : Stage} {effect : Machine → Machine}
    {next : Machine → Thread Q ρ α} (h : Follows l stage (.step effect next)) :
    (∀ s : Machine, s.Idle (effect s)) ∧ ∀ s, Follows l stage (next s) := by
  cases h with
  | step he hn => exact ⟨he, hn⟩

theorem follows_acquire (plan : LockPlan) (attempt retries : Nat)
    {f : Except Fault Nat → Thread Q ρ α} (hyes : ∀ n, Follows l .inside (f (.ok n)))
    (hno : ∀ e, Follows l .seeking (f (.error e))) :
    Follows l .seeking ((plan.acquire l attempt retries).run >>= f) := by
  induction retries generalizing attempt with
  | zero =>
    refine .take ?_ ?_ ?_
    · refine .recorded fun _ => ?_
      exact hyes attempt
    · refine .recorded fun _ => .recorded fun _ => ?_
      exact hno _
    · intro e
      exact hno e
  | succ retries ih =>
    refine .take ?_ ?_ ?_
    · refine .recorded fun _ => ?_
      exact hyes attempt
    · refine .recorded fun _ => .step (fun s => Machine.idle_wait s _) fun _ => ?_
      exact ih (attempt + 1)
    · intro e
      exact hno e

theorem follows_run [Machine.Names] (plan : LockPlan) (key : String) :
    ∃ effect next, ((plan.run key fun retried => Thread.ask retried).run :
        Thread Bool ρ (Except Fault ρ)) = .step effect next ∧
      ∀ s : Machine, effect s = { s with issued := s.issued + 1 } ∧
        Follows { key, token := Machine.tokenOf s.issued, ttl := plan.ttl } .seeking (next s) := by
  refine ⟨_, _, rfl, ?_⟩
  intro s
  refine ⟨rfl, ?_⟩
  change Follows _ .seeking
    ((Lease.ofToken key (Machine.tokenOf s.issued) plan.ttl).run >>= _)
  unfold Lease.ofToken
  split
  · refine .recorded fun _ => ?_
    exact .done (by decide)
  · refine follows_acquire plan 0 plan.retries ?_ ?_
    · intro attempts
      refine .recorded fun _ => .block fun r => .giveUp ?_
      rintro (e | b)
      · exact .recorded fun _ => .done (by decide)
      · exact .done (by decide)
    · intro e
      exact .done (by decide)

/-! ### Processes in turns -/

section

variable {κ : Type} [DecidableEq κ] {plan : κ → LockPlan} {key : String}
  {log : List (Thread.Made κ)} {threads : κ → Thread Bool ρ (Except Fault ρ)} {s s' : Machine}

/-- A process that runs a block under a lock. The block is open until it is answered. -/
def process [Machine.Names] (plan : LockPlan) (key : String) : Thread Bool ρ (Except Fault ρ) :=
  (plan.run key fun retried => Thread.ask retried).run

def InBlock (x : Thread Bool ρ (Except Fault ρ)) : Prop := ∃ retried next, x = .await retried next

/-- The interleavings of processes that lock one key, which nobody else writes. -/
def Interleaved [Machine.Names] (plan : κ → LockPlan) (key : String) :
    List (Thread.Made κ) → (κ → Thread Bool ρ (Except Fault ρ)) → Machine → Prop :=
  Thread.Interleaved (fun who => (plan who).process key)
    (fun s => s.Quiet ∧ s.store.live? s.clock key = none) (Machine.Elsewhere key)

def takes : Thread.Made κ → Bool
  | { call := .setIfAbsent .., answer := .ok taken, .. } => taken
  | _ => false

def takings (log : List (Thread.Made κ)) (who : κ) : List Instant :=
  (log.filter fun made => made.who = who ∧ takes made).map (·.time)

/-- The time of the lease of the first process was over when the second one took its own: the first
time and the term, summed up in nanoseconds (`Instant.deadline?_of_plain`), are no more than the
second. -/
def Precedes (plan : κ → LockPlan) (who : κ) (t t' : Instant) : Prop :=
  t ≤ t' ∧ ∃ d, t.deadline? (plan who).ttl = some d ∧ d ≤ t'

/-- How far a process has come with its lease, and since when it has it. -/
inductive Progress
  | seeking
  | inside (since : Instant)
  | left

def Progress.stage : Progress → Stage
  | seeking => .seeking
  | inside _ => .inside
  | left => .left

variable {number : κ → Option Nat} {progress : κ → Progress} {who : κ} {n : Nat}
  {x : Thread Bool ρ (Except Fault ρ)} {made : Thread.Made κ}

theorem takings_cons_of_takes (log : List (Thread.Made κ)) (h : takes made = true) :
    takings (made :: log) made.who = made.time :: takings log made.who := by
  simp only [takings, h, and_self, decide_true, List.filter_cons_of_pos, List.map_cons]

theorem takings_cons_of_not (h : ¬ (made.who = who ∧ takes made = true)) :
    takings (made :: log) who = takings log who := by
  simp only [takings, h, decide_false, Bool.false_eq_true, not_false_eq_true,
    List.filter_cons_of_neg]

variable [Machine.Names]

/-- Where a process stands; it has no number before its token is made. -/
def Stands (plan : LockPlan) (key : String) (number : Option Nat) (progress : Progress)
    (x : Thread Bool ρ (Except Fault ρ)) : Prop :=
  match number with
  | none => x = plan.process key ∧ progress = .seeking
  | some n => Follows { key, token := Machine.tokenOf n, ttl := plan.ttl } progress.stage x

/-- The claims of the processes that have their lease. -/
def claims (plan : κ → LockPlan) (number : κ → Option Nat) (progress : κ → Progress)
    (token : String) (deadline : Option Instant) : Prop :=
  ∃ who n t, number who = some n ∧ progress who = .inside t ∧ token = Machine.tokenOf n ∧
    deadline = t.deadline? (plan who).ttl

/-- What holds in every interleaving, of the numbers and the progress of the processes. -/
structure Inv (plan : κ → LockPlan) (key : String) (log : List (Thread.Made κ))
    (threads : κ → Thread Bool ρ (Except Fault ρ)) (s : Machine) (number : κ → Option Nat)
    (progress : κ → Progress) : Prop where
  quiet : s.Quiet
  stands : ∀ who, Stands (plan who) key (number who) (progress who) (threads who)
  bound : ∀ who n, number who = some n → n < s.issued
  distinct : ∀ who other n, number who = some n → number other = some n → who = other
  owned : s.store.Owned s.clock key (claims plan number progress)
  untaken : ∀ who, progress who = .seeking → takings log who = []
  taken : ∀ who t, progress who = .inside t → takings log who = [t] ∧ t ≤ s.clock
  apart : ∀ who other t t', who ≠ other → progress who = .inside t → progress other = .inside t' →
    Precedes plan who t t' ∨ Precedes plan other t' t

/-- The token in every attempt to take the lease is that of the process. -/
def Numbered (key : String) (log : List (Thread.Made κ)) (number : κ → Option Nat) : Prop :=
  ∀ made ∈ log, ∀ token ttl, made.call = .setIfAbsent key token ttl →
    ∃ n, number made.who = some n ∧ token = Machine.tokenOf n

namespace Inv

theorem stands_update (h : Inv plan key log threads s number progress) (i : Option Nat)
    (p : Progress) (hx : Stands (plan who) key i p x) (other : κ) :
    Stands (plan other) key (Function.update number who i other)
      (Function.update progress who p other) (Function.update threads who x other) := by
  by_cases ho : other = who
  · subst ho
    simp only [Function.update_self]
    exact hx
  · simp only [Function.update_of_ne ho]
    exact h.stands other

theorem moved (h : Inv plan key log threads s number progress) (hi : s'.issued = s.issued)
    (hc : s'.clock = s.clock) (hs : s'.store = s.store) (hq : s'.Quiet)
    (hx : Stands (plan who) key (number who) (progress who) x) :
    Inv plan key log (Function.update threads who x) s' number progress where
  quiet := hq
  stands other := by
    have hstands := h.stands_update _ _ hx other
    rwa [Function.update_eq_self, Function.update_eq_self] at hstands
  bound other n hn := by
    rw [hi]
    exact h.bound other n hn
  distinct := h.distinct
  owned := by
    rw [hs, hc]
    exact h.owned
  untaken := h.untaken
  taken other t ht := by
    rw [hc]
    exact h.taken other t ht
  apart := h.apart

theorem born (h : Inv plan key log threads s number progress) (hn : number who = none)
    (hx : Follows { key, token := Machine.tokenOf s.issued, ttl := (plan who).ttl } .seeking x) :
    Inv plan key log (Function.update threads who x) { s with issued := s.issued + 1 }
      (Function.update number who (some s.issued)) progress := by
  have hseeking : progress who = .seeking := by
    have hstands := h.stands who
    rw [hn] at hstands
    exact hstands.2
  have hfresh : ∀ other, number other ≠ some s.issued := by
    intro other ho
    exact Nat.lt_irrefl _ (h.bound other _ ho)
  refine ⟨h.quiet, ?_, ?_, ?_, ?_, h.untaken, h.taken, h.apart⟩
  · intro other
    have hstands := h.stands_update (some s.issued) (progress who)
      (by rw [hseeking]; exact hx : Stands (plan who) key _ _ x) other
    rwa [Function.update_eq_self] at hstands
  · intro other n ho
    by_cases hw : other = who
    · subst hw
      rw [Function.update_self] at ho
      cases ho
      exact Nat.lt_succ_self _
    · rw [Function.update_of_ne hw] at ho
      exact Nat.lt_succ_of_lt (h.bound other n ho)
  · intro p q n hp hq
    by_cases hpw : p = who
    · by_cases hqw : q = who
      · rw [hpw, hqw]
      · rw [hpw, Function.update_self] at hp
        rw [Function.update_of_ne hqw, ← hp] at hq
        exact absurd hq (hfresh q)
    · rw [Function.update_of_ne hpw] at hp
      by_cases hqw : q = who
      · rw [hqw, Function.update_self] at hq
        rw [← hq] at hp
        exact absurd hp (hfresh p)
      · rw [Function.update_of_ne hqw] at hq
        exact h.distinct p q n hp hq
  · refine h.owned.congr fun token d _ => ?_
    constructor
    · rintro ⟨p, n, t, hp, ht, htoken, hd⟩
      have hpw : p ≠ who := by
        rintro rfl
        rw [hn] at hp
        cases hp
      exact ⟨p, n, t, by rw [Function.update_of_ne hpw]; exact hp, ht, htoken, hd⟩
    · rintro ⟨p, n, t, hp, ht, htoken, hd⟩
      have hpw : p ≠ who := by
        rintro rfl
        rw [hseeking] at ht
        cases ht
      rw [Function.update_of_ne hpw] at hp
      exact ⟨p, n, t, hp, ht, htoken, hd⟩

theorem token_ne (h : Inv plan key log threads s number progress)
    (htokens : ∀ a b, a < s.issued → b < s.issued → Machine.tokenOf a = Machine.tokenOf b → a = b)
    (hn : number who = some n) {other : κ} {n' : Nat} (ho : number other = some n')
    (hne : other ≠ who) : Machine.tokenOf n' ≠ Machine.tokenOf n := by
  intro ht
  have hnn := htokens n' n (h.bound other n' ho) (h.bound who n hn) ht
  subst hnn
  exact hne (h.distinct other who n' ho hn)

theorem numbered (h : Inv plan key log threads s number progress) {t : Instant}
    (hp : progress who = .inside t) : ∃ n, number who = some n := by
  have hstands := h.stands who
  cases hn : number who with
  | none =>
    rw [hn] at hstands
    rw [hstands.2] at hp
    cases hp
  | some n => exact ⟨n, rfl⟩

theorem logged (h : Inv plan key log threads s number progress) (ht : takes made = false) :
    Inv plan key (made :: log) threads s number progress := by
  have hsame : ∀ other, takings (made :: log) other = takings log other := by
    intro other
    refine takings_cons_of_not ?_
    rw [ht]
    exact fun hf => Bool.false_ne_true hf.2
  refine { h with untaken := ?_, taken := ?_ }
  · intro other ho
    rw [hsame other]
    exact h.untaken other ho
  · intro other t ho
    rw [hsame other]
    exact h.taken other t ho

theorem took (h : Inv plan key log threads s number progress)
    (htokens : ∀ a b, a < s.issued → b < s.issued → Machine.tokenOf a = Machine.tokenOf b → a = b)
    (hn : number who = some n) (hp : progress who = .seeking)
    (hfree : s.store.live? s.clock key = none)
    (hi : s'.issued = s.issued) (hc : s'.clock = s.clock) (hq : s'.Quiet)
    (hs : s'.store = Keyed.insert s.store key
      (Slot.ofToken (Machine.tokenOf n) (s.clock.deadline? (plan who).ttl)))
    (hw : made.who = who) (hm : made.time = s.clock) (ht : takes made = true)
    (hx : Follows { key, token := Machine.tokenOf n, ttl := (plan who).ttl } .inside x) :
    Inv plan key (made :: log) (Function.update threads who x) s' number
      (Function.update progress who (.inside s.clock)) := by
  have hother : ∀ other t, progress other = .inside t → other ≠ who := by
    rintro other t ho rfl
    rw [hp] at ho
    cases ho
  have hsame : ∀ other, other ≠ who → takings (made :: log) other = takings log other := by
    intro other ho
    exact takings_cons_of_not fun hf => ho (hf.1.symm.trans hw)
  refine ⟨hq, ?_, ?_, h.distinct, ?_, ?_, ?_, ?_⟩
  · intro other
    have hstands := h.stands_update (number who) (.inside s.clock)
      (by rw [hn]; exact hx : Stands (plan who) key _ _ x) other
    rwa [Function.update_eq_self] at hstands
  · intro other n' ho
    rw [hi]
    exact h.bound other n' ho
  · rw [hs, hc]
    refine h.owned.insert ?_ ⟨who, n, s.clock, hn, Function.update_self .., rfl, rfl⟩ ?_
    · intro slot hl
      rw [hfree] at hl
      cases hl
    · rintro token d ⟨other, n', t, ho, hprogress, rfl, rfl⟩
      by_cases hwho : other = who
      · subst hwho
        rw [Function.update_self] at hprogress
        rw [hn] at ho
        cases ho
        cases hprogress
        exact Or.inl ⟨rfl, rfl⟩
      · rw [Function.update_of_ne hwho] at hprogress
        exact Or.inr ⟨⟨other, n', t, ho, hprogress, rfl, rfl⟩, h.token_ne htokens hn ho hwho⟩
  · intro other ho
    by_cases hwho : other = who
    · rw [hwho, Function.update_self] at ho
      cases ho
    · rw [Function.update_of_ne hwho] at ho
      rw [hsame other hwho]
      exact h.untaken other ho
  · intro other t ho
    rw [hc]
    by_cases hwho : other = who
    · rw [hwho, Function.update_self] at ho
      cases ho
      have htakings := takings_cons_of_takes log ht
      rw [hw, hm, h.untaken who hp] at htakings
      rw [hwho]
      exact ⟨htakings, le_refl _⟩
    · rw [Function.update_of_ne hwho] at ho
      rw [hsame other hwho]
      exact h.taken other t ho
  · -- whoever has the lease from before finds its time over
    have hlate : ∀ other t, progress other = .inside t → Precedes plan other t s.clock := by
      intro other t ho
      obtain ⟨n', hn'⟩ := h.numbered ho
      exact ⟨(h.taken other t ho).2, Slot.isExpired_iff.mp
        (h.owned.expired_of_free hfree ⟨other, n', t, hn', ho, rfl, rfl⟩)⟩
    intro p q t t' hne hpt hqt
    by_cases hpw : p = who
    · subst hpw
      rw [Function.update_self] at hpt
      rw [Function.update_of_ne (Ne.symm hne)] at hqt
      cases hpt
      exact Or.inr (hlate q t' hqt)
    · rw [Function.update_of_ne hpw] at hpt
      by_cases hqw : q = who
      · subst hqw
        rw [Function.update_self] at hqt
        cases hqt
        exact Or.inl (hlate p t hpt)
      · rw [Function.update_of_ne hqw] at hqt
        exact h.apart p q t t' hne hpt hqt

theorem gaveUp (h : Inv plan key log threads s number progress)
    (htokens : ∀ a b, a < s.issued → b < s.issued → Machine.tokenOf a = Machine.tokenOf b → a = b)
    (hn : number who = some n) (hi : s'.issued = s.issued) (hc : s'.clock = s.clock)
    (hq : s'.Quiet)
    (hs : s'.store = (s.store.call s.clock (.deleteIfEq key (Machine.tokenOf n))).2)
    (hx : Follows { key, token := Machine.tokenOf n, ttl := (plan who).ttl } .left x) :
    Inv plan key log (Function.update threads who x) s' number
      (Function.update progress who .left) := by
  have hrest : ∀ token d, claims plan number (Function.update progress who .left) token d ↔
      claims plan number progress token d ∧ token ≠ Machine.tokenOf n := by
    intro token d
    constructor
    · rintro ⟨other, n', t, ho, hprogress, rfl, rfl⟩
      have hwho : other ≠ who := by
        rintro rfl
        rw [Function.update_self] at hprogress
        cases hprogress
      rw [Function.update_of_ne hwho] at hprogress
      exact ⟨⟨other, n', t, ho, hprogress, rfl, rfl⟩, h.token_ne htokens hn ho hwho⟩
    · rintro ⟨⟨other, n', t, ho, hprogress, rfl, rfl⟩, hne⟩
      have hwho : other ≠ who := by
        rintro rfl
        rw [hn] at ho
        cases ho
        exact hne rfl
      exact ⟨other, n', t, ho, by rw [Function.update_of_ne hwho]; exact hprogress, rfl, rfl⟩
  have hstays : ∀ other t, Function.update progress who .left other = .inside t →
      progress other = .inside t := by
    intro other t ho
    by_cases hwho : other = who
    · rw [hwho, Function.update_self] at ho
      cases ho
    · rwa [Function.update_of_ne hwho] at ho
  refine ⟨hq, ?_, ?_, h.distinct, ?_, ?_, ?_, ?_⟩
  · intro other
    have hstands := h.stands_update (number who) .left
      (by rw [hn]; exact hx : Stands (plan who) key _ _ x) other
    rwa [Function.update_eq_self] at hstands
  · intro other n' ho
    rw [hi]
    exact h.bound other n' ho
  · rw [hs, hc]
    exact h.owned.call_deleteIfEq hrest
  · intro other ho
    by_cases hwho : other = who
    · rw [hwho, Function.update_self] at ho
      cases ho
    · rw [Function.update_of_ne hwho] at ho
      exact h.untaken other ho
  · intro other t ho
    rw [hc]
    exact h.taken other t (hstays other t ho)
  · intro p q t t' hne hpt hqt
    exact h.apart p q t t' hne (hstays p t hpt) (hstays q t' hqt)

end Inv

/-! ### Steps of a process -/

namespace Stands

omit [DecidableEq κ]

variable {i : Option Nat} {p : Progress}

theorem unborn (h : Stands (plan who) key none p x) :
    ∃ effect next, x = .step effect next ∧
      ∀ s : Machine, effect s = { s with issued := s.issued + 1 } ∧
        Follows { key, token := Machine.tokenOf s.issued, ttl := (plan who).ttl } .seeking
          (next s) := by
  obtain ⟨effect, next, he, hnext⟩ := follows_run (ρ := ρ) (plan who) key
  exact ⟨effect, next, h.1.trans he, hnext⟩

theorem call {c : StoreCall} {next : Except Fault c.Answer → Thread Bool ρ (Except Fault ρ)}
    (h : Stands (plan who) key i p (.call c next)) (r : Except Fault c.Answer) :
    ∃ p, Stands (plan who) key i p (next r) := by
  cases i with
  | none =>
    obtain ⟨_, _, hstep, _⟩ := h.unborn
    cases hstep
  | some n =>
    cases p with
    | seeking =>
      cases h with
      | take htaken hheld hfault =>
        rcases r with f | taken
        · exact ⟨.seeking, hfault f⟩
        · cases taken with
          | true => exact ⟨.inside Instant.epoch, htaken⟩
          | false => exact ⟨.seeking, hheld⟩
    | inside t =>
      cases h with
      | giveUp hleft => exact ⟨.left, hleft r⟩
    | left => cases h

theorem token_of_call {c : StoreCall} {next : Except Fault c.Answer → Thread Bool ρ (Except Fault ρ)}
    (h : Stands (plan who) key i p (.call c next)) {token : String} {ttl : Duration}
    (hc : c = .setIfAbsent key token ttl) : ∃ n, i = some n ∧ token = Machine.tokenOf n := by
  cases i with
  | none =>
    obtain ⟨_, _, hstep, _⟩ := h.unborn
    cases hstep
  | some n =>
    refine ⟨n, rfl, ?_⟩
    cases p with
    | seeking =>
      cases h with
      | take => exact (StoreCall.setIfAbsent.inj hc).2.1.symm
    | inside t =>
      cases h with
      | giveUp => cases hc
    | left => cases h

theorem step {effect : Machine → Machine} {next : Machine → Thread Bool ρ (Except Fault ρ)}
    (h : Stands (plan who) key i p (.step effect next)) (s : Machine) :
    (i = none ∧ effect s = { s with issued := s.issued + 1 } ∧
        Follows { key, token := Machine.tokenOf s.issued, ttl := (plan who).ttl } .seeking (next s)) ∨
      (s.Idle (effect s) ∧ Stands (plan who) key i p (next s)) := by
  cases i with
  | none =>
    obtain ⟨_, _, hstep, hnext⟩ := h.unborn
    cases hstep
    exact Or.inl ⟨rfl, hnext s⟩
  | some n =>
    obtain ⟨he, hn⟩ := Follows.of_step h
    exact Or.inr ⟨he s, hn s⟩

theorem await {q : Bool} {next : ρ → Thread Bool ρ (Except Fault ρ)}
    (h : Stands (plan who) key i p (.await q next)) :
    (∃ t, p = .inside t) ∧ ∀ r, Stands (plan who) key i p (next r) := by
  cases i with
  | none =>
    obtain ⟨_, _, hstep, _⟩ := h.unborn
    cases hstep
  | some n =>
    cases p with
    | inside t =>
      cases h with
      | block hnext => exact ⟨⟨t, rfl⟩, hnext⟩
    | seeking => cases h
    | left => cases h

end Stands

theorem stands_of_interleaved (h : Interleaved plan key log threads s) (who : κ) :
    ∃ i p, Stands (plan who) key i p (threads who) := by
  induction h with
  | start hs => exact ⟨none, .seeking, rfl, rfl⟩
  | @call log threads s other c next hr hw ih =>
    by_cases ho : who = other
    · subst ho
      rw [Function.update_self]
      rw [hw] at ih
      obtain ⟨i, p, hstands⟩ := ih
      exact ⟨i, hstands.call _⟩
    · rw [Function.update_of_ne ho]
      exact ih
  | @step log threads s other effect next hr hw ih =>
    by_cases ho : who = other
    · subst ho
      rw [Function.update_self]
      rw [hw] at ih
      obtain ⟨i, p, hstands⟩ := ih
      rcases hstands.step s with ⟨_, _, hborn⟩ | ⟨_, hnext⟩
      · exact ⟨some s.issued, .seeking, hborn⟩
      · exact ⟨i, p, hnext⟩
    · rw [Function.update_of_ne ho]
      exact ih
  | @answer log threads s other q next r hr hw ih =>
    by_cases ho : who = other
    · subst ho
      rw [Function.update_self]
      rw [hw] at ih
      obtain ⟨i, p, hstands⟩ := ih
      exact ⟨i, p, hstands.await.2 r⟩
    · rw [Function.update_of_ne ho]
      exact ih
  | elsewhere hr he ih => exact ih

theorem Inv.call {c : StoreCall} {next : Except Fault c.Answer → Thread Bool ρ (Except Fault ρ)}
    (h : Inv plan key log threads s number progress)
    (htokens : ∀ a b, a < s.issued → b < s.issued → Machine.tokenOf a = Machine.tokenOf b → a = b)
    (hw : threads who = .call c next) :
    ∃ progress, Inv plan key
      ({ time := s.clock, who, call := c, answer := (s.callStore c).1 } :: log)
      (Function.update threads who (next (s.callStore c).1)) (s.callStore c).2 number progress := by
  have hstands := h.stands who
  have hobserved := Machine.observed_callStore s c
  obtain ⟨hanswer, hstore, hquiet⟩ := Machine.callStore_eq h.quiet c
  rw [hw] at hstands
  cases hn : number who with
  | none =>
    rw [hn] at hstands
    obtain ⟨_, _, hstep, _⟩ := hstands.unborn
    cases hstep
  | some n =>
    rw [hn] at hstands
    cases hp : progress who with
    | seeking =>
      rw [hp] at hstands
      cases hstands with
      | take htaken hheld hfault =>
        rcases s.store.call_setIfAbsent s.clock key (Machine.tokenOf n) (plan who).ttl with
          ⟨hf, he⟩ | ⟨slot, hl, he⟩
        · have ha := hanswer.trans (congrArg Prod.fst he)
          refine ⟨_, h.took htokens hn hp hf hobserved.issued hobserved.clock hquiet ?_ rfl rfl ?_ ?_⟩
          · rw [hstore, he]
          · simp only [takes, ha]
          · rw [ha]
            exact htaken
        · have ha := hanswer.trans (congrArg Prod.fst he)
          refine ⟨progress, (h.moved hobserved.issued hobserved.clock ?_ hquiet ?_).logged ?_⟩
          · rw [hstore, he]
          · rw [ha, hn, hp]
            exact hheld
          · simp only [takes, ha]
    | inside t =>
      rw [hp] at hstands
      cases hstands with
      | giveUp hleft =>
        exact ⟨_, (h.gaveUp htokens hn hobserved.issued hobserved.clock hquiet hstore
          (hleft _)).logged rfl⟩
    | left =>
      rw [hp] at hstands
      cases hstands

theorem Inv.step {effect : Machine → Machine}
    {next : Machine → Thread Bool ρ (Except Fault ρ)}
    (h : Inv plan key log threads s number progress) (hw : threads who = .step effect next) :
    ∃ number', Inv plan key log (Function.update threads who (next s)) (effect s) number'
      progress ∧ ∀ other n, number other = some n → number' other = some n := by
  have hstands := h.stands who
  rw [hw] at hstands
  rcases hstands.step s with ⟨hn, he, hborn⟩ | ⟨hidle, hnext⟩
  · rw [he]
    refine ⟨_, h.born hn hborn, fun other n ho => ?_⟩
    have hne : other ≠ who := by
      rintro rfl
      rw [hn] at ho
      cases ho
    rwa [Function.update_of_ne hne]
  · refine ⟨number, h.moved hidle.issued hidle.clock hidle.store ?_ hnext, fun _ _ => id⟩
    intro method
    rw [hidle.plans]
    exact h.quiet method

theorem Inv.answer {q : Bool} {next : ρ → Thread Bool ρ (Except Fault ρ)}
    (h : Inv plan key log threads s number progress) (hw : threads who = .await q next) (r : ρ) :
    Inv plan key log (Function.update threads who (next r)) s number progress := by
  have hstands := h.stands who
  rw [hw] at hstands
  exact h.moved rfl rfl rfl h.quiet (hstands.await.2 r)

theorem issued_step {effect : Machine → Machine} {next : Machine → Thread Bool ρ (Except Fault ρ)}
    (h : Interleaved plan key log threads s) (hw : threads who = .step effect next) :
    s.issued ≤ (effect s).issued := by
  obtain ⟨i, p, hstands⟩ := stands_of_interleaved h who
  rw [hw] at hstands
  rcases hstands.step s with ⟨_, he, _⟩ | ⟨hidle, _⟩
  · rw [he]
    exact Nat.le_succ _
  · exact Nat.le_of_eq hidle.issued.symm

theorem inv_of_interleaved (h : Interleaved plan key log threads s)
    (htokens : ∀ a b, a < s.issued → b < s.issued →
      Machine.tokenOf a = Machine.tokenOf b → a = b) :
    ∃ number progress, Inv plan key log threads s number progress ∧ Numbered key log number := by
  induction h with
  | start hs =>
    obtain ⟨hq, hf⟩ := hs
    refine ⟨fun _ => none, fun _ => .seeking, ⟨hq, fun _ => ⟨rfl, rfl⟩, nofun, nofun, ?_,
      fun _ _ => rfl, nofun, nofun⟩, fun _ hmade => absurd hmade List.not_mem_nil⟩
    refine MemoryStore.Owned.of_free hf ?_
    rintro token d ⟨who, n, t, hn, _⟩
    cases hn
  | @call log threads s who c next hr hw ih =>
    rw [(Machine.observed_callStore s c).issued] at htokens
    obtain ⟨number, progress, hi, hnumbered⟩ := ih htokens
    obtain ⟨progress', hi'⟩ := hi.call htokens hw
    refine ⟨number, progress', hi', fun made hmade token ttl hc => ?_⟩
    rcases List.mem_cons.mp hmade with rfl | hold
    · have hstands := hi.stands who
      rw [hw] at hstands
      exact hstands.token_of_call hc
    · exact hnumbered made hold token ttl hc
  | @step log threads s who effect next hr hw ih =>
    have hissued := issued_step hr hw
    obtain ⟨number, progress, hi, hnumbered⟩ := ih fun a b ha hb =>
      htokens a b (Nat.lt_of_lt_of_le ha hissued) (Nat.lt_of_lt_of_le hb hissued)
    obtain ⟨number', hi', hkept⟩ := hi.step hw
    refine ⟨number', progress, hi', fun made hmade token ttl hc => ?_⟩
    obtain ⟨n, hn, ht⟩ := hnumbered made hmade token ttl hc
    exact ⟨n, hkept _ n hn, ht⟩
  | @answer log threads s who q next r hr hw ih =>
    obtain ⟨number, progress, hi, hnumbered⟩ := ih htokens
    exact ⟨number, progress, hi.answer hw r, hnumbered⟩
  | elsewhere hr he ih =>
    obtain ⟨number, progress, hi, hnumbered⟩ := ih fun a b ha hb =>
      htokens a b (Nat.lt_of_lt_of_le ha he.issued) (Nat.lt_of_lt_of_le hb he.issued)
    refine ⟨number, progress, ⟨he.quiet hi.quiet, hi.stands, ?_, hi.distinct, ?_, hi.untaken, ?_,
      hi.apart⟩, hnumbered⟩
    · intro who n hn
      exact Nat.lt_of_lt_of_le (hi.bound who n hn) he.issued
    · exact (hi.owned.of_le he.clock).of_live?_eq (he.live _ (le_refl _))
    · intro who t ht
      obtain ⟨htakings, hle⟩ := hi.taken who t ht
      exact ⟨htakings, le_trans hle he.clock⟩

/-- Two processes are in their blocks at once only if the lease of the one that came first was over
when the other one took its own. -/
theorem precedes_of_inBlock (h : Interleaved plan key log threads s)
    (htokens : ∀ a b, a < s.issued → b < s.issued → Machine.tokenOf a = Machine.tokenOf b → a = b)
    {other : κ} (hne : who ≠ other) (hw : InBlock (threads who)) (ho : InBlock (threads other)) :
    ∃ t t', takings log who = [t] ∧ takings log other = [t'] ∧
      (Precedes plan who t t' ∨ Precedes plan other t' t) := by
  obtain ⟨number, progress, hi, _⟩ := inv_of_interleaved h htokens
  have hinside : ∀ p, InBlock (threads p) → ∃ t, progress p = .inside t := by
    rintro p ⟨retried, next, hp⟩
    have hstands := hi.stands p
    rw [hp] at hstands
    exact hstands.await.1
  obtain ⟨t, ht⟩ := hinside who hw
  obtain ⟨t', ht'⟩ := hinside other ho
  exact ⟨t, t', (hi.taken who t ht).1, (hi.taken other t' ht').1,
    hi.apart who other t t' hne ht ht'⟩

end

end LockPlan

/-- At most one client holds a lease, its key shows which, and clients that do not hold it can only
take it. So two blocks under locks on one key are open at once only if the time of the earlier lease
was over when the later one was taken. -/
theorem Lease.exclusion {ι κ ρ : Type} [DecidableEq ι] [DecidableEq κ] [Machine.Names]
    (key : String) :
    (∀ lease : ι → Lease, (∀ i, (lease i).key = key) →
      Function.Injective (fun i => (lease i).token) →
      ∀ deeds s, Reachable lease key deeds s →
        (∀ i j, Holds lease deeds i s.clock → Holds lease deeds j s.clock → i = j) ∧
        (∀ l : Lease, l.key = key → ∃ r, (s.exec l.holder.run).1 = .ok r ∧
          (∀ i, r = some (lease i).token ↔ Holds lease deeds i s.clock) ∧
          (r = none ↔ ∀ i, ¬ Holds lease deeds i s.clock)) ∧
        (∀ (i : ι) (a : Act), ∃ b s', s.exec (a.perform (lease i)).run = (.ok b, s') ∧
          (a ≠ .obtain → ¬ Holds lease deeds i s.clock → b = false ∧ s'.store = s.store))) ∧
    (∀ (plan : κ → LockPlan) (log : List (Thread.Made κ))
      (threads : κ → Thread Bool ρ (Except Fault ρ)) (s : Machine),
      LockPlan.Interleaved plan key log threads s →
      (∀ a b, a < s.issued → b < s.issued → Machine.tokenOf a = Machine.tokenOf b → a = b) →
      ∀ who other, who ≠ other → LockPlan.InBlock (threads who) →
        LockPlan.InBlock (threads other) →
        ∃ t t', LockPlan.takings log who = [t] ∧ LockPlan.takings log other = [t'] ∧
          (LockPlan.Precedes plan who t t' ∨ LockPlan.Precedes plan other t' t)) := by
  constructor
  · intro lease hkey htoken deeds s hr
    refine ⟨?_, ?_, ?_⟩
    · intro i j hi hj
      exact holds_unique htoken hkey hr hi hj
    · intro l hl
      exact exec_holder htoken hkey hr hl
    · intro i a
      exact exec_perform_of_reachable htoken hkey hr i a
  · intro plan log threads s h htokens who other hne hw ho
    exact LockPlan.precedes_of_inBlock h htokens hne hw ho

/-- A client that has not taken the lease cannot renew it, and two blocks under locks that last no
time are open at once. -/
theorem Lease.exclusion_of_two :
    (∃ (lease : Bool → Lease) (deeds : List (Deed Bool)) (s s' : Machine),
      Reachable lease "k" deeds s ∧ Holds lease deeds true s.clock ∧
        s.exec (Act.renew.perform (lease false)).run = (.ok false, s') ∧ s'.store = s.store) ∧
    ∃ (log : List (Thread.Made Bool)) (threads : Bool → Thread Bool Unit (Except Fault Unit))
      (s : Machine) (t t' : Instant),
      LockPlan.Interleaved (fun _ => { LockPlan.default with ttl := Duration.zero }) "k" log
          threads s ∧
        LockPlan.takings log true = [t] ∧ LockPlan.takings log false = [t'] := by
  constructor
  · let lease : Bool → Lease := fun b => ⟨"k", if b then "a" else "b", ⟨5⟩⟩
    have h0 : Reachable lease "k" [] (Machine.ofClock Instant.epoch) := .start (fun _ => rfl) rfl
    have h1 := h0.act true .obtain rfl
    have h2 := h1.elsewhere (Machine.elsewhere_clock ⟨0, 3⟩ (by decide))
    have hdeadline : Instant.epoch.deadline? ⟨5⟩ = some ⟨0, 5⟩ := by decide
    have hholds : Holds lease [⟨true, .obtain, Instant.epoch, true⟩] true ⟨0, 3⟩ := by
      refine ⟨Instant.epoch, rfl, fun d hd => ?_⟩
      cases hdeadline.symm.trans hd
      decide
    have htoken : Function.Injective fun b => (lease b).token := by
      intro b b' hb
      cases b <;> cases b' <;> first | rfl | exact absurd hb (by decide)
    obtain ⟨hunique, _, hact⟩ :=
      (Lease.exclusion (κ := Bool) (ρ := Unit) "k").1 lease (by decide) htoken _ _ h2
    obtain ⟨b, s', he, hnot⟩ := hact false .renew
    obtain ⟨rfl, hs⟩ := hnot (by decide) fun hfalse => nomatch hunique true false hholds hfalse
    exact ⟨lease, _, _, s', h2, hholds, he, hs⟩
  · have h0 : LockPlan.Interleaved (ρ := Unit)
        (fun _ : Bool => { LockPlan.default with ttl := Duration.zero }) "k" [] _
        (Machine.ofClock Instant.epoch) := .start ⟨fun _ => rfl, rfl⟩
    -- each of the two processes makes its token, takes its lease, counts that and notes it
    have h1 := Thread.Interleaved.step true h0 rfl
    have h2 := Thread.Interleaved.call true h1 rfl
    have h3 := Thread.Interleaved.step true h2 rfl
    have h4 := Thread.Interleaved.step true h3 rfl
    have h5 := Thread.Interleaved.step false h4 rfl
    have h6 := Thread.Interleaved.call false h5 rfl
    have h7 := Thread.Interleaved.step false h6 rfl
    have h8 := Thread.Interleaved.step false h7 rfl
    have htokens : ∀ a < 2, ∀ b < 2, Machine.tokenOf a = Machine.tokenOf b → a = b := by decide
    obtain ⟨t, t', ht, ht', _⟩ := (Lease.exclusion (ι := Bool) "k").2 _ _ _ _ h8
      (fun a b ha hb => htokens a ha b hb) true false nofun ⟨_, _, rfl⟩ ⟨_, _, rfl⟩
    exact ⟨_, _, _, t, t', h8, ht, ht'⟩

end Turnstile
