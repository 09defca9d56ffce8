import Turnstile.Engine.Effect
import Turnstile.Store.Memory

/-!
# Dialogues

A dialogue is a program of the engine cut at everything it asks of its surroundings: calls to the
store, entries of the journal, counters, waiting, fresh names, and a block of the caller's. What it is
told depends on its partner alone, who may do anything between two inquiries: a store call that
does not fail is only known to be one of the store of one process, on whatever others have made of it.
-/

namespace Turnstile

/-! ### Inquiries -/

inductive Inquiry
  | store (c : StoreCall)
  | record (r : JournalRecord)
  | tally (t : Tally)
  | sleep (d : Duration)
  | jitter
  | jobId
  | token
  /-- The caller's block, which is told a flag. -/
  | block (flag : Bool)

/-- What an inquiry is told; a block ends with a value or a panic in `ρ`. -/
abbrev Inquiry.Reply (ρ : Type) : Inquiry → Type
  | store c => Except Fault c.Answer
  | record _ | tally _ | sleep _ => Unit
  | jitter => Double
  | jobId | token => String
  | block _ => ρ

structure Exchange (ρ : Type) where
  asked : Inquiry
  reply : asked.Reply ρ

/-- What has been exchanged so far, the first exchange first. -/
abbrev Past (ρ : Type) := List (Exchange ρ)

inductive Dialogue (ρ α : Type)
  | done (a : α)
  | ask (q : Inquiry) (next : q.Reply ρ → Dialogue ρ α)

namespace Dialogue

variable {ρ α β : Type}

def andThen (x : Dialogue ρ α) (f : α → Dialogue ρ β) : Dialogue ρ β :=
  match x with
  | done a => f a
  | ask q next => ask q fun r => (next r).andThen f

instance : Monad (Dialogue ρ) where
  pure := done
  bind := andThen

instance : MonadStore (Dialogue ρ) where
  callStore c := ask (.store c) done

instance : MonadJournal (Dialogue ρ) where
  record r := ask (.record r) done
  tally t := ask (.tally t) done

instance : MonadWait (Dialogue ρ) where
  sleep d := ask (.sleep d) done
  jitter := ask .jitter done

instance : MonadFresh (Dialogue ρ) where
  freshJobId := ask .jobId done
  freshToken := ask .token done

/-- The caller's block. -/
def block (flag : Bool) : Dialogue ρ ρ := ask (.block flag) done

end Dialogue

/-! ### Partners -/

/-- What answers a program, by what the two have exchanged so far. -/
structure Partner (ρ : Type) where
  /-- The store at the next inquiry, after whatever others have done to it. -/
  store : Past ρ → MemoryStore
  clock : Past ρ → Instant
  reply : Past ρ → (q : Inquiry) → q.Reply ρ
  /-- The store right after a call. -/
  left : Past ρ → StoreCall → MemoryStore
  answers : ∀ past c, (∃ f, reply past (.store c) = .error f) ∨
    (reply past (.store c), left past c) = (store past).call (clock past) c

namespace Partner

variable {ρ α β : Type} (w : Partner ρ)

/-- The past once an inquiry has been answered. -/
def said (past : Past ρ) (q : Inquiry) : Past ρ := past ++ [⟨q, w.reply past q⟩]

/-- All that a dialogue exchanges, and its value. -/
def course : Dialogue ρ α → Past ρ → Past ρ × α
  | .done a, past => (past, a)
  | .ask q next, past => course (next (w.reply past q)) (w.said past q)

variable {w}

theorem course_bind (x : Dialogue ρ α) (f : α → Dialogue ρ β) (past : Past ρ) :
    w.course (x >>= f) past = w.course (f (w.course x past).2) (w.course x past).1 := by
  induction x generalizing past with
  | done a => rfl
  | ask q next ih => exact ih (w.reply past q) (w.said past q)

/-- A call that is answered acts on the store. -/
theorem call_eq {past : Past ρ} {c : StoreCall} {a : c.Answer}
    (h : w.reply past (.store c) = .ok a) :
    ((w.store past).call (w.clock past) c).1 = .ok a ∧
      w.left past c = ((w.store past).call (w.clock past) c).2 := by
  rcases w.answers past c with hfail | hcall
  · obtain ⟨f, hf⟩ := hfail
    rw [h] at hf
    cases hf
  · rw [← hcall]
    exact ⟨h, rfl⟩

/-- The store right after an inquiry. -/
def after (w : Partner ρ) (past : Past ρ) : Inquiry → MemoryStore
  | .store c => w.left past c
  | _ => w.store past

/-- A call that fails has either not reached the store, or has acted on it all the same. -/
def Faithful (w : Partner ρ) : Prop :=
  ∀ past c, w.left past c = w.store past ∨
    w.left past c = ((w.store past).call (w.clock past) c).2

/-- Every call of the program's own is made after a past that fits it. -/
def EachCall (P : Past ρ → StoreCall → Prop) (past : Past ρ) : Prop :=
  ∀ before c r after, past = before ++ ⟨.store c, r⟩ :: after → P before c

section

variable {P : Past ρ → StoreCall → Prop}

theorem eachCall_nil : EachCall P [] := by
  intro before c r after h
  cases before <;> cases h

theorem EachCall.said {past : Past ρ} {q : Inquiry} (h : EachCall P past)
    (hq : ∀ c, q = .store c → P past c) : EachCall P (w.said past q) := by
  intro before c r after heq
  rcases List.eq_nil_or_concat after with hnil | ⟨more, last, rfl⟩
  · subst hnil
    obtain ⟨rfl, hlast⟩ := List.append_inj' heq rfl
    cases hlast
    exact hq c rfl
  · apply h before c r more
    rw [List.concat_eq_append, ← List.cons_append, ← List.append_assoc] at heq
    exact (List.append_inj' heq rfl).1

theorem EachCall.aside {past : Past ρ} {q : Inquiry} (h : EachCall P past)
    (hq : ∀ c, q ≠ .store c) : EachCall P (w.said past q) :=
  h.said fun c hc => absurd hc (hq c)

end

/-- No call of the program's own that is answered changes the store. -/
def Untouched (w : Partner ρ) (past : Past ρ) : Prop :=
  ∀ before c r after, past = before ++ ⟨.store c, r⟩ :: after → w.left before c = w.store before

theorem untouched_nil : w.Untouched [] := eachCall_nil

theorem Untouched.said {past : Past ρ} {q : Inquiry} (h : w.Untouched past)
    (hq : ∀ c, q = .store c → w.left past c = w.store past) : w.Untouched (w.said past q) :=
  EachCall.said h hq

theorem Untouched.aside {past : Past ρ} {q : Inquiry} (h : w.Untouched past)
    (hq : ∀ c, q ≠ .store c) : w.Untouched (w.said past q) :=
  h.said fun c hc => absurd hc (hq c)

/-- A partner whose store never fails, with one name to give and one outcome of the block. -/
def reliable (store : Past ρ → MemoryStore) (clock : Past ρ → Instant) (name : String) (outcome : ρ) :
    Partner ρ where
  store := store
  clock := clock
  reply past
    | .store c => ((store past).call (clock past) c).1
    | .record _ | .tally _ | .sleep _ => ()
    | .jitter => Double.zero false
    | .jobId | .token => name
    | .block _ => outcome
  left past c := ((store past).call (clock past) c).2
  answers _ _ := Or.inr rfl

end Partner

/-! ### What was exchanged -/

namespace Inquiry

def times : Inquiry → List Duration
  | sleep d => [d]
  | _ => []

def tallies : Inquiry → List Tally
  | tally t => [t]
  | _ => []

def flags : Inquiry → List Bool
  | block flag => [flag]
  | _ => []

def calls : Inquiry → List StoreCall
  | store c => [c]
  | _ => []

end Inquiry

namespace Past

variable {ρ : Type} {w : Partner ρ}

/-- The times that were slept. -/
def slept (past : Past ρ) : List Duration := past.flatMap fun e => e.asked.times

def tallied (past : Past ρ) : List Tally := past.flatMap fun e => e.asked.tallies

/-- The flags with which the block was run. -/
def entered (past : Past ρ) : List Bool := past.flatMap fun e => e.asked.flags

def called (past : Past ρ) : List StoreCall := past.flatMap fun e => e.asked.calls

theorem flatMap_said {β : Type} (f : Inquiry → List β) (past : Past ρ) (q : Inquiry) :
    ((w.said past q).flatMap fun e => f e.asked) = (past.flatMap fun e => f e.asked) ++ f q := by
  rw [Partner.said, List.flatMap_append, List.flatMap_singleton]

@[simp] theorem slept_said (past : Past ρ) (q : Inquiry) :
    slept (w.said past q) = slept past ++ q.times := flatMap_said _ past q

@[simp] theorem tallied_said (past : Past ρ) (q : Inquiry) :
    tallied (w.said past q) = tallied past ++ q.tallies := flatMap_said _ past q

@[simp] theorem entered_said (past : Past ρ) (q : Inquiry) :
    entered (w.said past q) = entered past ++ q.flags := flatMap_said _ past q

@[simp] theorem called_said (past : Past ρ) (q : Inquiry) :
    called (w.said past q) = called past ++ q.calls := flatMap_said _ past q

end Past

end Turnstile
