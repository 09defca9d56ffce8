import Turnstile.Proofs.Engine.Guarantee
import Turnstile.Proofs.Simulation.Shares

/-!
# Threads confined to a kind

A thread is confined to a kind when each of its steps sees and changes no more than what the machine
holds for that kind. Names are not made up by the machine here: a thread asks for each name that it
needs. So a confined thread goes the same way on any two machines that hold the same for its kind, and
what a machine holds for other kinds stays as it is.
-/

namespace Turnstile

/-- What a thread asks for: an id for a job, or a token. -/
inductive NameSort
  | jobId
  | token
deriving DecidableEq

/-- A thread that asks for names goes on with the names it is told. -/
instance Thread.instMonadFresh : MonadFresh (Thread NameSort String) where
  freshJobId := ask .jobId
  freshToken := ask .token

namespace Thread

/-- One step of a thread; a question is answered by `name`. -/
def move {Q ρ α : Type} (name : Q → ρ) : Thread Q ρ α → Machine → Thread Q ρ α × Machine
  | done a, s => (done a, s)
  | call c next, s => (next (s.callStore c).1, (s.callStore c).2)
  | step effect next, s => (next s, effect s)
  | await q next, s => (next (name q), s)

variable {α β ε : Type} {kindOf : String → String} {kind kind' : String} {since : Instant}

/-- A machine on which nothing is out of place, at a time when the thread has begun. -/
structure Begun (kindOf : String → String) (since : Instant) (s : Machine) : Prop where
  tidy : s.Tidy kindOf
  since : since ≤ s.clock

/-- An effect that sees and changes no more than what is held for a kind. -/
structure Local (kindOf : String → String) (kind : String) (since : Instant)
    (effect : Machine → Machine) : Prop where
  clock : ∀ s, Begun kindOf since s → (effect s).clock = s.clock
  tidy : ∀ s, Begun kindOf since s → (effect s).Tidy kindOf
  same : ∀ s t, Begun kindOf since s → Begun kindOf since t → s.Same kindOf kind t →
    (effect s).Same kindOf kind (effect t)
  apart : ∀ s kind', Begun kindOf since s → kind' ≠ kind → s.Same kindOf kind' (effect s)

/-- Every step of the thread keeps to a kind, and `post` holds of its result. -/
def Confined (kindOf : String → String) (kind : String) (since : Instant) :
    Thread NameSort String α → (α → Prop) → Prop
  | done a, post => post a
  | call c next, post =>
    KeyOf kindOf kind c.key ∧
      (∀ id ttl, c = .setAdd (RunningSet.keyOf kind) id ttl → IdOf kindOf kind id) ∧
      ∀ s, Begun kindOf since s → Confined kindOf kind since (next (s.callStore c).1) post
  | step effect next, post =>
    Local kindOf kind since effect ∧
      (∀ s t, Begun kindOf since s → Begun kindOf since t → s.Same kindOf kind t →
        next s = next t) ∧
      ∀ s, Begun kindOf since s → Confined kindOf kind since (next s) post
  | await sort next, post =>
    ∀ name, (sort = .jobId → IdOf kindOf kind name) → Confined kindOf kind since (next name) post

variable {x : Thread NameSort String α} {post post' : α → Prop} {s t : Machine}
  {n : NameSort → String}

/-! ### One step -/

theorem Confined.move (h : Confined kindOf kind since x post) (hs : Begun kindOf since s)
    (hn : IdOf kindOf kind (n .jobId)) :
    Confined kindOf kind since (x.move n s).1 post ∧ (x.move n s).2.Tidy kindOf ∧
      (x.move n s).2.clock = s.clock := by
  cases x with
  | done a => exact ⟨h, hs.tidy, rfl⟩
  | call c next =>
    obtain ⟨hk, hid, hnext⟩ := h
    have hcalled := Machine.called_callStore s c
    exact ⟨hnext s hs, hs.tidy.called hcalled hk hid, hcalled.clock⟩
  | step effect next =>
    obtain ⟨hlocal, -, hnext⟩ := h
    exact ⟨hnext s hs, hlocal.tidy s hs, hlocal.clock s hs⟩
  | await sort next =>
    refine ⟨h (n sort) ?_, hs.tidy, rfl⟩
    rintro rfl
    exact hn

theorem Confined.move_same (h : Confined kindOf kind since x post) (hs : Begun kindOf since s)
    (ht : Begun kindOf since t) (hst : s.Same kindOf kind t) :
    (x.move n s).1 = (x.move n t).1 ∧
      (x.move n s).2.Same kindOf kind (x.move n t).2 := by
  cases x with
  | done a => exact ⟨rfl, hst⟩
  | call c next =>
    obtain ⟨hanswer, hsame⟩ := hst.called hs.tidy.quiet ht.tidy.quiet h.1
    exact ⟨congrArg next hanswer, hsame⟩
  | step effect next =>
    obtain ⟨hlocal, hsame, -⟩ := h
    exact ⟨hsame s t hs ht hst, hlocal.same s t hs ht hst⟩
  | await sort next => exact ⟨rfl, hst⟩

theorem Confined.move_apart (h : Confined kindOf kind since x post) (hs : Begun kindOf since s)
    (hne : kind' ≠ kind) : s.Same kindOf kind' (x.move n s).2 := by
  cases x with
  | done a => exact .refl s
  | call c next => exact .of_called (Machine.called_callStore s c) hs.tidy.quiet h.1 hne
  | step effect next => exact h.1.apart s kind' hs hne
  | await sort next => exact .refl s

/-! ### Programs -/

theorem Confined.mono (h : Confined kindOf kind since x post) (hpost : ∀ a, post a → post' a) :
    Confined kindOf kind since x post' := by
  induction x with
  | done a => exact hpost a h
  | call c next ih => exact ⟨h.1, h.2.1, fun s hs => ih _ (h.2.2 s hs)⟩
  | step effect next ih => exact ⟨h.1, h.2.1, fun s hs => ih _ (h.2.2 s hs)⟩
  | await sort next ih => exact fun name hn => ih _ (h name hn)

theorem Confined.bind {f : α → Thread NameSort String β} {q : β → Prop}
    (h : Confined kindOf kind since x post)
    (hf : ∀ a, post a → Confined kindOf kind since (f a) q) :
    Confined kindOf kind since (x >>= f) q := by
  induction x with
  | done a => exact hf a h
  | call c next ih => exact ⟨h.1, h.2.1, fun s hs => ih _ (h.2.2 s hs)⟩
  | step effect next ih =>
    refine ⟨h.1, fun s t hs ht hst => ?_, fun s hs => ih _ (h.2.2 s hs)⟩
    exact congrArg (· >>= f) (h.2.1 s t hs ht hst)
  | await sort next ih => exact fun name hn => ih _ (h name hn)

theorem confined_pure {a : α} (h : post a) :
    Confined kindOf kind since (pure a : Thread NameSort String α) post := h

theorem confined_step {effect : Machine → α × Machine}
    (hlocal : Local kindOf kind since fun s => (effect s).2)
    (hsame : ∀ s t, Begun kindOf since s → Begun kindOf since t → s.Same kindOf kind t →
      (effect s).1 = (effect t).1)
    (hpost : ∀ s, Begun kindOf since s → post (effect s).1) :
    Confined kindOf kind since (Machine.step effect : Thread NameSort String α) post :=
  ⟨hlocal, fun s t hs ht hst => congrArg done (hsame s t hs ht hst), hpost⟩

theorem confined_callStore {c : StoreCall} {p : c.Answer → Prop} (hk : KeyOf kindOf kind c.key)
    (hid : ∀ id ttl, c = .setAdd (RunningSet.keyOf kind) id ttl → IdOf kindOf kind id)
    (hp : ∀ s, Begun kindOf since s → Succeeds p (s.callStore c).1) :
    Confined kindOf kind since (callStore c : Attempt (Thread NameSort String) c.Answer).run
      (Succeeds p) := ⟨hk, hid, hp⟩

theorem confined_freshJobId :
    Confined kindOf kind since (MonadFresh.freshJobId : Thread NameSort String String)
      (IdOf kindOf kind) := fun _ hn => hn rfl

/-! ### Attempts and tasks -/

section

variable {p : α → Prop} {q : β → Prop}

theorem confined_ok {a : α} (h : p a) :
    Confined kindOf kind since (pure a : ExceptT ε (Thread NameSort String) α).run (Succeeds p) := h

theorem confined_throw (e : ε) :
    Confined kindOf kind since (throw e : ExceptT ε (Thread NameSort String) α).run (Succeeds p) :=
  trivial

theorem Confined.run_bind {x : ExceptT ε (Thread NameSort String) α}
    {f : α → ExceptT ε (Thread NameSort String) β}
    (hx : Confined kindOf kind since x.run (Succeeds p))
    (hf : ∀ a, p a → Confined kindOf kind since (f a).run (Succeeds q)) :
    Confined kindOf kind since (x >>= f).run (Succeeds q) := by
  rw [ExceptT.run_bind]
  refine hx.bind ?_
  rintro (e | a) ha
  · exact trivial
  · exact hf a ha

theorem Confined.run_lift (h : Confined kindOf kind since x p) :
    Confined kindOf kind since (ExceptT.lift x : ExceptT ε (Thread NameSort String) α).run
      (Succeeds p) := h.bind fun _ ha => ha

/-- An attempt as a part of a task. -/
theorem Confined.run_liftM {x : Attempt (Thread NameSort String) α}
    (h : Confined kindOf kind since x.run (Succeeds p)) :
    Confined kindOf kind since (liftM x : Task (Thread NameSort String) α).run (Succeeds p) := by
  refine h.bind ?_
  rintro (f | a) ha
  · exact trivial
  · exact ha

end

/-! ### Steps that keep to every kind -/

theorem Local.of_logged {effect : Machine → Machine}
    (h : ∀ s, Begun kindOf since s → s.Logged (effect s)) : Local kindOf kind since effect where
  clock s hs := (h s hs).clock
  tidy s hs := hs.tidy.logged (h s hs)
  same s t hs ht hst := by
    have hback : (effect s).Same kindOf kind s := (Machine.Same.of_logged (h s hs)).symm
    exact hback.trans (hst.trans (.of_logged (h t ht)))
  apart s _ hs _ := .of_logged (h s hs)

theorem confined_record (r : JournalRecord) :
    Confined kindOf kind since (MonadJournal.record r : Thread NameSort String Unit)
      fun _ => True :=
  confined_step (.of_logged fun s _ => Machine.logged_addRecord s r) (fun _ _ _ _ _ => rfl)
    fun _ _ => trivial

theorem confined_note (n : Notice) :
    Confined kindOf kind since (note n : Thread NameSort String Unit) fun _ => True :=
  confined_record _

theorem confined_tally (t : Tally) :
    Confined kindOf kind since (tally t : Thread NameSort String Unit) fun _ => True :=
  confined_step (.of_logged fun s _ => Machine.logged_addTally s t) (fun _ _ _ _ _ => rfl)
    fun _ _ => trivial

theorem confined_now :
    Confined kindOf kind since (now : Thread NameSort String Instant) fun now' => since ≤ now' :=
  confined_step (.of_logged fun _ _ => .of_plans rfl rfl rfl rfl rfl rfl)
    (fun _ _ _ _ hst => hst.clock) fun _ hs => hs.since

theorem confined_raise (f : Fault) {p : α → Prop} :
    Confined kindOf kind since (raise f : Attempt (Thread NameSort String) α).run (Succeeds p) :=
  (confined_tally _).run_lift.run_bind fun _ _ => confined_throw f

theorem Confined.orNote {x : Attempt (Thread NameSort String) α} {p : α → Prop}
    (hx : Confined kindOf kind since x.run (Succeeds p)) {a : α} (ha : p a)
    (handle : Fault → Notice) : Confined kindOf kind since (x.orNote a handle) p := by
  refine hx.bind ?_
  rintro (f | b) hb
  · exact (confined_note _).bind fun _ _ => confined_pure ha
  · exact confined_pure hb

end Thread

end Turnstile
