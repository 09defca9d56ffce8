import Turnstile.Proofs.Simulation.Moves

/-!
# Threads with a host

A thread alone with its machine and with a host, who answers its questions and may do anything to the
machine before an answer. Every store call goes on record with its answer, and every question with its
reply. `Yields` says what holds in the end; it is proved along the binds of a program.
-/

namespace Turnstile

inductive Event (Q ρ : Type)
  | called (c : StoreCall) (answer : Except Fault c.Answer)
  /-- A question, with the machine at which it was asked and the one at which it was answered. -/
  | asked (question : Q) (before : Machine) (reply : ρ) (after : Machine)

structure Scene (Q ρ : Type) where
  /-- What has been seen of the thread, the first event first. -/
  log : List (Event Q ρ)
  machine : Machine

/-- What answers questions, by all that has been seen so far. -/
abbrev Host (Q ρ : Type) := Scene Q ρ → Q → ρ × Machine

namespace Scene

variable {Q ρ : Type}

def ofMachine (s : Machine) : Scene Q ρ := { log := [], machine := s }

def called (t : Scene Q ρ) (c : StoreCall) : Scene Q ρ :=
  { log := t.log ++ [.called c (t.machine.callStore c).1], machine := (t.machine.callStore c).2 }

def asked (h : Host Q ρ) (t : Scene Q ρ) (q : Q) : Scene Q ρ :=
  { log := t.log ++ [.asked q t.machine (h t q).1 (h t q).2], machine := (h t q).2 }

end Scene

namespace Thread

variable {Q ρ α β ε : Type} {h : Host Q ρ} {t : Scene Q ρ}

/-- Runs a thread to its end. -/
def play (h : Host Q ρ) : Thread Q ρ α → Scene Q ρ → α × Scene Q ρ
  | done a, t => (a, t)
  | call c next, t => (next (t.machine.callStore c).1).play h (t.called c)
  | step effect next, t => (next t.machine).play h { t with machine := effect t.machine }
  | await q next, t => (next (h t q).1).play h (t.asked h q)

theorem play_bind (x : Thread Q ρ α) (f : α → Thread Q ρ β) (t : Scene Q ρ) :
    (x >>= f).play h t = (f (x.play h t).1).play h (x.play h t).2 := by
  induction x generalizing t with
  | done a => rfl
  | call c next ih => exact ih _ _
  | step effect next ih => exact ih _ _
  | await q next ih => exact ih _ _

/-- A thread that asks no questions comes to the same end when it runs alone. -/
theorem drive_eq_play (h : Host Empty ρ) (x : Thread Empty ρ α) (t : Scene Empty ρ) :
    x.drive t.machine = (done (x.play h t).1, (x.play h t).2.machine) := by
  induction x generalizing t with
  | done a => rfl
  | call c next ih => exact ih _ (t.called c)
  | step effect next ih => exact ih _ { t with machine := effect t.machine }
  | await q next ih => exact q.elim

/-- What holds of the answer of a thread and of the scene that it leaves. -/
def Yields (h : Host Q ρ) (x : Thread Q ρ α) (post : α → Scene Q ρ → Prop) (t : Scene Q ρ) : Prop :=
  post (x.play h t).1 (x.play h t).2

variable {x : Thread Q ρ α} {post post' : α → Scene Q ρ → Prop}

theorem Yields.mono (hx : Yields h x post t) (hp : ∀ a t', post a t' → post' a t') :
    Yields h x post' t := hp _ _ hx

theorem yields_pure {a : α} (hp : post a t) : Yields h (pure a) post t := hp

theorem yields_bind {f : α → Thread Q ρ β} {post : β → Scene Q ρ → Prop}
    (hx : Yields h x (fun a => Yields h (f a) post) t) : Yields h (x >>= f) post t := by
  unfold Yields at hx ⊢
  rw [play_bind]
  exact hx

theorem yields_step {effect : Machine → α × Machine}
    (hp : post (effect t.machine).1 { t with machine := (effect t.machine).2 }) :
    Yields h (Machine.step effect : Thread Q ρ α) post t := hp

theorem yields_callStore {c : StoreCall} {post : Except Fault c.Answer → Scene Q ρ → Prop}
    (hp : post (t.machine.callStore c).1 (t.called c)) :
    Yields h (callStore c : Attempt (Thread Q ρ) c.Answer).run post t := hp

theorem yields_ask {q : Q} {post : ρ → Scene Q ρ → Prop} (hp : post (h t q).1 (t.asked h q)) :
    Yields h (ask q) post t := hp

/-! ### Attempts and tasks -/

theorem yields_run_pure {a : α} {post : Except ε α → Scene Q ρ → Prop} (hp : post (.ok a) t) :
    Yields h (pure a : ExceptT ε (Thread Q ρ) α).run post t := hp

theorem yields_run_bind {x : ExceptT ε (Thread Q ρ) α} {f : α → ExceptT ε (Thread Q ρ) β}
    {post : Except ε β → Scene Q ρ → Prop}
    (hx : Yields h x.run (fun
      | .ok a => Yields h (f a).run post
      | .error e => post (.error e)) t) : Yields h (x >>= f).run post t := by
  rw [ExceptT.run_bind]
  refine yields_bind (hx.mono ?_)
  rintro (e | a) t' hp
  · exact hp
  · exact hp

theorem yields_run_lift {x : Thread Q ρ α} {f : α → ExceptT ε (Thread Q ρ) β}
    {post : Except ε β → Scene Q ρ → Prop} (hx : Yields h x (fun a => Yields h (f a).run post) t) :
    Yields h ((ExceptT.lift x : ExceptT ε (Thread Q ρ) α) >>= f).run post t := by
  rw [ExceptT.run_bind_lift]
  exact yields_bind hx

/-! ### Records -/

theorem yields_note {n : Notice} {post : Unit → Scene Q ρ → Prop}
    (hp : post () { t with machine := t.machine.addRecord (.notice n) }) :
    Yields h (note n) post t := hp

theorem yields_tally {c : Tally} {post : Unit → Scene Q ρ → Prop}
    (hp : post () { t with machine := t.machine.addTally c }) : Yields h (tally c) post t := hp

/-- A fault is noted, and the thread goes on. -/
theorem yields_orNote {x : Attempt (Thread Q ρ) α} {fallback : α} {handle : Fault → Notice}
    {post : α → Scene Q ρ → Prop}
    (hx : Yields h x.run (fun
      | .ok a => post a
      | .error f => fun t' =>
        post fallback { t' with machine := t'.machine.addRecord (.notice (handle f)) }) t) :
    Yields h (x.orNote fallback handle) post t := by
  refine yields_bind (hx.mono ?_)
  rintro (f | a) t' hp
  · exact hp
  · exact hp

/-! ### Threads that keep something -/

/-- A thread that leaves a scene related to the one it found, whatever its host does. -/
def Leaves (R : Scene Q ρ → Scene Q ρ → Prop) (x : Thread Q ρ α) : Prop :=
  ∀ h t, Yields h x (fun _ t' => R t t') t

section

variable {R : Scene Q ρ → Scene Q ρ → Prop}

theorem leaves_call {c : StoreCall} (hc : ∀ t : Scene Q ρ, R t (t.called c)) :
    Leaves R (callStore c : Attempt (Thread Q ρ) c.Answer).run := fun _ t => yields_callStore (hc t)

variable [IsPreorder (Scene Q ρ) R]

theorem leaves_pure (a : α) : Leaves R (pure a : Thread Q ρ α) := fun _ t => refl_of R t

theorem Leaves.bind {f : α → Thread Q ρ β} (hx : Leaves R x) (hf : ∀ a, Leaves R (f a)) :
    Leaves R (x >>= f) := fun h t =>
  yields_bind ((hx h t).mono fun a t' hr => (hf a h t').mono fun _ _ hr' => trans_of R hr hr')

theorem Leaves.run_bind {x : ExceptT ε (Thread Q ρ) α} {f : α → ExceptT ε (Thread Q ρ) β}
    (hx : Leaves R x.run) (hf : ∀ a, Leaves R (f a).run) : Leaves R (x >>= f).run := by
  rw [ExceptT.run_bind]
  refine hx.bind ?_
  rintro (e | a)
  · exact leaves_pure _
  · exact hf a

/-- A call whose answer is only followed by what leaves a related scene. -/
theorem yields_call_leaves {c : StoreCall} {f : c.Answer → Attempt (Thread Q ρ) α}
    (hf : ∀ a, Leaves R (f a).run) :
    Yields h ((callStore c : Attempt (Thread Q ρ) c.Answer) >>= f).run
      (fun _ t' => R (t.called c) t') t := by
  refine yields_run_bind (yields_callStore ?_)
  rcases (t.machine.callStore c).1 with e | a
  · exact refl_of R _
  · exact hf a h _

theorem Leaves.orNote {x : Attempt (Thread Q ρ) α} (hx : Leaves R x.run) (fallback : α)
    (handle : Fault → Notice)
    (hr : ∀ (t : Scene Q ρ) r, R t { t with machine := t.machine.addRecord r }) :
    Leaves R (x.orNote fallback handle) := fun h t => by
  refine yields_orNote ((hx h t).mono ?_)
  rintro (f | a) t' ht'
  · exact trans_of R ht' (hr t' _)
  · exact ht'

end

end Thread

end Turnstile
