import Turnstile.Proofs.Simulation.Calls

/-!
# Threads

A thread is a program of the engine cut into atomic steps: a call to the store, a step of its own on
the machine, or a question after which it goes on once somebody has answered it. The engine's
programs are threads like any other monad's values, so any number of them can take turns on one
machine.
-/

namespace Turnstile

/-- A program that stops before every step; it asks questions `Q` and is answered with `ρ`. -/
inductive Thread (Q ρ α : Type)
  | done (a : α)
  | call (c : StoreCall) (next : Except Fault c.Answer → Thread Q ρ α)
  | step (effect : Machine → Machine) (next : Machine → Thread Q ρ α)
  | await (question : Q) (next : ρ → Thread Q ρ α)

namespace Thread

variable {Q ρ α β : Type}

/-! ### Threads as programs -/

def andThen (x : Thread Q ρ α) (f : α → Thread Q ρ β) : Thread Q ρ β :=
  match x with
  | done a => f a
  | call c next => call c fun r => (next r).andThen f
  | step effect next => step effect fun s => (next s).andThen f
  | await q next => await q fun r => (next r).andThen f

instance : Monad (Thread Q ρ) where
  pure := done
  bind := andThen

def ask (q : Q) : Thread Q ρ ρ := await q done

instance : MonadStateOf Machine (Thread Q ρ) where
  get := step id done
  set s := step (fun _ => s) fun _ => done ()
  modifyGet f := step (fun s => (f s).2) fun s => done (f s).1

instance : MonadStore (Thread Q ρ) where
  callStore c := call c done

theorem pure_eq (a : α) : (pure a : Thread Q ρ α) = done a := rfl

theorem done_bind (a : α) (f : α → Thread Q ρ β) : done a >>= f = f a := rfl

theorem bind_done (x : Thread Q ρ α) : x >>= done = x := by
  induction x with
  | done a => rfl
  | call c next ih => exact congrArg _ (funext ih)
  | step effect next ih => exact congrArg _ (funext ih)
  | await q next ih => exact congrArg _ (funext ih)

theorem bind_bind {γ : Type} (x : Thread Q ρ α) (f : α → Thread Q ρ β) (g : β → Thread Q ρ γ) :
    x >>= f >>= g = x >>= fun a => f a >>= g := by
  induction x with
  | done a => rfl
  | call c next ih => exact congrArg _ (funext ih)
  | step effect next ih => exact congrArg _ (funext ih)
  | await q next ih => exact congrArg _ (funext ih)

instance : LawfulMonad (Thread Q ρ) :=
  LawfulMonad.mk' _ bind_done (fun _ _ => rfl) bind_bind

/-! ### Running alone -/

/-- Runs a thread on a machine until it asks a question or ends. -/
def drive : Thread Q ρ α → Machine → Thread Q ρ α × Machine
  | done a, s => (done a, s)
  | call c next, s => (next (s.callStore c).1).drive (s.callStore c).2
  | step effect next, s => (next s).drive (effect s)
  | await q next, s => (await q next, s)

def answer? : Thread Q ρ α → Option α
  | done a => some a
  | _ => none

theorem drive_bind (x : Thread Q ρ α) (f : α → Thread Q ρ β) (s : Machine) :
    (x >>= f).drive s =
      match x.drive s with
      | (done a, s) => (f a).drive s
      | (y, s) => (y >>= f, s) := by
  induction x generalizing s with
  | done a => rfl
  | call c next ih => exact ih _ _
  | step effect next ih => exact ih _ _
  | await q next ih => rfl

theorem drive_bind_of_done {x : Thread Q ρ α} {s s' : Machine} {a : α}
    (h : x.drive s = (done a, s')) (f : α → Thread Q ρ β) :
    (x >>= f).drive s = (f a).drive s' := by
  rw [drive_bind, h]

theorem drive_callStore {c : StoreCall} {s s' : Machine} {r : Except Fault c.Answer}
    (h : s.callStore c = (r, s')) :
    (MonadStore.callStore c : Thread Q ρ (Except Fault c.Answer)).drive s = (done r, s') := by
  change (done (s.callStore c).1, (s.callStore c).2) = _
  rw [h]

/-- A thread that runs to its end without a question, and moves machines along a relation only. -/
def Ends (R : Machine → Machine → Prop) (x : Thread Q ρ α) : Prop :=
  ∀ s, ∃ a s', x.drive s = (done a, s') ∧ R s s'

section

variable {R : Machine → Machine → Prop}

theorem ends_callStore {c : StoreCall} (hc : ∀ s : Machine, R s (s.callStore c).2) :
    Ends R (MonadStore.callStore c : Thread Q ρ (Except Fault c.Answer)) :=
  fun s => ⟨_, _, rfl, hc s⟩

theorem ends_step {effect : Machine → α × Machine} (hs : ∀ s, R s (effect s).2) :
    Ends R (Machine.step effect : Thread Q ρ α) := fun s => ⟨_, _, rfl, hs s⟩

variable [IsPreorder Machine R]

theorem ends_pure (a : α) : Ends R (pure a : Thread Q ρ α) := fun s => ⟨a, s, rfl, refl_of R s⟩

theorem ends_bind {x : Thread Q ρ α} {f : α → Thread Q ρ β} (hx : Ends R x)
    (hf : ∀ a, Ends R (f a)) : Ends R (x >>= f) := by
  intro s
  obtain ⟨a, s', he, hr⟩ := hx s
  obtain ⟨b, s'', he', hr'⟩ := hf a s'
  exact ⟨b, s'', (drive_bind_of_done he f).trans he', trans_of R hr hr'⟩

end

/-! ### Taking turns -/

structure Made (κ : Type) where
  time : Instant
  who : κ
  call : StoreCall
  answer : Except Fault call.Answer

/-- The states that threads reach from `init` by taking turns on one machine with each other and with
what happens elsewhere; the newest calls come first. -/
inductive Interleaved {κ : Type} [DecidableEq κ] (init : κ → Thread Q ρ α)
    (starts : Machine → Prop) (elsewhere : Machine → Machine → Prop) :
    List (Made κ) → (κ → Thread Q ρ α) → Machine → Prop
  | start {s : Machine} (h : starts s) : Interleaved init starts elsewhere [] init s
  | call {log : List (Made κ)} {threads : κ → Thread Q ρ α} {s : Machine} (who : κ)
      {c : StoreCall} {next : Except Fault c.Answer → Thread Q ρ α}
      (hr : Interleaved init starts elsewhere log threads s) (hw : threads who = call c next) :
      Interleaved init starts elsewhere
        ({ time := s.clock, who, call := c, answer := (s.callStore c).1 } :: log)
        (Function.update threads who (next (s.callStore c).1)) (s.callStore c).2
  | step {log : List (Made κ)} {threads : κ → Thread Q ρ α} {s : Machine} (who : κ)
      {effect : Machine → Machine} {next : Machine → Thread Q ρ α}
      (hr : Interleaved init starts elsewhere log threads s) (hw : threads who = step effect next) :
      Interleaved init starts elsewhere log (Function.update threads who (next s)) (effect s)
  | answer {log : List (Made κ)} {threads : κ → Thread Q ρ α} {s : Machine} (who : κ) {q : Q}
      {next : ρ → Thread Q ρ α} (r : ρ)
      (hr : Interleaved init starts elsewhere log threads s) (hw : threads who = await q next) :
      Interleaved init starts elsewhere log (Function.update threads who (next r)) s
  | elsewhere {log : List (Made κ)} {threads : κ → Thread Q ρ α} {s s' : Machine}
      (hr : Interleaved init starts elsewhere log threads s) (he : elsewhere s s') :
      Interleaved init starts elsewhere log threads s'

end Thread

end Turnstile
