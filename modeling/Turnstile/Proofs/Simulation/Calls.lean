import Mathlib.Order.Defs.Unbundled
import Turnstile.Proofs.Store.Memory
import Turnstile.Simulation.Machine

/-!
# Running the engine on a machine

What a program of the engine answers on a machine, and the machine it leaves. A machine without
plans is quiet: its store does what the store in memory does.
-/

namespace Turnstile.Machine

variable {s s' : Machine} {α β ε : Type}

/-! ### Running a program -/

def exec (x : StateM Machine α) (s : Machine) : α × Machine := (x.run s).run

theorem exec_bind (x : StateM Machine α) (f : α → StateM Machine β) :
    exec (x >>= f) s = exec (f (exec x s).1) (exec x s).2 := rfl

theorem exec_run_callStore (c : StoreCall) :
    exec (Turnstile.callStore c : Attempt (StateM Machine) c.Answer).run s = s.callStore c := rfl

theorem exec_now : exec now s = (s.clock, s) := rfl

theorem exec_modifyQueue (f : Queue → α × Queue) :
    exec (modifyQueue f) s = ((f s.queue).1, { s with queue := (f s.queue).2 }) := rfl

theorem exec_run_bind (x : ExceptT ε (StateM Machine) α) (f : α → ExceptT ε (StateM Machine) β) :
    exec (x >>= f).run s =
      match exec x.run s with
      | (.ok a, s) => exec (f a).run s
      | (.error e, s) => (.error e, s) := by
  rw [ExceptT.run_bind, exec_bind]
  rcases exec x.run s with ⟨_ | a, s'⟩ <;> rfl

theorem exec_run_pure (a : α) :
    exec (pure a : ExceptT ε (StateM Machine) α).run s = (.ok a, s) := rfl

theorem exec_run_lift (x : StateM Machine α) :
    exec (ExceptT.lift x : ExceptT ε (StateM Machine) α).run s =
      (.ok (exec x s).1, (exec x s).2) := rfl

/-! ### Store calls -/

/-- Nothing is planned, so no call fails unless the store in memory makes it. -/
def Quiet (s : Machine) : Prop := ∀ method, s.plans.getD method [] = []

theorem noteCall_of_quiet (h : s.Quiet) (c : SeamCall) :
    (s.noteCall c).1 = none ∧ (s.noteCall c).2.Quiet := by
  simp only [noteCall, h c.method, Plan.next]
  refine ⟨trivial, ?_⟩
  intro method
  simp only [Keyed.getD, Keyed.get?_insert]
  split
  · rfl
  · exact h method

theorem callStore_of_quiet (h : s.Quiet) (c : StoreCall) :
    s.callStore c = (s.noteCall (.store c)).2.callMemory c := by
  obtain ⟨hn, _⟩ := noteCall_of_quiet h (.store c)
  unfold callStore
  rcases hc : s.noteCall (.store c) with ⟨_ | _, s'⟩
  · rfl
  · rw [hc] at hn
    cases hn

/-- What a call at a seam may change besides the store: what is on record. -/
structure Observed (s s' : Machine) : Prop where
  clock : s'.clock = s.clock
  queue : s'.queue = s.queue
  issued : s'.issued = s.issued

theorem Observed.refl (s : Machine) : Observed s s := ⟨rfl, rfl, rfl⟩

theorem Observed.trans {s'' : Machine} (h : Observed s s') (h' : Observed s' s'') :
    Observed s s'' :=
  ⟨h'.clock.trans h.clock, h'.queue.trans h.queue, h'.issued.trans h.issued⟩

theorem observed_countFault (r : Except Fault α) : Observed s (s.countFault r) := by
  cases r <;> exact ⟨rfl, rfl, rfl⟩

theorem observed_callMemory (s : Machine) (c : StoreCall) : Observed s (s.callMemory c).2 := by
  have h : Observed s { s with store := (s.store.call s.clock c).2 } := ⟨rfl, rfl, rfl⟩
  exact h.trans (observed_countFault _)

theorem observed_callStore (s : Machine) (c : StoreCall) : Observed s (s.callStore c).2 := by
  have hn : Observed s (s.noteCall (.store c)).2 := ⟨rfl, rfl, rfl⟩
  unfold callStore
  rcases hc : s.noteCall (.store c) with ⟨_ | _ | _, s'⟩ <;> rw [hc] at hn
  · exact hn.trans (observed_callMemory s' c)
  · exact hn
  · exact hn.trans ⟨rfl, rfl, rfl⟩

theorem store_countFault (r : Except Fault α) :
    (s.countFault r).store = s.store ∧ (s.countFault r).plans = s.plans := by
  cases r <;> exact ⟨rfl, rfl⟩

theorem callStore_eq (h : s.Quiet) (c : StoreCall) :
    (s.callStore c).1 = (s.store.call s.clock c).1 ∧
      (s.callStore c).2.store = (s.store.call s.clock c).2 ∧ (s.callStore c).2.Quiet := by
  obtain ⟨_, hq⟩ := noteCall_of_quiet h (.store c)
  rw [callStore_of_quiet h]
  simp only [callMemory]
  refine ⟨rfl, (store_countFault _).1, ?_⟩
  intro method
  rw [(store_countFault _).2]
  exact hq method

theorem callStore_spec (h : s.Quiet) (c : StoreCall) :
    ∃ s', s.callStore c = ((s.store.call s.clock c).1, s') ∧
      s'.store = (s.store.call s.clock c).2 ∧ s'.Quiet ∧ s.Observed s' := by
  obtain ⟨hanswer, hstore, hquiet⟩ := callStore_eq h c
  exact ⟨_, Prod.ext hanswer rfl, hstore, hquiet, observed_callStore s c⟩

/-! ### Programs that keep something -/

/-- A program that moves machines along a relation only. -/
def Always (R : Machine → Machine → Prop) (x : StateM Machine α) : Prop :=
  ∀ s : Machine, R s (s.exec x).2

section

variable {R : Machine → Machine → Prop} [IsPreorder Machine R]

theorem always_pure (a : α) : Always R (pure a) := fun s => refl_of R s

theorem always_bind {x : StateM Machine α} {f : α → StateM Machine β} (hx : Always R x)
    (hf : ∀ a, Always R (f a)) : Always R (x >>= f) := fun s => trans_of R (hx s) (hf _ _)

theorem always_run_bind {x : ExceptT ε (StateM Machine) α}
    {f : α → ExceptT ε (StateM Machine) β} (hx : Always R x.run)
    (hf : ∀ a, Always R (f a).run) : Always R (x >>= f).run := by
  intro s
  have h := hx s
  rw [exec_run_bind]
  rcases hr : exec x.run s with ⟨_ | a, s'⟩ <;> rw [hr] at h
  · exact h
  · exact trans_of R h (hf a s')

end

/-! ### Programs that leave clock and queues alone -/

instance : IsPreorder Machine Observed where
  refl := Observed.refl
  trans _ _ _ := Observed.trans

theorem observes_note (n : Notice) : Always Observed (note n) := fun _ => ⟨rfl, rfl, rfl⟩

theorem observes_tally (t : Tally) : Always Observed (tally t) := fun _ => ⟨rfl, rfl, rfl⟩

theorem observes_callStore (c : StoreCall) :
    Always Observed (Turnstile.callStore c : Attempt (StateM Machine) c.Answer).run :=
  fun s => observed_callStore s c

end Turnstile.Machine
