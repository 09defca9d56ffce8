import Turnstile.Proofs.Engine.Course
import Turnstile.Proofs.Store.Membership

/-!
# Moves of a machine

What store calls and records do to a machine, seen from a running set and from the queues. A relation
that is `Lenient` allows all that leaves the store as it is, a `Freeing` one also calls that store
nothing.
-/

namespace Turnstile

open scoped List

namespace RunningSet

theorem mem_of_batches {size : Nat} {xs batch : List String} {x : String}
    (hb : batch ∈ batches size xs) (hx : x ∈ batch) : x ∈ xs := by
  induction xs using batches.induct size with
  | case1 =>
    rw [batches] at hb
    cases hb
  | case2 y rest ih =>
    rw [batches] at hb
    rcases List.mem_cons.mp hb with rfl | hrest
    · rcases List.mem_cons.mp hx with rfl | htake
      · exact List.mem_cons_self
      · exact List.mem_cons_of_mem _ (List.mem_of_mem_take htake)
    · exact List.mem_cons_of_mem _ (List.mem_of_mem_drop (ih hrest))

end RunningSet

namespace Machine

variable {s s' s'' : Machine} {kind id : String} {c : StoreCall}

def members (s : Machine) (kind : String) : List String :=
  s.store.membersAt s.clock (RunningSet.keyOf kind)

/-- A step that does no more than to put something on record. -/
structure Logged (s s' : Machine) : Prop where
  clock : s'.clock = s.clock
  store : s'.store = s.store
  queue : s'.queue = s.queue
  loads : s'.loads = s.loads
  issued : s'.issued = s.issued
  quiet : s.Quiet → s'.Quiet

theorem Logged.trans (h : s.Logged s') (h' : s'.Logged s'') : s.Logged s'' :=
  ⟨h'.clock.trans h.clock, h'.store.trans h.store, h'.queue.trans h.queue, h'.loads.trans h.loads,
    h'.issued.trans h.issued, fun hq => h'.quiet (h.quiet hq)⟩

theorem Logged.of_plans (hc : s'.clock = s.clock) (hs : s'.store = s.store)
    (hq : s'.queue = s.queue) (hl : s'.loads = s.loads) (hi : s'.issued = s.issued)
    (hp : s'.plans = s.plans) : s.Logged s' := by
  refine ⟨hc, hs, hq, hl, hi, ?_⟩
  intro hquiet method
  rw [hp]
  exact hquiet method

theorem Logged.members (h : s.Logged s') : s'.members kind = s.members kind := by
  rw [Machine.members, h.store, h.clock]
  rfl

theorem logged_addRecord (s : Machine) (r : JournalRecord) : s.Logged (s.addRecord r) :=
  .of_plans rfl rfl rfl rfl rfl rfl

theorem logged_addTally (s : Machine) (t : Tally) : s.Logged (s.addTally t) :=
  .of_plans rfl rfl rfl rfl rfl rfl

/-! ### Store calls -/

structure Called (c : StoreCall) (s s' : Machine) : Prop where
  clock : s'.clock = s.clock
  queue : s'.queue = s.queue
  loads : s'.loads = s.loads
  issued : s'.issued = s.issued
  quiet : s.Quiet → s'.Quiet
  store : s.Quiet → s'.store = (s.store.call s.clock c).2

theorem loads_callStore (s : Machine) (c : StoreCall) : (s.callStore c).2.loads = s.loads := by
  have hcount {α : Type} (s : Machine) (r : Except Fault α) : (s.countFault r).loads = s.loads := by
    cases r <;> rfl
  have hn : (s.noteCall (.store c)).2.loads = s.loads := rfl
  unfold callStore
  rcases hc : s.noteCall (.store c) with ⟨_ | _ | _, s'⟩ <;> rw [hc] at hn
  · exact (hcount _ _).trans hn
  · exact hn
  · exact hn

theorem called_callStore (s : Machine) (c : StoreCall) : Called c s (s.callStore c).2 where
  clock := (observed_callStore s c).clock
  queue := (observed_callStore s c).queue
  loads := loads_callStore s c
  issued := (observed_callStore s c).issued
  quiet h := (callStore_eq h c).2.2
  store h := (callStore_eq h c).2.1

theorem Called.members (h : Called c s s') (hq : s.Quiet) :
    s'.members kind = (s.store.call s.clock c).2.membersAt s.clock (RunningSet.keyOf kind) := by
  rw [Machine.members, h.store hq, h.clock]

theorem Called.members_sublist (h : Called c s s') (hq : s.Quiet)
    (hc : ∀ text ttl, c ≠ .setAdd (RunningSet.keyOf kind) text ttl) :
    s'.members kind <+ s.members kind := by
  rw [h.members hq]
  exact MemoryStore.membersAt_call _ _ hc

/-! ### What others may do -/

/-- A relation that allows records and calls that only read. -/
class Lenient (R : Machine → Machine → Prop) : Prop extends IsPreorder Machine R where
  logged {s s' : Machine} (h : s.Logged s') : R s s'
  reads {s s' : Machine} {c : StoreCall} (hc : c.Reads) (h : Called c s s') : R s s'

/-- A relation that also allows calls that store nothing. -/
class Freeing (R : Machine → Machine → Prop) : Prop extends Lenient R where
  frees {s s' : Machine} {c : StoreCall} (hc : c.Frees) (h : Called c s s') : R s s'

/-- A quiet machine stays quiet, and nobody joins the running set of a kind. -/
def Thins (kind : String) (s s' : Machine) : Prop :=
  s.Quiet → s'.Quiet ∧ s'.members kind <+ s.members kind

theorem thins_of_called (h : Called c s s')
    (hc : ∀ text ttl, c ≠ .setAdd (RunningSet.keyOf kind) text ttl) : Thins kind s s' :=
  fun hq => ⟨h.quiet hq, h.members_sublist hq hc⟩

instance : Freeing (Thins kind) where
  refl s hq := ⟨hq, List.Sublist.refl _⟩
  trans s s' s'' h h' hq := by
    obtain ⟨hq', hm⟩ := h hq
    obtain ⟨hq'', hm'⟩ := h' hq'
    exact ⟨hq'', hm'.trans hm⟩
  logged h hq := ⟨h.quiet hq, by rw [h.members]⟩
  reads hc h := by
    refine thins_of_called h ?_
    rintro text ttl rfl
    exact hc
  frees hc h := by
    refine thins_of_called h ?_
    rintro text ttl rfl
    exact hc

/-- Time passes: members may expire. -/
theorem thins_later (h : s.clock ≤ s'.clock) (hs : s'.store = s.store)
    (hq : s.Quiet → s'.Quiet) : Thins kind s s' := by
  intro hquiet
  refine ⟨hq hquiet, ?_⟩
  rw [members, hs]
  exact MemoryStore.membersAt_later h

/-- A step that leaves the queue alone and registers no job of the kind. -/
structure Clears (kind : String) (s s' : Machine) : Prop where
  issued : s.issued ≤ s'.issued
  thins : Thins kind s s'
  queue : s'.queue = s.queue

theorem clears_of_called (h : Called c s s')
    (hc : ∀ text ttl, c ≠ .setAdd (RunningSet.keyOf kind) text ttl) : Clears kind s s' :=
  ⟨Nat.le_of_eq h.issued.symm, thins_of_called h hc, h.queue⟩

instance : Freeing (Clears kind) where
  refl s := ⟨Nat.le_refl _, refl_of (Thins kind) s, rfl⟩
  trans _ _ _ h h' := ⟨h.issued.trans h'.issued, trans_of (Thins kind) h.thins h'.thins,
    h'.queue.trans h.queue⟩
  logged h := ⟨Nat.le_of_eq h.issued.symm, Lenient.logged h, h.queue⟩
  reads hc h := ⟨Nat.le_of_eq h.issued.symm, Lenient.reads hc h, h.queue⟩
  frees hc h := ⟨Nat.le_of_eq h.issued.symm, Freeing.frees hc h, h.queue⟩

/-- A step that leaves the running jobs alone, too. -/
structure Steady (kind : String) (s s' : Machine) : Prop extends Clears kind s s' where
  members : s.Quiet → s'.members kind = s.members kind

instance : Lenient (Steady kind) where
  refl s := ⟨refl_of (Clears kind) s, fun _ => rfl⟩
  trans _ _ _ h h' := ⟨trans_of (Clears kind) h.toClears h'.toClears,
    fun hq => (h'.members (h.thins hq).1).trans (h.members hq)⟩
  logged h := ⟨Lenient.logged h, fun _ => h.members⟩
  reads hc h := ⟨Lenient.reads hc h, fun hq => by
    rw [h.members hq, MemoryStore.membersAt_call_of_reads hc]
    rfl⟩

end Machine

namespace Thread

open Machine

variable {Q ρ α : Type} {R : Machine → Machine → Prop}

section

variable [Lenient R]

theorem within_record (r : JournalRecord) :
    Within R (MonadJournal.record r : Thread Q ρ Unit) :=
  within_step fun s => Lenient.logged (logged_addRecord s r)

theorem within_note (n : Notice) : Within R (note n : Thread Q ρ Unit) := within_record _

theorem within_tally (t : Tally) : Within R (tally t : Thread Q ρ Unit) :=
  within_step fun s => Lenient.logged (logged_addTally s t)

theorem within_reads {c : StoreCall} (hc : c.Reads) :
    Within R (callStore c : Attempt (Thread Q ρ) c.Answer).run :=
  within_callStore fun s => Lenient.reads hc (called_callStore s c)

theorem within_now : Within R (now : Thread Q ρ Instant) := within_step fun s => refl_of R s

theorem within_orNote {x : Attempt (Thread Q ρ) α} (hx : Within R x.run) (a : α)
    (handle : Fault → Notice) : Within R (x.orNote a handle) := by
  refine hx.bind ?_
  rintro (f | a)
  · exact (within_note _).bind fun _ => .done _
  · exact .done _

theorem Ensures.orNote {P K : Machine → Prop} {s : Machine} {x : Attempt (Thread Q ρ) α}
    (hx : Ensures R P x.run (fun _ => K) s) (a : α) (handle : Fault → Notice) :
    Ensures R P (x.orNote a handle) (fun _ => K) s := by
  refine hx.bind_within ?_
  rintro (f | a)
  · exact (within_note _).bind fun _ => .done _
  · exact .done _

end

theorem within_frees [Freeing R] {c : StoreCall} (hc : c.Frees) :
    Within R (callStore c : Attempt (Thread Q ρ) c.Answer).run :=
  within_callStore fun s => Freeing.frees hc (called_callStore s c)

end Thread

end Turnstile
