import Turnstile.Proofs.Simulation.Moves
import Turnstile.Proofs.Simulation.Names

/-!
# Marks of live jobs

Which jobs have a liveness key. What happens apart from the jobs of a kind sets such keys for a few
jobs at most, and takes away what it likes.
-/

namespace Turnstile

namespace Machine

variable {s s' s'' : Machine} {kind id : String} {ids : List String} {c : StoreCall}

def Marked (s : Machine) (id : String) : Prop := s.store.live? s.clock (Liveness.key id) ≠ none

def backlog (s : Machine) (kind : String) : Nat := (s.loadOf kind).backlog

theorem livenessKey_inj {id id' : String} (h : Liveness.key id = Liveness.key id') : id = id' := by
  have hl := congrArg String.toList h
  simp only [Liveness.key, String.toList_append] at hl
  exact String.toList_inj.mp (List.append_cancel_left hl)

theorem Called.marked (h : Called c s s') (hq : s.Quiet) : s'.Marked id ↔
    (s.store.call s.clock c).2.live? s.clock (Liveness.key id) ≠ none := by
  rw [Marked, h.store hq, h.clock]

theorem Called.backlog (h : Called c s s') : s'.backlog kind = s.backlog kind := by
  unfold Machine.backlog loadOf
  rw [h.loads]

theorem Called.marked_of_ne (h : Called c s s') (hq : s.Quiet) (hk : c.key ≠ Liveness.key id)
    (hm : s'.Marked id) : s.Marked id := by
  rw [h.marked hq, MemoryStore.call_live?_ne c hk] at hm
  exact hm

theorem Called.marked_of_frees (h : Called c s s') (hq : s.Quiet) (hc : c.Frees)
    (hm : s'.Marked id) : s.Marked id := by
  intro hn
  exact (h.marked hq).mp hm (MemoryStore.live?_call_of_frees hc hn)

/-- What may happen apart from the jobs of a kind: nobody joins them, the queue and the backlog stay as
they are, and no job is marked but those listed. -/
structure Apart (kind : String) (ids : List String) (s s' : Machine) : Prop
    extends Clears kind s s' where
  clock : s'.clock = s.clock
  backlog : s'.backlog kind = s.backlog kind
  marks : s.Quiet → ∀ id, id ∉ ids → s'.Marked id → s.Marked id

theorem apart_of_called (h : Called c s s')
    (hc : ∀ text ttl, c ≠ .setAdd (RunningSet.keyOf kind) text ttl)
    (hm : s.Quiet → ∀ id, id ∉ ids → s'.Marked id → s.Marked id) : Apart kind ids s s' :=
  ⟨clears_of_called h hc, h.clock, h.backlog, hm⟩

instance : Freeing (Apart kind ids) where
  refl s := ⟨refl_of (Clears kind) s, rfl, rfl, fun _ _ _ hm => hm⟩
  trans _ _ _ h h' := ⟨trans_of (Clears kind) h.toClears h'.toClears, h'.clock.trans h.clock,
    h'.backlog.trans h.backlog, fun hq id hid hm =>
      h.marks hq id hid (h'.marks (h.thins hq).1 id hid hm)⟩
  logged h := by
    refine ⟨Lenient.logged h, h.clock, ?_, fun _ id _ hm => ?_⟩
    · unfold Machine.backlog loadOf
      rw [h.loads]
    · rw [Marked, h.store, h.clock] at hm
      exact hm
  reads hc h := ⟨Lenient.reads hc h, h.clock, h.backlog,
    fun hq _ _ hm => h.marked_of_frees hq (StoreCall.frees_of_reads hc) hm⟩
  frees hc h := ⟨Freeing.frees hc h, h.clock, h.backlog,
    fun hq _ _ hm => h.marked_of_frees hq hc hm⟩

theorem Apart.mono {ids' : List String} (h : Apart kind ids s s') (hi : ids ⊆ ids') :
    Apart kind ids' s s' :=
  ⟨h.toClears, h.clock, h.backlog, fun hq id hid => h.marks hq id fun hmem => hid (hi hmem)⟩

theorem apart_of_livenessKey (h : Called c s s') (hk : c.key = Liveness.key id)
    (hc : ∀ key text ttl, c ≠ .setAdd key text ttl) : Apart kind [id] s s' := by
  refine apart_of_called h (hc _) fun hq id' hid hm => ?_
  refine h.marked_of_ne hq (fun he => hid ?_) hm
  rw [livenessKey_inj (hk.symm.trans he)]
  exact List.mem_singleton_self id'

theorem apart_issued (s : Machine) : Apart kind ids s { s with issued := s.issued + 1 } :=
  ⟨⟨Nat.le_succ _, fun hq => ⟨hq, .refl _⟩, rfl⟩, rfl, rfl, fun _ _ _ hm => hm⟩

end Machine

open Machine Thread

variable {Q ρ : Type} {kind : String} {ids : List String}

/-- The liveness keys as a probe: a job is marked when it starts, and no other job is marked. -/
theorem Liveness.within_probe (l : Liveness) (kind : String) :
    (∀ ids, Within (Apart kind []) (l.probe.completed ids : Attempt (Thread Q ρ) _).run) ∧
      ∀ id, Within (Apart kind [id]) (l.probe.started id : Attempt (Thread Q ρ) _).run ∧
        Within (Apart kind [id]) (l.probe.finished id : Attempt (Thread Q ρ) _).run := by
  refine ⟨fun ids => ?_, fun id => ⟨?_, ?_⟩⟩
  · induction ids with
    | nil => exact .done _
    | cons id rest ih =>
      have hget : Within (Apart kind []) (Liveness.isLive id : Attempt (Thread Q ρ) Bool).run :=
        (within_reads (c := .get _) trivial).run_bind fun _ => .done _
      exact hget.run_bind fun live => ih.run_bind fun more => .done _
  · refine Within.run_bind (within_callStore fun s => ?_) fun _ => .done _
    exact apart_of_livenessKey (called_callStore s _) rfl nofun
  · exact (within_frees (c := .delete _) trivial).run_bind fun _ => .done _

end Turnstile
