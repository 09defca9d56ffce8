import Turnstile.Proofs.Engine.Scene
import Turnstile.Proofs.Store.Refinement

/-!
# Outages

A machine whose calls may be planned to fail, in any pattern, but are not planned to answer: a call
that does not fail is one of the store in memory, and a call that fails leaves that store alone.
-/

namespace Turnstile

namespace Machine

variable {s : Machine} {now : Instant} {V : IdealStore}

/-- All that is planned is that calls fail. -/
def Honest (s : Machine) : Prop := ∀ method, ∀ p ∈ s.plans.getD method [], ∃ f, p.outcome = .fail f

theorem Quiet.honest (h : s.Quiet) : s.Honest := by
  intro method p hp
  rw [h method] at hp
  cases hp

theorem next_of_fail {plans : List Plan} (h : ∀ p ∈ plans, ∃ f, p.outcome = .fail f) :
    ((Plan.next plans).1 = none ∨ ∃ f, (Plan.next plans).1 = some (.fail f)) ∧
      ∀ p ∈ (Plan.next plans).2, ∃ f, p.outcome = .fail f := by
  cases plans with
  | nil => exact ⟨Or.inl rfl, h⟩
  | cons p rest =>
    obtain ⟨⟨f, hf⟩, hrest⟩ := List.forall_mem_cons.mp h
    simp only [Plan.next]
    split
    · exact ⟨Or.inl rfl, List.forall_mem_cons.mpr ⟨⟨f, hf⟩, hrest⟩⟩
    · split
      · exact ⟨Or.inr ⟨f, congrArg some hf⟩, hrest⟩
      · exact ⟨Or.inr ⟨f, congrArg some hf⟩, List.forall_mem_cons.mpr ⟨⟨f, hf⟩, hrest⟩⟩

theorem noteCall_of_honest (h : s.Honest) (c : SeamCall) :
    ((s.noteCall c).1 = none ∨ ∃ f, (s.noteCall c).1 = some (.fail f)) ∧ (s.noteCall c).2.Honest := by
  obtain ⟨hnext, hplans⟩ := next_of_fail (h c.method)
  refine ⟨hnext, fun method => ?_⟩
  simp only [noteCall, Keyed.getD, Keyed.get?_insert]
  split
  · exact hplans
  · exact h method

/-- What can be seen of the store at its time. Where the machine is known to be `calm`, nothing is
planned at all. -/
structure Stands (calm : Prop) (now : Instant) (V : IdealStore) (s : Machine) : Prop where
  honest : s.Honest
  quiet : calm → s.Quiet
  listed : s.store.Listed
  clock : s.clock = now
  view : s.store.view now = V

variable {calm : Prop}

theorem Honest.stands (h : s.Honest) (hl : s.store.Listed) :
    s.Stands s.Quiet s.clock (s.store.view s.clock) := ⟨h, id, hl, rfl, rfl⟩

theorem Stands.live (h : s.Stands calm now V) (key : String) :
    (V key).filter (fun e => e.isLive now) = V key := by
  rw [← h.view]
  exact MemoryStore.filter_view s.store now key

theorem view_call_eq {store : MemoryStore} (hl : store.Listed) (c : StoreCall) :
    (store.call now c).2.view now = Function.update (store.view now) c.key
      ((IdealEntry.respond now (store.view now c.key) c).2.filter fun e => e.isLive now) := by
  funext key
  by_cases hk : c.key = key
  · subst hk
    rw [Function.update_self, MemoryStore.view_call_self hl]
  · rw [Function.update_of_ne (Ne.symm hk)]
    exact congrArg _ (MemoryStore.call_live?_ne c hk)

theorem Stands.noteCall (h : s.Stands calm now V) (c : SeamCall) :
    (s.noteCall c).2.Stands calm now V :=
  ⟨(noteCall_of_honest h.honest c).2, fun hc => (noteCall_of_quiet (h.quiet hc) c).2, h.listed,
    h.clock, h.view⟩

theorem Stands.addTally (h : s.Stands calm now V) (t : Tally) : (s.addTally t).Stands calm now V :=
  ⟨h.honest, h.quiet, h.listed, h.clock, h.view⟩

theorem Stands.addRecord (h : s.Stands calm now V) (r : JournalRecord) :
    (s.addRecord r).Stands calm now V := ⟨h.honest, h.quiet, h.listed, h.clock, h.view⟩

/-- What a call comes to: it fails and changes nothing, or it is one of the ideal store. On a calm
machine it fails only if the ideal store refuses it. -/
def Comes (calm : Prop) (now : Instant) (V : IdealStore) (c : StoreCall)
    (r : Except Fault c.Answer) (s : Machine) : Prop :=
  (∃ f, r = .error f ∧ (calm → (IdealEntry.respond now (V c.key) c).1 = .error f) ∧
      s.Stands calm now V) ∨
    ∃ a, r = .ok a ∧ (IdealEntry.respond now (V c.key) c).1 = .ok a ∧
      s.Stands calm now (Function.update V c.key
        ((IdealEntry.respond now (V c.key) c).2.filter fun e => e.isLive now))

theorem Stands.callMemory (h : s.Stands calm now V) (c : StoreCall) :
    Comes calm now V c (s.callMemory c).1 (s.callMemory c).2 := by
  obtain ⟨hhonest, hquiet, hlisted, rfl, rfl⟩ := h
  have hanswer : (s.store.call s.clock c).1 = _ := MemoryStore.answer_eq hlisted c
  have hview : (s.store.call s.clock c).2.view s.clock = _ := view_call_eq hlisted c
  have hcalled := MemoryStore.listed_call hlisted s.clock c
  simp only [Machine.callMemory]
  cases hr : (s.store.call s.clock c).1 with
  | error f =>
    rw [(MemoryStore.call_error hr).2]
    exact Or.inl ⟨f, rfl, fun _ => hanswer.symm.trans hr, hhonest, hquiet, hlisted, rfl, rfl⟩
  | ok a =>
    exact Or.inr ⟨a, rfl, hanswer.symm.trans hr, hhonest, hquiet, hcalled, rfl, hview⟩

theorem Stands.callStore (h : s.Stands calm now V) (c : StoreCall) :
    Comes calm now V c (s.callStore c).1 (s.callStore c).2 := by
  have hplanned := (noteCall_of_honest h.honest (.store c)).1
  have hquiet (hc : calm) := (noteCall_of_quiet (h.quiet hc) (.store c)).1
  have hnoted := h.noteCall (.store c)
  unfold Machine.callStore
  rcases hc : s.noteCall (.store c) with ⟨planned, s₁⟩
  rw [hc] at hplanned hquiet hnoted
  rcases hplanned with hnone | ⟨f, hf⟩
  · cases hnone
    exact hnoted.callMemory c
  · cases hf
    exact Or.inl ⟨f, rfl, fun hcalm => absurd (hquiet hcalm) nofun, hnoted.addTally _⟩

end Machine

/-! ### Failed calls -/

section

variable {Q ρ : Type}

def Event.fault? : Event Q ρ → Option StoreCall
  | .called c (.error _) => some c
  | _ => none

/-- The calls that failed. -/
def Scene.faults (t : Scene Q ρ) : List StoreCall := t.log.filterMap Event.fault?

theorem Scene.faults_called (t : Scene Q ρ) (c : StoreCall) : (t.called c).faults =
    t.faults ++ (Event.fault? (.called c (t.machine.callStore c).1 : Event Q ρ)).toList := by
  rw [faults, called, List.filterMap_append, List.filterMap_cons, List.filterMap_nil]
  cases Event.fault? (.called c (t.machine.callStore c).1 : Event Q ρ) <;> rfl

variable {h : Host Q ρ} {t : Scene Q ρ} {calm : Prop} {now : Instant} {V : IdealStore} {c : StoreCall}
  {post : Except Fault c.Answer → Scene Q ρ → Prop}

theorem Thread.yields_call (ht : t.machine.Stands calm now V)
    (herror : ∀ f t', (calm → (IdealEntry.respond now (V c.key) c).1 = .error f) →
      t'.machine.Stands calm now V → t'.faults = t.faults ++ [c] → post (.error f) t')
    (hok : ∀ a t', (IdealEntry.respond now (V c.key) c).1 = .ok a →
      t'.machine.Stands calm now (Function.update V c.key
        ((IdealEntry.respond now (V c.key) c).2.filter fun e => e.isLive now)) →
      t'.faults = t.faults → post (.ok a) t') :
    Yields h (callStore c : Attempt (Thread Q ρ) c.Answer).run post t := by
  have hfaults := t.faults_called c
  apply yields_callStore
  rcases ht.callStore c with ⟨f, hr, hrefused, hs⟩ | ⟨a, hr, ha, hs⟩
  · rw [hr] at hfaults ⊢
    exact herror f _ hrefused hs hfaults
  · rw [hr] at hfaults ⊢
    exact hok a _ ha hs (hfaults.trans (List.append_nil _))

theorem Thread.yields_read (hc : c.Reads) (ht : t.machine.Stands calm now V)
    (herror : ∀ f t', (calm → (IdealEntry.respond now (V c.key) c).1 = .error f) →
      t'.machine.Stands calm now V → t'.faults = t.faults ++ [c] → post (.error f) t')
    (hok : ∀ a t', (IdealEntry.respond now (V c.key) c).1 = .ok a →
      t'.machine.Stands calm now V → t'.faults = t.faults → post (.ok a) t') :
    Yields h (callStore c : Attempt (Thread Q ρ) c.Answer).run post t := by
  refine yields_call ht herror fun a t' ha hs hfaults => hok a t' ha ?_ hfaults
  rw [IdealEntry.respond_of_reads hc, ht.live, Function.update_eq_self] at hs
  exact hs

end

end Turnstile
