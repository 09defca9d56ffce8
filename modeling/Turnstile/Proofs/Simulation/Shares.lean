import Turnstile.Proofs.Duplicate.Keys
import Turnstile.Proofs.Simulation.Marks
import Turnstile.Proofs.Store.Dating
import Turnstile.Proofs.Transport.Queue

/-!
# What a machine holds for a kind

All kinds of jobs share one store and one set of queues. The keys of a kind are that of its running
set, those of its claims, and those of its live jobs; the key families never meet, whatever the kinds
are called, as long as ids have the form that is given out and belong to one kind each. What a machine
holds for a kind is what is stored under its keys, its ready jobs and its workload.
-/

namespace Turnstile

/-! ### Ids -/

/-- An id that belongs to a kind, where `kindOf` tells the one kind of each id. -/
structure IdOf (kindOf : String → String) (kind id : String) : Prop where
  generated : Generated id
  kind : kindOf id = kind

/-! ### Keys -/

/-- The keys of a kind. -/
inductive KeyOf (kindOf : String → String) (kind : String) : String → Prop
  | running : KeyOf kindOf kind (RunningSet.keyOf kind)
  | claim (args : List Json) : KeyOf kindOf kind (IdempotencyKey.of kind args)
  | live {id : String} (h : IdOf kindOf kind id) : KeyOf kindOf kind (Liveness.key id)

theorem IdempotencyKey.mem_digest {kind : String} {args : List Json} {c : Char}
    (h : c ∈ (digest kind args).toList) : ∃ d < 16, c = Text.hexDigit d := by
  rw [digest, Digest.Sha256.hexDigest, Digest.hexText, String.toList_ofList] at h
  obtain ⟨w, -, hc⟩ := List.mem_flatMap.mp h
  exact Text.mem_hexDigits hc

variable {kindOf : String → String} {kind kind' id key : String}

theorem RunningSet.keyOf_inj (h : RunningSet.keyOf kind = RunningSet.keyOf kind') : kind = kind' := by
  have hl := congrArg String.toList h
  simp only [RunningSet.keyOf, String.toList_append] at hl
  exact String.toList_inj.mp (List.append_cancel_right hl)

theorem RunningSet.keyOf_ne_claim (args : List Json) :
    RunningSet.keyOf kind ≠ IdempotencyKey.of kind' args := by
  intro h
  have hne : (IdempotencyKey.digest kind' args).toList ≠ [] := by
    refine List.ne_nil_of_length_pos ?_
    rw [IdempotencyKey.length_digest]
    decide
  have hkey := congrArg String.toList h
  rw [IdempotencyKey.of, String.toList_append] at hkey
  exact keyOf_ne_append_digits kind hne (fun c hc => IdempotencyKey.mem_digest hc) hkey

/-- No key belongs to two kinds. -/
theorem KeyOf.apart (h : KeyOf kindOf kind key) (h' : KeyOf kindOf kind' key) : kind = kind' := by
  cases h with
  | running =>
    generalize hk : RunningSet.keyOf kind = key at h'
    cases h' with
    | running => exact RunningSet.keyOf_inj hk
    | claim args => exact absurd hk (RunningSet.keyOf_ne_claim args)
    | live hid => exact absurd hk (hid.generated.keyOf_ne kind)
  | claim args =>
    generalize hk : IdempotencyKey.of kind args = key at h'
    cases h' with
    | running => exact absurd hk.symm (RunningSet.keyOf_ne_claim args)
    | claim args' => exact (IdempotencyKey.of_eq_iff.mp hk).1
    | live hid => exact absurd hk.symm (IdempotencyKey.of_ne_livenessKey _ _ _)
  | live hid =>
    generalize hk : Liveness.key _ = key at h'
    cases h' with
    | running => exact absurd hk.symm (hid.generated.keyOf_ne kind')
    | claim args => exact absurd hk (IdempotencyKey.of_ne_livenessKey _ _ _)
    | live hid' =>
      rw [Machine.livenessKey_inj hk] at hid
      exact hid.kind.symm.trans hid'.kind

/-! ### Calls to the store -/

namespace MemoryStore

variable {s t : MemoryStore} {now : Instant}

theorem live?_congr (now : Instant) (h : s.get? key = t.get? key) : s.live? now key = t.live? now key := by
  rw [live?, live?, h]

theorem get?_dropExpired_congr (now : Instant) (h : s.get? key = t.get? key) :
    (s.dropExpired now key).get? key = (t.dropExpired now key).get? key := by
  unfold dropExpired
  rw [h]
  split
  · split
    · rw [Keyed.get?_erase, Keyed.get?_erase, if_pos rfl, if_pos rfl]
    · exact h
  · exact h

/-- What a call answers, and what is stored under its key after it, depends on that key only. -/
theorem call_congr (now : Instant) {c : StoreCall} (h : s.get? c.key = t.get? c.key) :
    (s.call now c).1 = (t.call now c).1 ∧
      (s.call now c).2.get? c.key = (t.call now c).2.get? c.key := by
  have hlive := live?_congr now h
  have hdrop := get?_dropExpired_congr now h
  rcases hl : t.live? now c.key with _ | ⟨value | members, deadline⟩ <;>
    rw [hl] at hlive <;>
    cases c <;>
    simp only [StoreCall.key] at h hlive hl hdrop <;>
    simp only [call, setAdd, setRemove, setCount, setMembers, setIfAbsent, get, ttl, delete,
      deleteIfEq, expireIfEq, read, holds, StoreCall.key, hlive, hl] <;>
    grind [Keyed.get?_insert, Keyed.get?_erase]

/-- Who is listed is a member. -/
theorem mem_of_setMembers {members : List SetMember}
    (h : (s.call now (.setMembers key)).1 = .ok members) :
    ∀ m ∈ members, m.member ∈ s.membersAt now key := by
  simp only [call, MemoryStore.setMembers, read] at h
  rcases hl : s.live? now key with _ | ⟨value | ms, deadline⟩ <;> rw [hl] at h
  · obtain rfl : [] = members := Except.ok.inj h
    exact fun m hm => absurd hm List.not_mem_nil
  · cases h
  · obtain rfl : listed ms = members := Except.ok.inj h
    intro m hm
    simp only [listed, List.mem_mergeSort, List.mem_map] at hm
    obtain ⟨⟨text, time⟩, hmem, rfl⟩ := hm
    exact mem_membersAt.mpr ⟨ms, deadline, time, hl, hmem⟩

end MemoryStore

/-- Where no job is held back, none becomes due. -/
theorem Queue.promoteDue_of_none {q : Queue} (h : q.scheduled = []) (now : Instant) :
    q.dueJobs now = [] ∧ q.promoteDue now = q := by
  obtain ⟨ready, scheduled⟩ := q
  obtain rfl : scheduled = [] := h
  exact ⟨rfl, rfl⟩

/-! ### What a machine holds -/

namespace Machine

variable {s s' t t' : Machine} {c : StoreCall} {job : Job}

/-- Two machines hold the same for a kind, at the same time. -/
structure Same (kindOf : String → String) (kind : String) (s t : Machine) : Prop where
  clock : s.clock = t.clock
  stored : ∀ key, KeyOf kindOf kind key → s.store.get? key = t.store.get? key
  ready : s.queue.readyJobs kind = t.queue.readyJobs kind
  load : s.loadOf kind = t.loadOf kind

theorem Same.refl (s : Machine) : Same kindOf kind s s := ⟨rfl, fun _ _ => rfl, rfl, rfl⟩

theorem Same.symm (h : Same kindOf kind s t) : Same kindOf kind t s :=
  ⟨h.clock.symm, fun key hk => (h.stored key hk).symm, h.ready.symm, h.load.symm⟩

theorem Same.trans {u : Machine} (h : Same kindOf kind s t) (h' : Same kindOf kind t u) :
    Same kindOf kind s u :=
  ⟨h.clock.trans h'.clock, fun key hk => (h.stored key hk).trans (h'.stored key hk),
    h.ready.trans h'.ready, h.load.trans h'.load⟩

/-- Jobs and members of each kind have ids of that kind; no call is planned, and no job is held back. -/
structure Tidy (kindOf : String → String) (s : Machine) : Prop where
  quiet : s.Quiet
  scheduled : s.queue.scheduled = []
  ready : ∀ kind, ∀ job ∈ s.queue.readyJobs kind, job.kind = kind ∧ IdOf kindOf kind job.id
  members : ∀ kind, ∀ id ∈ s.members kind, IdOf kindOf kind id

theorem tidy_ofClock (now : Instant) : Tidy kindOf (ofClock now) :=
  ⟨fun _ => rfl, rfl, nofun, nofun⟩

/-! ### Records -/

theorem Same.of_logged (h : s.Logged s') : Same kindOf kind s s' := by
  refine ⟨h.clock.symm, fun key _ => ?_, ?_, ?_⟩
  · rw [h.store]
  · rw [h.queue]
  · rw [loadOf, loadOf, h.loads]

theorem Tidy.logged (hs : Tidy kindOf s) (h : s.Logged s') : Tidy kindOf s' := by
  refine ⟨h.quiet hs.quiet, ?_, ?_, ?_⟩
  · rw [h.queue, hs.scheduled]
  · rw [h.queue]
    exact hs.ready
  · intro kind id hid
    rw [h.members] at hid
    exact hs.members kind id hid

/-! ### Calls -/

/-- A call under a key of another kind. -/
theorem Same.of_called (h : Called c s s') (hq : s.Quiet) (hk : KeyOf kindOf kind c.key)
    (hne : kind' ≠ kind) : Same kindOf kind' s s' := by
  refine ⟨h.clock.symm, fun key hkey => ?_, ?_, ?_⟩
  · have hapart : c.key ≠ key := by
      rintro rfl
      exact hne (hkey.apart hk)
    rw [h.store hq, MemoryStore.call_get?_ne c hapart]
  · rw [h.queue]
  · rw [loadOf, loadOf, h.loads]

/-- A call under a key of the kind answers the same on both machines. -/
theorem Same.called (h : Same kindOf kind s t) (hs : s.Quiet) (ht : t.Quiet)
    (hk : KeyOf kindOf kind c.key) :
    (s.callStore c).1 = (t.callStore c).1 ∧
      Same kindOf kind (s.callStore c).2 (t.callStore c).2 := by
  obtain ⟨hanswer, hstore, -⟩ := callStore_eq hs c
  obtain ⟨hanswer', hstore', -⟩ := callStore_eq ht c
  have hcalled := called_callStore s c
  have hcalled' := called_callStore t c
  obtain ⟨heq, hkey⟩ := MemoryStore.call_congr t.clock (h.stored c.key hk)
  rw [h.clock] at hanswer hstore
  refine ⟨by rw [hanswer, hanswer', heq], ⟨?_, fun key hkey' => ?_, ?_, ?_⟩⟩
  · rw [hcalled.clock, hcalled'.clock, h.clock]
  · rw [hstore, hstore']
    by_cases he : c.key = key
    · rw [← he, hkey]
    · rw [MemoryStore.call_get?_ne c he, MemoryStore.call_get?_ne c he, h.stored key hkey']
  · rw [hcalled.queue, hcalled'.queue, h.ready]
  · have hload := h.load
    rw [loadOf, loadOf] at hload ⊢
    rw [hcalled.loads, hcalled'.loads, hload]

/-- A call under a key of a kind, which registers no job of another one. -/
theorem Tidy.called (hs : Tidy kindOf s) (h : Called c s s') (hk : KeyOf kindOf kind c.key)
    (hid : ∀ id ttl, c = .setAdd (RunningSet.keyOf kind) id ttl → IdOf kindOf kind id) :
    Tidy kindOf s' := by
  refine ⟨h.quiet hs.quiet, ?_, ?_, ?_⟩
  · rw [h.queue, hs.scheduled]
  · rw [h.queue]
    exact hs.ready
  · intro kind' id hmem
    by_cases hadd : ∃ id ttl, c = .setAdd (RunningSet.keyOf kind') id ttl
    · -- the key of the set tells whose registration it is
      obtain ⟨id', ttl, rfl⟩ := hadd
      obtain rfl : kind' = kind := KeyOf.apart .running hk
      rw [h.members hs.quiet] at hmem
      obtain hold | hnew :=
        List.mem_append.mp ((MemoryStore.membersAt_setAdd _ _ _ _ _).subset hmem)
      · exact hs.members kind' id hold
      · obtain rfl := List.mem_singleton.mp hnew
        exact hid id ttl rfl
    · have hsub := h.members_sublist hs.quiet fun id ttl he => hadd ⟨id, ttl, he⟩
      exact hs.members kind' id (hsub.subset hmem)

/-- The members that are listed for a kind have ids of the kind. -/
theorem Tidy.listed (hs : Tidy kindOf s) {members : List SetMember}
    (h : (s.callStore (.setMembers (RunningSet.keyOf kind))).1 = .ok members) :
    ∀ m ∈ members, IdOf kindOf kind m.member := by
  rw [(callStore_eq hs.quiet _).1] at h
  intro m hm
  exact hs.members kind m.member (MemoryStore.mem_of_setMembers h m hm)

/-! ### Queues -/

theorem Same.of_pushReady (hk : job.kind = kind) (hne : kind' ≠ kind) :
    Same kindOf kind' s { s with queue := s.queue.pushReady job } := by
  refine ⟨rfl, fun _ _ => rfl, ?_, rfl⟩
  have hother : ¬job.kind = kind' := fun h => hne (h.symm.trans hk)
  rw [Queue.readyJobs_pushReady]
  simp [hother]

theorem Same.pushReady (h : Same kindOf kind s t) :
    Same kindOf kind { s with queue := s.queue.pushReady job }
      { t with queue := t.queue.pushReady job } := by
  refine ⟨h.clock, h.stored, ?_, h.load⟩
  rw [Queue.readyJobs_pushReady, Queue.readyJobs_pushReady, h.ready]

theorem Tidy.pushReady (hs : Tidy kindOf s) (hid : IdOf kindOf job.kind job.id) :
    Tidy kindOf { s with queue := s.queue.pushReady job } := by
  refine ⟨hs.quiet, hs.scheduled, fun kind job' hmem => ?_, hs.members⟩
  rw [Queue.readyJobs_pushReady] at hmem
  obtain hold | hnew := List.mem_append.mp hmem
  · exact hs.ready kind job' hold
  · obtain ⟨hjob, hkind⟩ := List.mem_filter.mp hnew
    obtain rfl := List.mem_singleton.mp hjob
    obtain rfl : job'.kind = kind := of_decide_eq_true hkind
    exact ⟨rfl, hid⟩

theorem Same.of_pop (hne : kind' ≠ kind) :
    Same kindOf kind' s { s with queue := (s.queue.pop kind).2 } := by
  refine ⟨rfl, fun _ _ => rfl, ?_, rfl⟩
  rw [Queue.readyJobs_pop, if_neg (Ne.symm hne)]

theorem Same.pop (h : Same kindOf kind s t) :
    (s.queue.pop kind).1 = (t.queue.pop kind).1 ∧
      Same kindOf kind { s with queue := (s.queue.pop kind).2 }
        { t with queue := (t.queue.pop kind).2 } := by
  refine ⟨?_, h.clock, h.stored, ?_, h.load⟩
  · rw [Queue.pop_fst, Queue.pop_fst, h.ready]
  · rw [Queue.readyJobs_pop, Queue.readyJobs_pop, if_pos rfl, if_pos rfl, h.ready]

theorem Tidy.pop (hs : Tidy kindOf s) (kind : String) :
    (∀ job, (s.queue.pop kind).1 = some job → job.kind = kind ∧ IdOf kindOf kind job.id) ∧
      Tidy kindOf { s with queue := (s.queue.pop kind).2 } := by
  refine ⟨fun job h => ?_, hs.quiet, ?_, fun kind' job hmem => ?_, hs.members⟩
  · rw [Queue.pop_fst] at h
    exact hs.ready kind job (List.mem_of_mem_head? h)
  · rw [Queue.scheduled_pop, hs.scheduled]
  · rw [Queue.readyJobs_pop] at hmem
    split at hmem
    · next heq =>
      subst heq
      exact hs.ready kind job (List.mem_of_mem_tail hmem)
    · exact hs.ready kind' job hmem

/-! ### Time -/

theorem Same.later (h : Same kindOf kind s t) (time : Instant) :
    Same kindOf kind { s with clock := time } { t with clock := time } :=
  ⟨rfl, h.stored, h.ready, h.load⟩

theorem Tidy.later (hs : Tidy kindOf s) {time : Instant} (h : s.clock ≤ time) :
    Tidy kindOf { s with clock := time } := by
  refine ⟨hs.quiet, hs.scheduled, hs.ready, fun kind id hmem => ?_⟩
  exact hs.members kind id ((MemoryStore.membersAt_later h).subset hmem)

end Machine

end Turnstile
