import Turnstile.Lease.Basic
import Turnstile.Proofs.Simulation.Calls
import Turnstile.Proofs.Store.Ownership

/-!
# Mutual exclusion of clients

Any number of clients take, renew, release and cancel one lease, each with a token of its own. At
every moment at most one of them holds it, and the key shows which.
-/

namespace Turnstile

/-! ### The rest of the world -/

/-- What may happen to a machine apart from calls that write a key: time passes, and other keys,
queues and records change. -/
structure Machine.Elsewhere (key : String) (s s' : Machine) : Prop where
  clock : s.clock ≤ s'.clock
  issued : s.issued ≤ s'.issued
  quiet : s.Quiet → s'.Quiet
  live : ∀ now, s'.clock ≤ now → s'.store.live? now key = s.store.live? now key

theorem Machine.elsewhere_clock {s : Machine} {key : String} (clock : Instant)
    (h : s.clock ≤ clock) : s.Elsewhere key { s with clock } :=
  ⟨h, Nat.le_refl _, id, fun _ _ => rfl⟩

namespace Lease

/-! ### Acts of clients -/

inductive Act
  | obtain
  | renew
  | release
  | cancel
deriving DecidableEq

namespace Act

def perform (a : Act) (l : Lease) : Attempt (StateM Machine) Bool :=
  match a with
  | obtain => do return (← l.tryObtain).isSome
  | renew => l.renew
  | release => l.release
  | cancel => Lease.cancel l.key l.token

def effect (a : Act) (l : Lease) (s : MemoryStore) (now : Instant) :
    Except Fault Bool × MemoryStore :=
  match a with
  | obtain => s.call now (.setIfAbsent l.key l.token l.ttl)
  | renew => s.call now (.expireIfEq l.key l.token l.ttl)
  | release => s.call now (.deleteIfEq l.key l.token)
  | cancel => s.call now (.deleteIfEq l.key l.token)

theorem exec_obtain (s : Machine) (l : Lease) :
    s.exec (obtain.perform l).run = s.callStore (.setIfAbsent l.key l.token l.ttl) := by
  rw [perform, Machine.exec_run_bind, tryObtain, Machine.exec_run_bind,
    Machine.exec_run_callStore]
  rcases s.callStore (.setIfAbsent l.key l.token l.ttl) with ⟨_ | _ | _, s'⟩ <;> rfl

theorem exec_perform {s : Machine} (h : s.Quiet) (a : Act) (l : Lease) :
    ∃ s', s.exec (a.perform l).run = ((a.effect l s.store s.clock).1, s') ∧
      s'.store = (a.effect l s.store s.clock).2 ∧ s'.clock = s.clock ∧ s'.Quiet := by
  have hcall : ∀ c : StoreCall, ∃ s', s.callStore c = ((s.store.call s.clock c).1, s') ∧
      s'.store = (s.store.call s.clock c).2 ∧ s'.clock = s.clock ∧ s'.Quiet := by
    intro c
    obtain ⟨s', he, hs, hq, hobserved⟩ := Machine.callStore_spec h c
    exact ⟨s', he, hs, hobserved.clock, hq⟩
  cases a with
  | obtain =>
    rw [exec_obtain]
    exact hcall _
  | renew => exact hcall _
  | release => exact hcall _
  | cancel => exact hcall _

end Act

structure Deed (ι : Type) where
  who : ι
  act : Act
  time : Instant
  success : Bool

/-! ### Who holds the lease -/

section

variable {ι : Type} [DecidableEq ι]

/-- When a client last took or renewed the lease, unless it has given it up since; the newest deeds
come first. -/
def lastGrip (who : ι) : List (Deed ι) → Option Instant
  | [] => none
  | deed :: rest =>
    if deed.who = who ∧ deed.success then
      match deed.act with
      | .obtain => some deed.time
      | .renew => (lastGrip who rest).map fun _ => deed.time
      | .release => none
      | .cancel => none
    else lastGrip who rest

/-- A client holds the lease from when it last took or renewed it, until it gives it up or its time
is over. Its time is over as many nanoseconds later as the lease lasts
(`Instant.deadline?_of_plain`). -/
def Holds (lease : ι → Lease) (deeds : List (Deed ι)) (who : ι) (now : Instant) : Prop :=
  ∃ t, lastGrip who deeds = some t ∧ ∀ d, t.deadline? (lease who).ttl = some d → now < d

/-- The runs of clients of one lease, in which nobody else writes its key. -/
inductive Reachable (lease : ι → Lease) (key : String) : List (Deed ι) → Machine → Prop
  | start {s : Machine} (hq : s.Quiet) (hf : s.store.live? s.clock key = none) :
      Reachable lease key [] s
  | act {deeds : List (Deed ι)} {s s' : Machine} {b : Bool} (hr : Reachable lease key deeds s)
      (who : ι) (a : Act) (ha : s.exec (a.perform (lease who)).run = (.ok b, s')) :
      Reachable lease key ({ who, act := a, time := s.clock, success := b } :: deeds) s'
  | elsewhere {deeds : List (Deed ι)} {s s' : Machine} (hr : Reachable lease key deeds s)
      (he : s.Elsewhere key s') : Reachable lease key deeds s'

/-! ### The invariant -/

/-- The claims that the deeds of clients make on the key. -/
def claims (lease : ι → Lease) (deeds : List (Deed ι)) (token : String)
    (deadline : Option Instant) : Prop :=
  ∃ who t, lastGrip who deeds = some t ∧ token = (lease who).token ∧
    deadline = t.deadline? (lease who).ttl

variable {lease : ι → Lease} {key : String} {deeds : List (Deed ι)} {who other : ι} {a : Act}
  {now : Instant} {b : Bool} {s : MemoryStore}

theorem lastGrip_of_ne (h : other ≠ who) :
    lastGrip who ({ who := other, act := a, time := now, success := b } :: deeds) =
      lastGrip who deeds := by
  simp only [lastGrip, h, false_and, if_false]

theorem lastGrip_of_failure :
    lastGrip who ({ who := other, act := a, time := now, success := false } :: deeds) =
      lastGrip who deeds := by
  simp only [lastGrip, Bool.false_eq_true, and_false, if_false]

theorem claims_of_failure :
    claims lease ({ who, act := a, time := now, success := false } :: deeds) =
      claims lease deeds := by
  funext token deadline
  simp only [claims, lastGrip_of_failure]

theorem holds_iff (htoken : Function.Injective fun i => (lease i).token) :
    Holds lease deeds who now ↔ ∃ d, claims lease deeds (lease who).token d ∧
      (Slot.ofToken (lease who).token d).isExpired now = false := by
  constructor
  · rintro ⟨t, hg, hd⟩
    exact ⟨_, ⟨who, t, hg, rfl, rfl⟩, MemoryStore.isExpired_ofToken.mpr hd⟩
  · rintro ⟨d, ⟨i, t, hg, ht, rfl⟩, hd⟩
    cases htoken ht
    exact ⟨t, hg, MemoryStore.isExpired_ofToken.mp hd⟩

theorem claims_of_grip (htoken : Function.Injective fun i => (lease i).token) {t : Instant}
    (hg : lastGrip who ({ who, act := a, time := now, success := b } :: deeds) = some t)
    {token : String} {d : Option Instant}
    (h : claims lease ({ who, act := a, time := now, success := b } :: deeds) token d) :
    (token = (lease who).token ∧ d = t.deadline? (lease who).ttl) ∨
      (claims lease deeds token d ∧ token ≠ (lease who).token) := by
  obtain ⟨i, t', hg', rfl, rfl⟩ := h
  by_cases hi : who = i
  · subst hi
    rw [hg] at hg'
    cases hg'
    exact Or.inl ⟨rfl, rfl⟩
  · rw [lastGrip_of_ne hi] at hg'
    exact Or.inr ⟨⟨i, t', hg', rfl, rfl⟩, fun ht => hi (htoken ht).symm⟩

theorem claims_of_end (htoken : Function.Injective fun i => (lease i).token)
    (hg : lastGrip who ({ who, act := a, time := now, success := b } :: deeds) = none)
    {token : String} {d : Option Instant}
    (h : claims lease ({ who, act := a, time := now, success := b } :: deeds) token d) :
    claims lease deeds token d ∧ token ≠ (lease who).token := by
  obtain ⟨i, t', hg', rfl, rfl⟩ := h
  by_cases hi : who = i
  · subst hi
    rw [hg] at hg'
    cases hg'
  · rw [lastGrip_of_ne hi] at hg'
    exact ⟨⟨i, t', hg', rfl, rfl⟩, fun ht => hi (htoken ht).symm⟩

theorem holds_of_text (htoken : Function.Injective fun i => (lease i).token)
    (ho : s.Owned now key (claims lease deeds))
    (hh : s.holds now key (lease who).token = true) : Holds lease deeds who now :=
  (holds_iff htoken).mpr (ho.holds_iff_claim.mp hh)

theorem text_of_holds {token : String} (hh : s.holds now key token = true) :
    ∀ slot, s.live? now key = some slot → slot.value = .text token := by
  intro slot hl
  obtain ⟨slot', hl', hv⟩ := MemoryStore.holds_iff.mp hh
  rw [hl] at hl'
  cases hl'
  exact hv

/-- What an act means for the claims: it keeps them in step with the key, and without holding the
lease a client can only take it. -/
def Act.Spec (lease : ι → Lease) (deeds : List (Deed ι)) (s : MemoryStore) (now : Instant) (who : ι)
    (a : Act) : Prop :=
  ∃ b, (a.effect (lease who) s now).1 = .ok b ∧
    (a.effect (lease who) s now).2.Owned now (lease who).key
      (claims lease ({ who, act := a, time := now, success := b } :: deeds)) ∧
    (a ≠ .obtain → ¬ Holds lease deeds who now →
      b = false ∧ (a.effect (lease who) s now).2 = s)

theorem obtain_spec (htoken : Function.Injective fun i => (lease i).token)
    (ho : s.Owned now (lease who).key (claims lease deeds)) :
    Act.obtain.Spec lease deeds s now who := by
  have hg : lastGrip who
      ({ who, act := .obtain, time := now, success := true } :: deeds) = some now := by
    simp only [lastGrip, and_self, if_true]
  rcases s.call_setIfAbsent now (lease who).key (lease who).token (lease who).ttl with
    ⟨hf, he⟩ | ⟨slot, hl, he⟩
  · refine ⟨true, congrArg Prod.fst he, ?_, fun hne => absurd rfl hne⟩
    rw [Act.effect, he]
    refine ho.insert ?_ ⟨who, now, hg, rfl, rfl⟩ fun _ _ => claims_of_grip htoken hg
    intro slot hl
    rw [hf] at hl
    cases hl
  · refine ⟨false, congrArg Prod.fst he, ?_, fun hne => absurd rfl hne⟩
    rw [Act.effect, he, claims_of_failure]
    exact ho

theorem renew_spec (htoken : Function.Injective fun i => (lease i).token)
    (ho : s.Owned now (lease who).key (claims lease deeds)) :
    Act.renew.Spec lease deeds s now who := by
  rcases s.call_expireIfEq now (lease who).key (lease who).token (lease who).ttl with
    ⟨hh, he⟩ | ⟨hh, he⟩
  · obtain ⟨t, hg, hd⟩ := holds_of_text htoken ho hh
    have hg' : lastGrip who
        ({ who, act := .renew, time := now, success := true } :: deeds) = some now := by
      simp only [lastGrip, and_self, if_true, hg, Option.map_some]
    refine ⟨true, congrArg Prod.fst he, ?_, fun _ hn => absurd ⟨t, hg, hd⟩ hn⟩
    rw [Act.effect, he]
    exact ho.insert (text_of_holds hh) ⟨who, now, hg', rfl, rfl⟩ fun _ _ =>
      claims_of_grip htoken hg'
  · refine ⟨false, congrArg Prod.fst he, ?_, fun _ _ => ⟨rfl, congrArg Prod.snd he⟩⟩
    rw [Act.effect, he, claims_of_failure]
    exact ho

/-- Releasing and cancelling are the same call. -/
theorem giveUp_spec (htoken : Function.Injective fun i => (lease i).token)
    (ho : s.Owned now (lease who).key (claims lease deeds)) {a : Act}
    (ha : a.effect (lease who) s now =
      s.call now (.deleteIfEq (lease who).key (lease who).token))
    (hg : lastGrip who ({ who, act := a, time := now, success := true } :: deeds) = none) :
    a.Spec lease deeds s now who := by
  unfold Act.Spec
  rw [ha]
  rcases s.call_deleteIfEq now (lease who).key (lease who).token with ⟨hh, he⟩ | ⟨hh, he⟩
  · refine ⟨true, congrArg Prod.fst he, ?_, fun _ hn => absurd (holds_of_text htoken ho hh) hn⟩
    rw [he]
    exact ho.erase (text_of_holds hh) fun _ _ => claims_of_end htoken hg
  · refine ⟨false, congrArg Prod.fst he, ?_, fun _ _ => ⟨rfl, congrArg Prod.snd he⟩⟩
    rw [he, claims_of_failure]
    exact ho

theorem effect_spec (htoken : Function.Injective fun i => (lease i).token)
    (ho : s.Owned now (lease who).key (claims lease deeds)) (a : Act) :
    a.Spec lease deeds s now who := by
  cases a with
  | obtain => exact obtain_spec htoken ho
  | renew => exact renew_spec htoken ho
  | release => exact giveUp_spec htoken ho rfl (by simp only [lastGrip, and_self, if_true])
  | cancel => exact giveUp_spec htoken ho rfl (by simp only [lastGrip, and_self, if_true])

theorem owned_of_reachable {m : Machine} (htoken : Function.Injective fun i => (lease i).token)
    (hkey : ∀ i, (lease i).key = key) (hr : Reachable lease key deeds m) :
    m.Quiet ∧ m.store.Owned m.clock key (claims lease deeds) := by
  induction hr with
  | start hq hf =>
    refine ⟨hq, MemoryStore.Owned.of_free hf ?_⟩
    rintro token d ⟨who, t, hg, _, _⟩
    cases hg
  | act hr who a ha ih =>
    obtain ⟨hq, ho⟩ := ih
    obtain ⟨s', he, hs, hc, hq'⟩ := Act.exec_perform hq a (lease who)
    rw [← hkey who] at ho
    obtain ⟨b, hb, ho', _⟩ := effect_spec htoken ho a
    rw [he, hb] at ha
    cases ha
    refine ⟨hq', ?_⟩
    rw [hs, hc, ← hkey who]
    exact ho'
  | elsewhere hr he ih =>
    obtain ⟨hq, ho⟩ := ih
    exact ⟨he.quiet hq, (ho.of_le he.clock).of_live?_eq (he.live _ (le_refl _))⟩

theorem holds_unique {m : Machine} (htoken : Function.Injective fun i => (lease i).token)
    (hkey : ∀ i, (lease i).key = key) (hr : Reachable lease key deeds m)
    (hw : Holds lease deeds who m.clock) (ho : Holds lease deeds other m.clock) : who = other := by
  obtain ⟨_, howned⟩ := owned_of_reachable htoken hkey hr
  obtain ⟨d, hc, hd⟩ := (holds_iff htoken).mp hw
  obtain ⟨d', hc', hd'⟩ := (holds_iff htoken).mp ho
  exact htoken (howned.unique hc hd hc' hd').1

theorem exec_holder {m : Machine} (htoken : Function.Injective fun i => (lease i).token)
    (hkey : ∀ i, (lease i).key = key) (hr : Reachable lease key deeds m) {l : Lease}
    (hl : l.key = key) :
    ∃ r, (m.exec l.holder.run).1 = .ok r ∧
      (∀ i, r = some (lease i).token ↔ Holds lease deeds i m.clock) ∧
      (r = none ↔ ∀ i, ¬ Holds lease deeds i m.clock) := by
  obtain ⟨hq, howned⟩ := owned_of_reachable htoken hkey hr
  obtain ⟨r, hanswer, hshows⟩ := howned.call_get
  have hholds : ∀ i, r = some (lease i).token ↔ Holds lease deeds i m.clock :=
    fun i => (hshows _).trans (holds_iff htoken).symm
  refine ⟨r, ?_, hholds, ?_⟩
  · subst hl
    exact (Machine.callStore_eq hq _).1.trans hanswer
  · constructor
    · rintro rfl i hi
      cases (hholds i).mpr hi
    · intro hnone
      cases r with
      | none => rfl
      | some token =>
        obtain ⟨d, ⟨i, t, hg, rfl, hd⟩, _⟩ := (hshows token).mp rfl
        exact absurd ((hholds i).mp rfl) (hnone i)

theorem exec_perform_of_reachable {m : Machine}
    (htoken : Function.Injective fun i => (lease i).token) (hkey : ∀ i, (lease i).key = key)
    (hr : Reachable lease key deeds m) (who : ι) (a : Act) :
    ∃ b m', m.exec (a.perform (lease who)).run = (.ok b, m') ∧
      (a ≠ .obtain → ¬ Holds lease deeds who m.clock → b = false ∧ m'.store = m.store) := by
  obtain ⟨hq, ho⟩ := owned_of_reachable htoken hkey hr
  obtain ⟨m', he, hs, _, _⟩ := Act.exec_perform hq a (lease who)
  rw [← hkey who] at ho
  obtain ⟨b, hb, _, hnot⟩ := effect_spec htoken ho a
  refine ⟨b, m', he.trans (by rw [hb]), ?_⟩
  intro ha hn
  obtain ⟨hfalse, hstore⟩ := hnot ha hn
  exact ⟨hfalse, hs.trans hstore⟩

end

end Lease

end Turnstile
