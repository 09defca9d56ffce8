import Turnstile.Job.Liveness
import Turnstile.Proofs.Engine.Moments
import Turnstile.Proofs.Lease.Exclusion
import Turnstile.Proofs.Simulation.Answers

/-!
# Refreshing the mark of a live job

A mark that is there is refreshed in two calls: one that would write it if it were absent, and one that
renews it. Time passes between the two. The mark is there afterwards, for as long as was asked, unless
its old deadline came just then.
-/

namespace Turnstile.Liveness

open Thread

variable {Q ρ : Type} {id : String} {ttl : Duration} {prior held : Option (Option Instant)}

/-! ### The mark under a key -/

/-- The key of a job holds its mark, or nothing that is live; `held` is the deadline of the mark that
was written last. -/
structure Holds (id : String) (held : Option (Option Instant)) (s : Machine) : Prop where
  quiet : s.Quiet
  owned : s.store.Owned s.clock (key id) fun token d => token = mark ∧ held = some d

/-- A mark is there, and its deadline has not come. -/
def Lasts (held : Option (Option Instant)) (now : Instant) : Prop :=
  ∃ d, held = some d ∧ (Slot.ofToken mark d).isExpired now = false

namespace Holds

variable {s s' : Machine}

theorem of_live? (hq : s.Quiet)
    (hl : s.store.live? s.clock (key id) = held.map (Slot.ofToken mark)) : Holds id held s := by
  refine ⟨hq, ?_⟩
  cases held with
  | none => exact MemoryStore.Owned.of_free hl (by simp)
  | some d =>
    intro slot
    have hlast : (Slot.ofToken mark d).isExpired s.clock = false :=
      (MemoryStore.live?_eq_some_iff.mp hl).2
    rw [hl]
    constructor
    · intro hs
      cases hs
      exact ⟨mark, d, ⟨rfl, rfl⟩, rfl, hlast⟩
    · rintro ⟨_, _, ⟨rfl, hd⟩, rfl, _⟩
      cases hd
      rfl

theorem elsewhere (h : Holds id held s) (he : s.Elsewhere (key id) s') : Holds id held s' :=
  ⟨he.quiet h.quiet, (h.owned.of_le he.clock).of_live?_eq (he.live _ (le_refl _))⟩

theorem live? {d : Option Instant} (h : Holds id (some d) s)
    (hd : (Slot.ofToken mark d).isExpired s.clock = false) :
    s.store.live? s.clock (key id) = some (Slot.ofToken mark d) :=
  h.owned.live?_of_claim ⟨rfl, rfl⟩ hd

theorem written (h : Holds id held s) {d : Option Instant} (hq : s'.Quiet)
    (hc : s'.clock = s.clock)
    (hs : s'.store = Keyed.insert s.store (key id) (Slot.ofToken mark d)) :
    Holds id (some d) s' := by
  refine ⟨hq, ?_⟩
  rw [hs, hc]
  refine h.owned.insert ?_ ⟨rfl, rfl⟩ ?_
  · intro slot hl
    obtain ⟨token, d, ⟨rfl, _⟩, rfl, _⟩ := (h.owned slot).mp hl
    rfl
  · rintro token' d' ⟨rfl, hd'⟩
    cases hd'
    exact Or.inl ⟨rfl, rfl⟩

theorem unchanged (h : Holds id held s) (hq : s'.Quiet) (hc : s'.clock = s.clock)
    (hs : s'.store = s.store) : Holds id held s' := by
  refine ⟨hq, ?_⟩
  rw [hs, hc]
  exact h.owned

/-! ### The two calls -/

theorem setIfAbsent (h : Holds id held s) (ttl : Duration) :
    ((s.callStore (.setIfAbsent (key id) mark ttl)).1 = .ok true ∧
        Holds id (some (s.clock.deadline? ttl))
          (s.callStore (.setIfAbsent (key id) mark ttl)).2) ∨
      ((s.callStore (.setIfAbsent (key id) mark ttl)).1 = .ok false ∧ Lasts held s.clock ∧
        Holds id held (s.callStore (.setIfAbsent (key id) mark ttl)).2) := by
  obtain ⟨hanswer, hstore, hquiet⟩ := Machine.callStore_eq h.quiet (.setIfAbsent (key id) mark ttl)
  have hclock := (Machine.observed_callStore s (.setIfAbsent (key id) mark ttl)).clock
  rcases s.store.call_setIfAbsent s.clock (key id) mark ttl with ⟨_, he⟩ | ⟨slot, hl, he⟩
  · rw [he] at hanswer hstore
    exact Or.inl ⟨hanswer, h.written hquiet hclock hstore⟩
  · rw [he] at hanswer hstore
    obtain ⟨_, d, ⟨rfl, hd⟩, rfl, hlast⟩ := (h.owned slot).mp hl
    exact Or.inr ⟨hanswer, ⟨d, hd, hlast⟩, h.unchanged hquiet hclock hstore⟩

theorem expireIfEq (h : Holds id held s) (ttl : Duration) :
    ((s.callStore (.expireIfEq (key id) mark ttl)).1 = .ok true ∧ Lasts held s.clock ∧
        Holds id (some (s.clock.deadline? ttl))
          (s.callStore (.expireIfEq (key id) mark ttl)).2) ∨
      ((s.callStore (.expireIfEq (key id) mark ttl)).1 = .ok false ∧ ¬ Lasts held s.clock ∧
        Holds id held (s.callStore (.expireIfEq (key id) mark ttl)).2) := by
  obtain ⟨hanswer, hstore, hquiet⟩ := Machine.callStore_eq h.quiet (.expireIfEq (key id) mark ttl)
  have hclock := (Machine.observed_callStore s (.expireIfEq (key id) mark ttl)).clock
  have hlast : s.store.holds s.clock (key id) mark = true ↔ Lasts held s.clock := by
    rw [h.owned.holds_iff_claim]
    simp [Lasts]
  rcases s.store.call_expireIfEq s.clock (key id) mark ttl with ⟨hh, he⟩ | ⟨hh, he⟩
  · rw [he] at hanswer hstore
    exact Or.inl ⟨hanswer, hlast.mp hh, h.written hquiet hclock hstore⟩
  · rw [he] at hanswer hstore
    rw [hh] at hlast
    exact Or.inr ⟨hanswer, by simpa using hlast, h.unchanged hquiet hclock hstore⟩

/-! ### What readers are answered -/

theorem exec_isLive (h : Holds id held s) :
    ∃ live, (s.exec (isLive id).run).1 = .ok live ∧ (live = true ↔ Lasts held s.clock) := by
  obtain ⟨value, hvalue, htoken⟩ := h.owned.call_get
  refine ⟨value.isSome, ?_, ?_⟩
  · have hanswer := (Machine.callStore_eq h.quiet (.get (key id))).1.trans hvalue
    rw [isLive, Machine.exec_run_bind, Machine.exec_run_callStore]
    rcases hcall : s.callStore (.get (key id)) with ⟨r, s'⟩
    rw [hcall] at hanswer
    cases hanswer
    rfl
  · rw [Option.isSome_iff_exists]
    simp [htoken, Lasts]

theorem not_live (h : Holds id held s) (hlast : ¬ Lasts held s.clock) :
    (s.exec (isLive id).run).1 = .ok false := by
  obtain ⟨live, hanswer, hlive⟩ := h.exec_isLive
  rw [hanswer]
  simpa [hlast] using hlive

/-- A mark that is written for a while is there, with that time left. -/
theorem live_for {d : Instant} (h : Holds id (some (some d)) s) (hn : s.clock.nano < 2000000000)
    (hpos : 0 < ttl.nanos) (hd : s.clock.deadline? ttl = some d) :
    (s.exec (isLive id).run).1 = .ok true ∧
      s.store.live? s.clock (key id) = some (Slot.ofToken mark (some d)) ∧
      ∃ left, (s.callStore (.ttl (key id))).1 = .ok (some left) ∧
        (¬ s.clock.LosesExcess d → left = ttl) := by
  have hlater := Instant.lt_of_deadline? hn hpos hd
  have hlast : (Slot.ofToken mark (some d)).isExpired s.clock = false :=
    MemoryStore.isExpired_ofToken.mpr (by simpa using hlater)
  have hslot := h.live? hlast
  refine ⟨?_, hslot, s.clock.timeLeft d, ?_, Instant.timeLeft_deadline? hn hd⟩
  · obtain ⟨live, hanswer, hlive⟩ := h.exec_isLive
    rw [hanswer, hlive.mpr ⟨_, rfl, hlast⟩]
  · rw [(Machine.callStore_eq h.quiet _).1]
    simp [MemoryStore.call, MemoryStore.ttl, MemoryStore.read, hslot, Slot.ofToken, Except.map]

end Holds

/-! ### The course of a refresh -/

/-- What is left of a refresh that has found the mark. -/
def renewing (id : String) (ttl : Duration) : Thread Q ρ (Except Fault Unit) :=
  .call (.expireIfEq (key id) mark ttl) fun
    | .error f => .done (.error f)
    | .ok _ => .done (.ok ())

theorem run_set (id : String) (ttl : Duration) :
    (set id ttl).run = (.call (.setIfAbsent (key id) mark ttl) fun
      | .error f => .done (.error f)
      | .ok true => .done (.ok ())
      | .ok false => renewing id ttl : Thread Q ρ (Except Fault Unit)) := by
  refine congrArg (Thread.call _) (funext fun r => ?_)
  rcases r with f | _ | _
  · rfl
  · refine congrArg (Thread.call _) (funext fun r => ?_)
    cases r <;> rfl
  · rfl

/-- The runs of one refresh, of a mark with the deadline `prior` if there is one, while time passes and
nobody else writes the key. -/
abbrev Refreshing (id : String) (ttl : Duration) (prior : Option (Option Instant)) :
    List (Made Unit) → (Unit → Thread Q ρ (Except Fault Unit)) → Machine → Prop :=
  Interleaved (fun _ => (set id ttl).run)
    (fun s => s.Quiet ∧ s.store.live? s.clock (key id) = prior.map (Slot.ofToken mark))
    (Machine.Elsewhere (key id))

/-- What a refresh has become after its calls, the newest first, and the deadline of the mark that
was written last. -/
inductive Stage (id : String) (ttl : Duration) (prior : Option (Option Instant)) :
    List (Made Unit) → Thread Q ρ (Except Fault Unit) → Option (Option Instant) → Prop
  | claiming : Stage id ttl prior [] (set id ttl).run prior
  | claimed (t : Instant) :
      Stage id ttl prior [⟨t, (), .setIfAbsent (key id) mark ttl, .ok true⟩] (.done (.ok ()))
        (some (t.deadline? ttl))
  | renewing (t : Instant) (ht : Lasts prior t) :
      Stage id ttl prior [⟨t, (), .setIfAbsent (key id) mark ttl, .ok false⟩] (renewing id ttl)
        prior
  | renewed (t t' : Instant) (ht' : Lasts prior t') :
      Stage id ttl prior [⟨t', (), .expireIfEq (key id) mark ttl, .ok true⟩,
        ⟨t, (), .setIfAbsent (key id) mark ttl, .ok false⟩] (.done (.ok ()))
        (some (t'.deadline? ttl))
  | lapsed (t t' : Instant) (ht : Lasts prior t) (ht' : ¬ Lasts prior t') :
      Stage id ttl prior [⟨t', (), .expireIfEq (key id) mark ttl, .ok false⟩,
        ⟨t, (), .setIfAbsent (key id) mark ttl, .ok false⟩] (.done (.ok ())) prior

variable {log earlier : List (Made Unit)} {last : Made Unit} {s : Machine}
  {threads : Unit → Thread Q ρ (Except Fault Unit)} {r : Except Fault Unit}

theorem Stage.call {c : StoreCall} {next : Except Fault c.Answer → Thread Q ρ (Except Fault Unit)}
    (h : Stage id ttl prior log (.call c next) held) (hs : Holds id held s) :
    ∃ held', Stage id ttl prior (⟨s.clock, (), c, (s.callStore c).1⟩ :: log)
      (next (s.callStore c).1) held' ∧ Holds id held' (s.callStore c).2 := by
  generalize hx : Thread.call c next = x at h
  cases h with
  | claiming =>
    rw [run_set] at hx
    cases hx
    rcases hs.setIfAbsent ttl with ⟨he, hs'⟩ | ⟨he, hlast, hs'⟩
    · rw [he]
      exact ⟨_, .claimed s.clock, hs'⟩
    · rw [he]
      exact ⟨_, .renewing s.clock hlast, hs'⟩
  | renewing t ht =>
    cases hx
    rcases hs.expireIfEq ttl with ⟨he, hlast, hs'⟩ | ⟨he, hlast, hs'⟩
    · rw [he]
      exact ⟨_, .renewed t s.clock hlast, hs'⟩
    · rw [he]
      exact ⟨_, .lapsed t s.clock ht hlast, hs'⟩
  | claimed => cases hx
  | renewed => cases hx
  | lapsed => cases hx

theorem Stage.call_or_done {x : Thread Q ρ (Except Fault Unit)}
    (h : Stage id ttl prior log x held) : (∃ c next, x = .call c next) ∨ x = .done (.ok ()) := by
  cases h with
  | claiming => exact Or.inl ⟨_, _, run_set id ttl⟩
  | renewing => exact Or.inl ⟨_, _, rfl⟩
  | claimed => exact Or.inr rfl
  | renewed => exact Or.inr rfl
  | lapsed => exact Or.inr rfl

theorem stage_of_refreshing (h : Refreshing id ttl prior log threads s) :
    ∃ held, Stage id ttl prior log (threads ()) held ∧ Holds id held s := by
  induction h with
  | start hs => exact ⟨prior, .claiming, .of_live? hs.1 hs.2⟩
  | call who hr hw ih =>
    obtain ⟨held, hstage, hs⟩ := ih
    rw [hw] at hstage
    simpa using hstage.call hs
  | step who hr hw ih =>
    obtain ⟨held, hstage, _⟩ := ih
    rcases hstage.call_or_done with ⟨c, next, hx⟩ | hx
    · exact absurd (hw.symm.trans hx) nofun
    · exact absurd (hw.symm.trans hx) nofun
  | answer who r hr hw ih =>
    obtain ⟨held, hstage, _⟩ := ih
    rcases hstage.call_or_done with ⟨c, next, hx⟩ | hx
    · exact absurd (hw.symm.trans hx) nofun
    · exact absurd (hw.symm.trans hx) nofun
  | elsewhere hr he ih =>
    obtain ⟨held, hstage, hs⟩ := ih
    exact ⟨held, hstage, hs.elsewhere he⟩

/-! ### The mark after a refresh -/

/-- The mark that the first of two calls found was gone when the second came. -/
def Lapses (prior : Option (Option Instant)) (last : Made Unit) (earlier : List (Made Unit)) :
    Prop :=
  ∃ first d, earlier = [first] ∧ prior = some (some d) ∧ first.time < d ∧ d ≤ last.time

theorem lapses_of_not_lasts {first last : Made Unit} (ht : Lasts prior first.time)
    (ht' : ¬ Lasts prior last.time) : Lapses prior last [first] := by
  obtain ⟨d, rfl, hd⟩ := ht
  cases d with
  | none => exact absurd ⟨none, rfl, rfl⟩ ht'
  | some d =>
    refine ⟨first, d, rfl, rfl, MemoryStore.isExpired_ofToken.mp hd d rfl, ?_⟩
    by_contra hle
    refine ht' ⟨some d, rfl, MemoryStore.isExpired_ofToken.mpr fun t ht => ?_⟩
    cases ht
    exact not_le.mp hle

theorem not_lapses_of_lasts (ht : Lasts prior last.time) : ¬ Lapses prior last earlier := by
  rintro ⟨first, d, _, rfl, _, hle⟩
  obtain ⟨_, ⟨⟩, hd⟩ := ht
  exact absurd (MemoryStore.isExpired_ofToken.mp hd d rfl) (not_lt.mpr hle)

/-- After a refresh the job is live for exactly the time that was asked for, just unless the mark
lapsed between the two calls, and then it is not. -/
theorem live_of_refreshing {d : Instant}
    (h : Refreshing id ttl prior (last :: earlier) threads s) (hdone : threads () = .done r)
    (hnow : s.clock = last.time) (hclock : s.clock.Representable) (hpos : 0 < ttl.nanos)
    (hd : s.clock.deadline? ttl = some d) :
    r = .ok () ∧
      (Lapses prior last earlier → (s.exec (isLive id).run).1 = .ok false) ∧
      (¬ Lapses prior last earlier →
        (s.exec (isLive id).run).1 = .ok true ∧
        s.store.live? s.clock (key id) = some (Slot.ofToken mark (some d)) ∧
        ∃ left, (s.callStore (.ttl (key id))).1 = .ok (some left) ∧
          (¬ s.clock.LosesExcess d → left = ttl)) := by
  obtain ⟨held, hstage, hs⟩ := stage_of_refreshing h
  rw [hdone] at hstage
  have hwritten (hheld : held = some (last.time.deadline? ttl)) := by
    rw [hheld, ← hnow, hd] at hs
    exact hs.live_for hclock.2.2 hpos hd
  cases hstage with
  | claimed t =>
    refine ⟨rfl, ?_, fun _ => hwritten rfl⟩
    rintro ⟨first, _, he, _⟩
    cases he
  | renewed t t' ht' =>
    exact ⟨rfl, fun hlapse => absurd hlapse (not_lapses_of_lasts ht'), fun _ => hwritten rfl⟩
  | lapsed t t' ht ht' =>
    refine ⟨rfl, fun _ => ?_, fun hkept => absurd (lapses_of_not_lasts ht ht') hkept⟩
    apply hs.not_live
    rw [hnow]
    exact ht'

/-- A machine in the first minute, with a mark that lasts until its end. -/
def markedUntilOne (clock : Instant) : Machine :=
  { Machine.ofClock clock with
    store := Keyed.insert Keyed.empty (key "a") (Slot.ofToken mark (some ⟨60, 0⟩)) }

/-- The mark is found at 00:00:50 and renewed at 00:00:55. -/
theorem live_of_refreshing_renewed :
    ∃ (log : List (Made Unit)) (threads : Unit → Thread Empty Empty (Except Fault Unit))
      (s : Machine),
      Refreshing "a" (Duration.ofSeconds 60) (some (some ⟨60, 0⟩)) log threads s ∧
      threads () = .done (.ok ()) ∧ s.clock = ⟨55, 0⟩ ∧ (s.exec (isLive "a").run).1 = .ok true ∧
      s.store.live? s.clock (key "a") = some (Slot.ofToken mark (some ⟨115, 0⟩)) ∧
      (s.callStore (.ttl (key "a"))).1 = .ok (some (Duration.ofSeconds 60)) := by
  have h0 : Refreshing "a" (Duration.ofSeconds 60) (some (some ⟨60, 0⟩)) []
      (fun _ => (set "a" (Duration.ofSeconds 60)).run : Unit → Thread Empty Empty _)
      (markedUntilOne ⟨50, 0⟩) := .start ⟨fun _ => rfl, rfl⟩
  have h1 := h0.called () (run_set _ _)
    (show Machine.callStore _ (.setIfAbsent (key "a") mark _) = (.ok false, _) from rfl)
  have h2 := h1.elsewhere (Machine.elsewhere_clock ⟨55, 0⟩ (by decide))
  have h3 := h2.called () rfl
    (show Machine.callStore _ (.expireIfEq (key "a") mark _) = (.ok true, _) from rfl)
  obtain ⟨-, -, hkept⟩ := live_of_refreshing h3 rfl rfl (by decide) (by decide)
    (show Instant.deadline? ⟨55, 0⟩ (Duration.ofSeconds 60) = some ⟨115, 0⟩ by decide)
  obtain ⟨hlive, hslot, left, hleft, hexact⟩ := hkept (by
    rintro ⟨_, _, _, ⟨⟩, _, hle⟩
    exact absurd hle (by decide))
  rw [hexact (by decide)] at hleft
  exact ⟨_, _, _, h3, rfl, rfl, hlive, hslot, hleft⟩

/-- The mark is found at 00:00:59 and has lapsed at 00:01:00. -/
theorem not_live_of_refreshing :
    ∃ (log : List (Made Unit)) (threads : Unit → Thread Empty Empty (Except Fault Unit))
      (s : Machine),
      Refreshing "a" (Duration.ofSeconds 60) (some (some ⟨60, 0⟩)) log threads s ∧
      log.map (·.time) = [⟨60, 0⟩, ⟨59, 0⟩] ∧ threads () = .done (.ok ()) ∧ s.clock = ⟨60, 0⟩ ∧
      Instant.deadline? ⟨60, 0⟩ (Duration.ofSeconds 60) = some ⟨120, 0⟩ ∧
      (s.exec (isLive "a").run).1 = .ok false := by
  have h0 : Refreshing "a" (Duration.ofSeconds 60) (some (some ⟨60, 0⟩)) []
      (fun _ => (set "a" (Duration.ofSeconds 60)).run : Unit → Thread Empty Empty _)
      (markedUntilOne ⟨59, 0⟩) := .start ⟨fun _ => rfl, rfl⟩
  have h1 := h0.called () (run_set _ _)
    (show Machine.callStore _ (.setIfAbsent (key "a") mark _) = (.ok false, _) from rfl)
  have h2 := h1.elsewhere (Machine.elsewhere_clock ⟨60, 0⟩ (by decide))
  have h3 := h2.called () rfl
    (show Machine.callStore _ (.expireIfEq (key "a") mark _) = (.ok false, _) from rfl)
  exact ⟨_, _, _, h3, rfl, rfl, rfl, by decide, rfl⟩

end Turnstile.Liveness
