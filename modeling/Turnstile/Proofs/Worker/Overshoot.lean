import Mathlib.Data.Finset.Card
import Turnstile.Proofs.Worker.Parts

/-!
# Bounded overshoot

Any number of calls of workers of one kind take turns on one running set. Between the check of a call
and its registration others may register too, so more jobs may run than the workers allow; but no more
than there are calls between the two.
-/

namespace Turnstile

open scoped List
open Machine Thread

namespace Worker

variable {Q ρ κ α β : Type} {kind : String} {most : Int}

/-- What takes part in the traffic on a running set. -/
inductive Party (Q ρ : Type)
  | performs (w : Worker (Thread Q ρ)) (id : String) (args : List Json)
  | cleansUp (set : RunningSet (Thread Q ρ))
  | removes (set : RunningSet (Thread Q ρ)) (id : String)

namespace Party

def thread [Names] : Party Q ρ → Thread Q ρ Unit
  | performs w id args => do let _ ← (w.perform id args).run
  | cleansUp set => do let _ ← set.cleanUp.run
  | removes set id => do let _ ← (set.remove id).run

def Performs : Party Q ρ → Prop
  | performs .. => True
  | _ => False

/-- A party to the running set of a kind. Besides the registrations of its own jobs it adds nobody. -/
def Joins (kind : String) (most : Int) : Party Q ρ → Prop
  | performs w _ _ =>
    w.Stays kind most (Thins kind) ∧ ∀ job, Within (Thins kind) (w.transport.submit job).run
  | cleansUp set | removes set _ =>
    set.kind = kind ∧ ∀ p, set.probe = some p → p.Stays (Thins kind)

end Party

/-- The interleavings of parties to one running set, which is empty at first. -/
def Traffic [Names] [DecidableEq κ] (party : κ → Party Q ρ) (kind : String) :
    List (Made κ) → (κ → Thread Q ρ Unit) → Machine → Prop :=
  Interleaved (fun who => (party who).thread) (fun s => s.Quiet ∧ s.members kind = []) (Thins kind)

/-- What a count says; a count that fails says that there is nobody. -/
def counted : Except Fault Nat → Nat
  | .ok n => n
  | .error _ => 0

/-- A count of a running set, and what it says. -/
def countIn (kind : String) : Made κ → Option Nat
  | { call := .setCount key, answer, .. } =>
    if key = RunningSet.keyOf kind then some (counted answer) else none
  | _ => none

/-- A call has found room and has not registered its job yet: all that it did was to count. -/
def InWindow [DecidableEq κ] (party : κ → Party Q ρ) (kind : String) (most : Int)
    (log : List (Made κ)) (who : κ) : Prop :=
  (party who).Performs ∧ ∃ made n, log.filter (fun made => made.who = who) = [made] ∧
    countIn kind made = some n ∧ (n : Int) < most

/-! ### How far a call has come -/

inductive Stage
  | checking
  | admitted
  | resting
deriving DecidableEq

/-- A thread that counts first, then registers if it found room, and adds nobody otherwise. -/
inductive Follows (kind : String) (most : Int) : Stage → Thread Q ρ α → Prop
  | check {next : Except Fault Nat → Thread Q ρ α}
      (hroom : ∀ r, counted r < 2 ^ 63 → (counted r : Int) < most →
        Follows kind most .admitted (next r))
      (hfull : ∀ r, counted r < 2 ^ 63 → most ≤ counted r → Within (Thins kind) (next r)) :
      Follows kind most .checking (.call (.setCount (RunningSet.keyOf kind)) next)
  | noted {effect : Machine → Machine} {next : Machine → Thread Q ρ α}
      (he : ∀ s : Machine, s.Logged (effect s)) (hn : ∀ s, Follows kind most .admitted (next s)) :
      Follows kind most .admitted (.step effect next)
  | register {id : String} {ttl : Duration} {next : Except Fault Bool → Thread Q ρ α}
      (hn : ∀ r, Within (Thins kind) (next r)) :
      Follows kind most .admitted (.call (.setAdd (RunningSet.keyOf kind) id ttl) next)
  | rest {x : Thread Q ρ α} (h : Within (Thins kind) x) : Follows kind most .resting x

theorem within_conclude [Names] {w : Worker (Thread Q ρ)} (hw : w.Serves kind most (Thins kind))
    (hsubmit : ∀ job, Within (Thins kind) (w.transport.submit job).run) (id : String)
    (args : List Json) (result : WorkEnd) :
    Within (Thins kind) (w.conclude id args result).run := by
  cases result with
  | succeeded =>
    refine Within.run_bind ?_ fun again => .done _
    rw [reEnqueue_run]
    refine (hw.remaining args).bind fun left => ?_
    split
    · exact .done _
    refine Within.bind (within_step fun s hq => ⟨hq, List.Sublist.refl _⟩) fun name => ?_
    exact (hsubmit _).run_bind fun _ => .done _
  | failed e =>
    refine Within.run_bind ?_ fun _ => ?_
    · rw [liftM_eq_lift]
      exact (within_tally _).run_lift
    refine Within.run_bind ?_ fun _ => .done _
    rw [liftM_eq_lift]
    exact (within_note _).run_lift
  | panicked => exact .done _

theorem Follows.bind {stage : Stage} {x : Thread Q ρ α} {f : α → Thread Q ρ β}
    (h : Follows kind most stage x) (hf : ∀ a, Within (Thins kind) (f a)) :
    Follows kind most stage (x >>= f) := by
  induction h with
  | check hroom hfull ih => exact .check ih fun r hr hle => (hfull r hr hle).bind hf
  | noted he hn ih => exact .noted he ih
  | register hn => exact .register fun r => (hn r).bind hf
  | rest h => exact .rest (h.bind hf)

section

variable {w : Worker (Thread Q ρ)} (hw : w.Stays kind most (Thins kind))
  (hsubmit : ∀ job, Within (Thins kind) (w.transport.submit job).run)

include hw

theorem follows_register (id : String) :
    Follows kind most .admitted (w.running.register id).run := by
  obtain rfl := hw.runningKind
  refine .register ?_
  rintro (f | added)
  · exact .done _
  · cases hp : w.running.probe with
    | none => exact .done _
    | some p => exact (hw.probe p hp).started id

include hsubmit

theorem follows_start [Names] (id : String) (args : List Json) :
    Follows kind most .admitted (w.start id args) := by
  unfold start
  refine Follows.bind ?_ fun _ => ?_
  · refine (follows_register hw id).bind ?_
    rintro (f | _)
    · exact (within_note _).bind fun _ => .done _
    · exact .done _
  · refine (hw.work args).bind fun result => ?_
    exact (within_finish hw id args result).bind fun _ =>
      within_conclude hw.toServes hsubmit id args result

theorem follows_perform [Names] (id : String) (args : List Json) :
    Follows kind most .checking (w.perform id args).run := by
  have hkey : w.running.key = RunningSet.keyOf kind := by rw [← hw.runningKind]; rfl
  rw [perform_run]
  unfold hasCapacity runningCount RunningSet.count
  rw [hw.maxRunning, hkey]
  have hstart (n : Nat) (hn : n < 2 ^ 63) (hlt : (n : Int) < most) :
      Follows kind most .admitted
        (if decide (0 < most - signed n) then w.start id args
          else w.skip id args >>= fun _ => pure (.ok .skipped)) := by
    rw [signed_of_lt hn, if_pos (by simpa using hlt)]
    exact follows_start hw hsubmit id args
  have hskip (n : Nat) (hn : n < 2 ^ 63) (hle : most ≤ n) :
      Within (Thins kind)
        (if decide (0 < most - signed n) then w.start id args
          else w.skip id args >>= fun _ => pure (.ok .skipped)) := by
    rw [signed_of_lt hn, if_neg (by simpa using hle)]
    exact (within_skip hw id args).bind fun _ => .done _
  refine .check ?_ ?_
  · rintro (f | n) hn hlt
    · exact .noted (fun s => logged_addRecord s _) fun _ => hstart 0 hn hlt
    · exact hstart n hn hlt
  · rintro (f | n) hn hle
    · exact .step (fun s => Lenient.logged (logged_addRecord s _)) fun _ => hskip 0 hn hle
    · exact hskip n hn hle

end

theorem follows_thread [Names] {p : Party Q ρ} (hp : p.Joins kind most) :
    ∃ stage, Follows kind most stage p.thread ∧ (stage = .checking → p.Performs) ∧
      stage ≠ .admitted := by
  cases p with
  | performs w id args =>
    obtain ⟨hw, hsubmit⟩ := hp
    exact ⟨.checking, (follows_perform hw hsubmit id args).bind fun _ => .done _,
      fun _ => trivial, nofun⟩
  | cleansUp set =>
    obtain ⟨rfl, hprobe⟩ := hp
    have hclean : Within (Thins set.kind) set.cleanUp.run :=
      RunningSet.within_cleanUp fun p hp => (hprobe p hp).completed
    exact ⟨.resting, .rest (hclean.bind fun _ => .done _), nofun, nofun⟩
  | removes set id =>
    obtain ⟨rfl, hprobe⟩ := hp
    exact ⟨.resting, .rest ((RunningSet.within_remove hprobe id).bind fun _ => .done _), nofun,
      nofun⟩

/-! ### Calls in turns -/

section

variable [DecidableEq κ] {party : κ → Party Q ρ} {width : Nat} {log : List (Made κ)}
  {threads : κ → Thread Q ρ Unit} {s s' : Machine} {stage : κ → Stage} {who : κ} {made : Made κ}
  {x : Thread Q ρ Unit}

/-- What holds in all traffic: those that are admitted count as if they were members. -/
structure Inv (party : κ → Party Q ρ) (kind : String) (most : Int) (width : Nat)
    (log : List (Made κ)) (threads : κ → Thread Q ρ Unit) (s : Machine) (stage : κ → Stage) :
    Prop where
  quiet : s.Quiet
  follows : ∀ who, Follows kind most (stage who) (threads who)
  fresh : ∀ who, stage who = .checking →
    (party who).Performs ∧ log.filter (fun made => made.who = who) = []
  window : ∀ who, stage who = .admitted → InWindow party kind most log who
  bound : ∀ whos : Finset κ, (∀ who ∈ whos, stage who = .admitted) → 0 < most →
    ((s.members kind).length : Int) + whos.card ≤ most - 1 + width
  shut : most ≤ 0 → s.members kind = []

theorem counted_callStore (hq : s.Quiet) :
    counted (s.callStore (.setCount (RunningSet.keyOf kind))).1 = (s.members kind).length := by
  rw [(callStore_eq hq _).1]
  rcases MemoryStore.call_setCount s.store s.clock (RunningSet.keyOf kind) with he | ⟨f, he, hm⟩
  · rw [he]
    rfl
  · rw [he, members, hm]
    rfl

theorem filter_cons_of_ne (h : made.who ≠ who) :
    (made :: log).filter (fun made => made.who = who) = log.filter fun made => made.who = who := by
  rw [List.filter_cons_of_neg]
  simpa using h

namespace Inv

theorem moved (h : Inv party kind most width log threads s stage) (hs : Thins kind s s')
    (hx : Follows kind most (stage who) x) :
    Inv party kind most width log (Function.update threads who x) s' stage := by
  obtain ⟨hq, hm⟩ := hs h.quiet
  have hle := hm.length_le
  refine ⟨hq, ?_, h.fresh, h.window, ?_, ?_⟩
  · intro other
    by_cases ho : other = who
    · subst ho
      rw [Function.update_self]
      exact hx
    · rw [Function.update_of_ne ho]
      exact h.follows other
  · intro whos hwhos hmost
    have hbound := h.bound whos hwhos hmost
    omega
  · intro hmost
    rw [h.shut hmost] at hm
    exact List.sublist_nil.mp hm

theorem called {p : Stage} (h : Inv party kind most width log threads s stage) (hq : s'.Quiet)
    (hx : Follows kind most p x) (hp : p ≠ .checking) (hw : made.who = who)
    (hadmitted : p = .admitted → stage who = .checking ∧
      ∃ n, countIn kind made = some n ∧ (n : Int) < most)
    (hbound : ∀ whos : Finset κ, (∀ o ∈ whos, Function.update stage who p o = .admitted) →
      (∀ o ∈ whos, InWindow party kind most (made :: log) o) → 0 < most →
      ((s'.members kind).length : Int) + whos.card ≤ most - 1 + width)
    (hshut : most ≤ 0 → s'.members kind = []) :
    Inv party kind most width (made :: log) (Function.update threads who x) s'
      (Function.update stage who p) := by
  have hother (other : κ) (ho : other ≠ who) :
      (made :: log).filter (fun made => made.who = other) =
        log.filter fun made => made.who = other :=
    filter_cons_of_ne fun he => ho (he.symm.trans hw)
  have hwindow (other : κ) (hin : Function.update stage who p other = .admitted) :
      InWindow party kind most (made :: log) other := by
    by_cases ho : other = who
    · subst ho
      rw [Function.update_self] at hin
      obtain ⟨hchecking, n, hcount, hlt⟩ := hadmitted hin
      obtain ⟨hperforms, hlog⟩ := h.fresh other hchecking
      refine ⟨hperforms, made, n, ?_, hcount, hlt⟩
      rw [List.filter_cons_of_pos (by simpa using hw), hlog]
    · rw [Function.update_of_ne ho] at hin
      obtain ⟨hperforms, made', n, hlog, hcount, hlt⟩ := h.window other hin
      exact ⟨hperforms, made', n, (hother other ho).trans hlog, hcount, hlt⟩
  refine ⟨hq, ?_, ?_, hwindow, ?_, hshut⟩
  · intro other
    by_cases ho : other = who
    · subst ho
      rw [Function.update_self, Function.update_self]
      exact hx
    · rw [Function.update_of_ne ho, Function.update_of_ne ho]
      exact h.follows other
  · intro other hchecking
    have ho : other ≠ who := by
      rintro rfl
      rw [Function.update_self] at hchecking
      exact hp hchecking
    rw [Function.update_of_ne ho] at hchecking
    obtain ⟨hperforms, hlog⟩ := h.fresh other hchecking
    exact ⟨hperforms, (hother other ho).trans hlog⟩
  · intro whos hwhos
    exact hbound whos hwhos fun o ho => hwindow o (hwhos o ho)

theorem pos_of_admitted (h : Inv party kind most width log threads s stage)
    (hin : stage who = .admitted) : 0 < most := by
  obtain ⟨_, _, n, _, _, hlt⟩ := h.window who hin
  omega

theorem admitted_update {whos : Finset κ} {p : Stage} (hp : p ≠ .admitted)
    (hwhos : ∀ o ∈ whos, Function.update stage who p o = .admitted) :
    who ∉ whos ∧ ∀ o ∈ whos, stage o = .admitted := by
  have hout : who ∉ whos := by
    intro hmem
    have hin := hwhos who hmem
    rw [Function.update_self] at hin
    exact hp hin
  refine ⟨hout, fun o ho => ?_⟩
  have hne : o ≠ who := fun he => hout (he ▸ ho)
  have hin := hwhos o ho
  rwa [Function.update_of_ne hne] at hin

/-- A call that adds nobody, after which its thread adds nobody. -/
theorem rested (h : Inv party kind most width log threads s stage) (hs : Thins kind s s')
    (hx : Within (Thins kind) x) (hw : made.who = who) :
    Inv party kind most width (made :: log) (Function.update threads who x) s'
      (Function.update stage who .resting) := by
  obtain ⟨hq, hm⟩ := hs h.quiet
  have hle := hm.length_le
  refine h.called hq (.rest hx) nofun hw nofun ?_ ?_
  · intro whos hwhos _ hmost
    obtain ⟨_, hin⟩ := admitted_update (by decide) hwhos
    have hbound := h.bound whos hin hmost
    omega
  · intro hmost
    rw [h.shut hmost] at hm
    exact List.sublist_nil.mp hm

/-- A registration adds one member, and takes one thread out of those that are admitted. -/
theorem registered {id : String} {ttl : Duration}
    (h : Inv party kind most width log threads s stage) (hin : stage who = .admitted)
    (hx : Within (Thins kind) x) (hw : made.who = who) :
    Inv party kind most width (made :: log) (Function.update threads who x)
      (s.callStore (.setAdd (RunningSet.keyOf kind) id ttl)).2
      (Function.update stage who .resting) := by
  have hcalled := called_callStore s (.setAdd (RunningSet.keyOf kind) id ttl)
  have hm := MemoryStore.membersAt_setAdd s.store s.clock (RunningSet.keyOf kind) id ttl
  rw [← hcalled.members h.quiet] at hm
  have hle := hm.length_le
  rw [List.length_append, List.length_singleton] at hle
  change _ ≤ (s.members kind).length + 1 at hle
  have hmost := h.pos_of_admitted hin
  refine h.called (hcalled.quiet h.quiet) (.rest hx) nofun hw nofun ?_ fun hle => by omega
  intro whos hwhos _ _
  obtain ⟨hout, hin'⟩ := admitted_update (by decide) hwhos
  have hbound := h.bound (insert who whos) (by simpa [hin] using hin') hmost
  rw [Finset.card_insert_of_notMem hout] at hbound
  push_cast at hbound
  omega

/-- A check that finds room. What it counted and those that are then between check and registration
keep the bound together. -/
theorem admitted (h : Inv party kind most width log threads s stage)
    (hchecking : stage who = .checking) (hs : Thins kind s s')
    (hlt : ((s.members kind).length : Int) < most) (hx : Follows kind most .admitted x)
    (hw : made.who = who) (hcount : countIn kind made = some (s.members kind).length)
    (hwidth : ∀ whos : Finset κ, (∀ o ∈ whos, InWindow party kind most (made :: log) o) →
      whos.card ≤ width) :
    Inv party kind most width (made :: log) (Function.update threads who x) s'
      (Function.update stage who .admitted) := by
  obtain ⟨hq, hm⟩ := hs h.quiet
  have hle := hm.length_le
  refine h.called hq hx nofun hw (fun _ => ⟨hchecking, _, hcount, hlt⟩) ?_ fun hle => by omega
  intro whos _ hwindow _
  have hcard := hwidth whos hwindow
  omega

theorem call {c : StoreCall} {next : Except Fault c.Answer → Thread Q ρ Unit}
    (h : Inv party kind most width log threads s stage) (hw : threads who = .call c next)
    (hcount : ∀ n, countIn kind ⟨s.clock, who, c, (s.callStore c).1⟩ = some n → n < 2 ^ 63)
    (hwidth : ∀ whos : Finset κ,
      (∀ o ∈ whos, InWindow party kind most (⟨s.clock, who, c, (s.callStore c).1⟩ :: log) o) →
      whos.card ≤ width) :
    ∃ stage, Inv party kind most width (⟨s.clock, who, c, (s.callStore c).1⟩ :: log)
      (Function.update threads who (next (s.callStore c).1)) (s.callStore c).2 stage := by
  have hfollows := h.follows who
  rw [hw] at hfollows
  generalize hstage : stage who = p at hfollows
  cases hfollows with
  | check hroom hfull =>
    have hs : Thins kind s (s.callStore (.setCount (RunningSet.keyOf kind))).2 :=
      Lenient.reads (c := .setCount (RunningSet.keyOf kind)) trivial (called_callStore s _)
    have hcounted : counted (s.callStore (.setCount (RunningSet.keyOf kind))).1 =
        (s.members kind).length := counted_callStore h.quiet
    have hsome : countIn kind ⟨s.clock, who, .setCount (RunningSet.keyOf kind),
        (s.callStore (.setCount (RunningSet.keyOf kind))).1⟩ =
          some (s.members kind).length := by
      rw [← hcounted]
      exact if_pos rfl
    have hlt := hcount _ hsome
    rcases lt_or_ge ((s.members kind).length : Int) most with hm | hm
    · rw [← hcounted] at hlt hm
      have hx := hroom _ hlt hm
      rw [hcounted] at hm
      exact ⟨_, h.admitted hstage hs hm hx rfl hsome hwidth⟩
    · rw [← hcounted] at hlt hm
      exact ⟨_, h.rested hs (hfull _ hlt hm) rfl⟩
  | register hn => exact ⟨_, h.registered hstage (hn _) rfl⟩
  | rest hrest =>
    cases hrest with
    | call hc hn => exact ⟨_, h.rested (hc s) (hn _) rfl⟩

theorem step {effect : Machine → Machine} {next : Machine → Thread Q ρ Unit}
    (h : Inv party kind most width log threads s stage) (hw : threads who = .step effect next) :
    Inv party kind most width log (Function.update threads who (next s)) (effect s) stage := by
  have hfollows := h.follows who
  rw [hw] at hfollows
  generalize hstage : stage who = p at hfollows
  cases hfollows with
  | noted he hn =>
    refine h.moved (Lenient.logged (he s)) ?_
    rw [hstage]
    exact hn s
  | rest hrest =>
    cases hrest with
    | step he hn =>
      refine h.moved (he s) ?_
      rw [hstage]
      exact .rest (hn s)

theorem answer {q : Q} {next : ρ → Thread Q ρ Unit}
    (h : Inv party kind most width log threads s stage) (hw : threads who = .await q next) (r : ρ) :
    Inv party kind most width log (Function.update threads who (next r)) s stage := by
  have hfollows := h.follows who
  rw [hw] at hfollows
  generalize hstage : stage who = p at hfollows
  cases hfollows with
  | rest hrest =>
    cases hrest with
    | await hn =>
      refine h.moved (refl_of (Thins kind) s) ?_
      rw [hstage]
      exact .rest (hn r)

end Inv

theorem inv_of_traffic [Names] (h : Traffic party kind log threads s)
    (hjoins : ∀ who, (party who).Joins kind most)
    (hcounts : ∀ made ∈ log, ∀ n, countIn kind made = some n → n < 2 ^ 63)
    (hwidth : ∀ earlier, earlier <:+ log → ∀ whos : Finset κ,
      (∀ who ∈ whos, InWindow party kind most earlier who) → whos.card ≤ width) :
    ∃ stage, Inv party kind most width log threads s stage := by
  induction h with
  | start hs =>
    obtain ⟨hq, hm⟩ := hs
    choose stage hfollows hperforms hnot using fun who => follows_thread (hjoins who)
    refine ⟨stage, hq, hfollows, fun who hc => ⟨hperforms who hc, rfl⟩,
      fun who hin => absurd hin (hnot who), ?_, fun _ => hm⟩
    intro whos hwhos hmost
    have hnone : whos = ∅ :=
      Finset.eq_empty_of_forall_notMem fun who hmem => hnot who (hwhos who hmem)
    rw [hnone, hm]
    simp only [List.length_nil, Finset.card_empty]
    omega
  | @call log threads s who c next hr hw ih =>
    obtain ⟨stage, hi⟩ := ih (fun made hmem => hcounts made (List.mem_cons_of_mem _ hmem))
      fun earlier he => hwidth earlier (he.trans (List.suffix_cons _ _))
    exact hi.call hw (hcounts _ List.mem_cons_self) (hwidth _ List.suffix_rfl)
  | step who hr hw ih =>
    obtain ⟨stage, hi⟩ := ih hcounts hwidth
    exact ⟨stage, hi.step hw⟩
  | answer who r hr hw ih =>
    obtain ⟨stage, hi⟩ := ih hcounts hwidth
    exact ⟨stage, hi.answer hw r⟩
  | @elsewhere log threads s s' hr he ih =>
    obtain ⟨stage, hi⟩ := ih hcounts hwidth
    obtain ⟨hq, hm⟩ := he hi.quiet
    have hle := hm.length_le
    refine ⟨stage, hq, hi.follows, hi.fresh, hi.window, ?_, ?_⟩
    · intro whos hwhos hmost
      have hbound := hi.bound whos hwhos hmost
      omega
    · intro hmost
      rw [hi.shut hmost] at hm
      exact List.sublist_nil.mp hm

/-- As long as at most `width` calls at a time have found room and not registered yet, there are at
most so many members more than may run, less one; and none if none may run. Counts are taken to fit in
signed numbers. -/
theorem members_le_of_traffic [Names] (h : Traffic party kind log threads s)
    (hjoins : ∀ who, (party who).Joins kind most)
    (hcounts : ∀ made ∈ log, ∀ n, countIn kind made = some n → n < 2 ^ 63)
    (hwidth : ∀ earlier, earlier <:+ log → ∀ whos : Finset κ,
      (∀ who ∈ whos, InWindow party kind most earlier who) → whos.card ≤ width) :
    (0 < most → ((s.members kind).length : Int) ≤ most - 1 + width) ∧
      (most ≤ 0 → s.members kind = []) := by
  obtain ⟨stage, hi⟩ := inv_of_traffic h hjoins hcounts hwidth
  refine ⟨fun hmost => ?_, hi.shut⟩
  have hbound := hi.bound ∅ (by simp) hmost
  rw [Finset.card_empty] at hbound
  omega

end

/-- Of two jobs one may run, but both checks come before both registrations; then time passes. -/
theorem members_le_of_traffic_of_two :
    let lt : LocalTransport := { liveness := none }
    let w : Worker (Thread Empty Empty) :=
      { load := { kind := "k", maxRunning := pure 1, remaining := fun _ => pure 0,
                  work := fun _ => pure .succeeded }
        running := { kind := "k", entryTtl := ⟨5⟩, batchSize := 1, probe := none }
        transport := lt.toTransport
        setGauge := fun _ _ => pure () }
    ∃ log threads s,
      Traffic (fun who : Bool => .performs w (if who then "a" else "b") []) "k" log threads s ∧
        s.members "k" = ["a", "b"] ∧ ((s.members "k").length : Int) ≤ 1 - 1 + (2 : Nat) := by
  intro lt w
  have hsubmit (job : Job) : Within (Thins "k") (w.transport.submit job).run :=
    (within_now.bind fun _ => (within_step fun s hq => ⟨hq, .refl _⟩).bind fun _ => .done _).run_lift
  have hstays : w.Stays "k" 1 (Thins "k") :=
    ⟨⟨rfl, rfl, rfl, fun _ => .done _, fun _ _ => .done _⟩, nofun, fun _ => .done _⟩
  have h0 : Traffic (fun who : Bool => .performs w (if who then "a" else "b") []) "k" [] _
      (Machine.ofClock Instant.epoch) := .start ⟨fun _ => rfl, rfl⟩
  have h1 := Thread.Interleaved.call true h0 rfl
  have h2 := Thread.Interleaved.call false h1 rfl
  have h3 := Thread.Interleaved.call true h2 rfl
  have h4 := Thread.Interleaved.call false h3 rfl
  have hlater (s : Machine) (h : s.clock ≤ ⟨0, 3⟩) : Thins "k" s { s with clock := ⟨0, 3⟩ } :=
    thins_later h rfl id
  have h5 := Thread.Interleaved.elsewhere h4 (hlater _ (by decide))
  refine ⟨_, _, _, h5, ?_, ?_⟩
  · decide
  · refine (members_le_of_traffic h5 (fun _ => ⟨hstays, hsubmit⟩) ?_
      ?_).1 (by decide)
    · intro made hmem n hn
      simp only [List.mem_cons, List.not_mem_nil, or_false] at hmem
      -- the newest two calls are the registrations
      rcases hmem with rfl | rfl | rfl | rfl
      · cases hn
      · cases hn
      · obtain rfl : 0 = n := Option.some.inj hn
        decide
      · obtain rfl : 0 = n := Option.some.inj hn
        decide
    · intro earlier _ whos _
      exact Finset.card_le_univ whos

end Worker

end Turnstile
