import Mathlib.Data.Bool.Basic
import Turnstile.Duplicate.Claim
import Turnstile.Proofs.Engine.Moments
import Turnstile.Proofs.Lease.Exclusion
import Turnstile.Proofs.Simulation.Answers

/-!
# Agreement on an owner

Any number of jobs check one key at the same time, one call to the store after another, while the key
may be deleted and expire in between. What each check answers was so at one of its calls; and as long
as the key stays, one job owns it and all others are told so.
-/

namespace Turnstile.Claim

open Thread

variable {Q ρ κ : Type}

/-! ### One check -/

/-- What is left of a check that has failed to take its key, with so many rounds to come. -/
def reading (c : Claim) (ttl : Duration) (rounds : Nat) :
    Thread Q ρ (Except Fault (Option String)) :=
  .call (.get c.key) fun
    | .error f => .done (.error f)
    | .ok (some owner) => .done (.ok (if owner = c.job.id then none else some owner))
    | .ok none => (c.checkGo ttl rounds).run

theorem run_checkGo (c : Claim) (ttl : Duration) (rounds : Nat) :
    (c.checkGo ttl (rounds + 1)).run =
      (.call (.setIfAbsent c.key c.job.id ttl) fun
        | .error f => .done (.error f)
        | .ok true => .done (.ok none)
        | .ok false => c.reading ttl rounds : Thread Q ρ (Except Fault (Option String))) := by
  refine congrArg (Thread.call _) (funext fun r => ?_)
  rcases r with f | _ | _
  · rfl
  · refine congrArg (Thread.call _) (funext fun r => ?_)
    rcases r with f | _ | owner
    · rfl
    · rfl
    · rfl
  · rfl

/-- The calls of a check that has found its key taken and then free again in every round so far, the
newest first. -/
inductive Missed (c : Claim) (ttl : Duration) (who : κ) : Nat → List (Made κ) → Prop
  | start : Missed c ttl who 2 []
  | round {rounds : Nat} {calls : List (Made κ)} (t t' : Instant)
      (h : Missed c ttl who (rounds + 1) calls) :
      Missed c ttl who rounds (⟨t', who, .get c.key, .ok none⟩ ::
        ⟨t, who, .setIfAbsent c.key c.job.id ttl, .ok false⟩ :: calls)

/-- What a check has become after its own calls. -/
inductive Stage (c : Claim) (ttl : Duration) (who : κ) :
    List (Made κ) → Thread Q ρ (Except Fault (Option String)) → Prop
  | claiming {rounds : Nat} {calls : List (Made κ)} (h : Missed c ttl who rounds calls) :
      Stage c ttl who calls (c.checkGo ttl rounds).run
  | reading {rounds : Nat} {calls : List (Made κ)} (t : Instant)
      (h : Missed c ttl who (rounds + 1) calls) :
      Stage c ttl who (⟨t, who, .setIfAbsent c.key c.job.id ttl, .ok false⟩ :: calls)
        (c.reading ttl rounds)
  | claimed {rounds : Nat} {calls : List (Made κ)} (t : Instant)
      (h : Missed c ttl who (rounds + 1) calls) :
      Stage c ttl who (⟨t, who, .setIfAbsent c.key c.job.id ttl, .ok true⟩ :: calls)
        (.done (.ok none))
  | told {calls : List (Made κ)} (t : Instant) (owner : String) (h : calls.length ≤ 3) :
      Stage c ttl who (⟨t, who, .get c.key, .ok (some owner)⟩ :: calls)
        (.done (.ok (if owner = c.job.id then none else some owner)))
  | failed {calls : List (Made κ)} (f : Fault) (h : calls.length ≤ 4) :
      Stage c ttl who calls (.done (.error f))

variable {c : Claim} {ttl : Duration} {who : κ} {calls : List (Made κ)}

theorem Missed.length_calls {rounds : Nat} (h : Missed c ttl who rounds calls) :
    calls.length + 2 * rounds = 4 := by
  induction h with
  | start => rfl
  | round t t' h ih =>
    simp only [List.length_cons]
    omega

theorem Stage.call {sc : StoreCall} {next : Except Fault sc.Answer → Thread Q ρ _}
    (h : Stage c ttl who calls (.call sc next)) (t : Instant) (r : Except Fault sc.Answer) :
    Stage c ttl who (⟨t, who, sc, r⟩ :: calls) (next r) := by
  generalize hx : Thread.call sc next = x at h
  cases h with
  | @claiming rounds _ h =>
    have hlength := h.length_calls
    cases rounds with
    | zero => cases hx
    | succ rounds =>
      rw [run_checkGo] at hx
      cases hx
      rcases r with f | _ | _
      · exact .failed f (by simp only [List.length_cons]; omega)
      · exact .reading t h
      · exact .claimed t h
  | @reading rounds _ t' h =>
    have hlength := h.length_calls
    cases hx
    rcases r with f | _ | owner
    · exact .failed f (by simp only [List.length_cons]; omega)
    · exact .claiming (h.round t' t)
    · exact .told t owner (by simp only [List.length_cons]; omega)
  | claimed => cases hx
  | told => cases hx
  | failed => cases hx

theorem Stage.done_or_call {x : Thread Q ρ (Except Fault (Option String))}
    (h : Stage c ttl who calls x) :
    calls.length ≤ 4 ∧ ((∃ r, x = .done r) ∨ ∃ sc next, x = .call sc next) := by
  cases h with
  | @claiming rounds _ h =>
    have hlength := h.length_calls
    refine ⟨by omega, ?_⟩
    cases rounds with
    | zero => exact Or.inl ⟨_, rfl⟩
    | succ rounds => exact Or.inr ⟨_, _, run_checkGo c ttl rounds⟩
  | reading t h =>
    have hlength := h.length_calls
    exact ⟨by simp only [List.length_cons]; omega, Or.inr ⟨_, _, rfl⟩⟩
  | claimed t h =>
    have hlength := h.length_calls
    exact ⟨by simp only [List.length_cons]; omega, Or.inl ⟨_, rfl⟩⟩
  | told t owner h => exact ⟨by simp only [List.length_cons]; omega, Or.inl ⟨_, rfl⟩⟩
  | failed f h => exact ⟨h, Or.inl ⟨_, rfl⟩⟩

/-- How a check comes to its answer. -/
theorem Stage.cases_done {answer : Option String}
    (h : Stage c ttl who calls
      (.done (.ok answer) : Thread Q ρ (Except Fault (Option String)))) :
    (answer = none ∧ Missed c ttl who 0 calls) ∨
      (answer = none ∧ ∃ t, ⟨t, who, .setIfAbsent c.key c.job.id ttl, .ok true⟩ ∈ calls) ∨
      ∃ t owner, ⟨t, who, .get c.key, .ok (some owner)⟩ ∈ calls ∧
        answer = if owner = c.job.id then none else some owner := by
  generalize hx : (Thread.done (.ok answer) : Thread Q ρ (Except Fault (Option String))) = x at h
  cases h with
  | @claiming rounds _ h =>
    cases rounds with
    | zero =>
      have hnone : (Thread.done (.ok answer) : Thread Q ρ (Except Fault (Option String))) =
          .done (.ok none) := hx
      cases hnone
      exact Or.inl ⟨rfl, h⟩
    | succ rounds => cases hx.trans (run_checkGo c ttl rounds)
  | reading => cases hx
  | claimed t h =>
    cases hx
    exact Or.inr (Or.inl ⟨rfl, t, List.mem_cons_self⟩)
  | told t owner h =>
    cases hx
    exact Or.inr (Or.inr ⟨t, owner, List.mem_cons_self, rfl⟩)
  | failed => cases hx

/-! ### Checks in turns -/

/-- The checks of one key by jobs that each have their own id. -/
def checks (claim : κ → Claim) (ttl : κ → Duration) (who : κ) :
    Thread Q ρ (Except Fault (Option String)) :=
  ((claim who).check (ttl who)).run

variable {claim : κ → Claim} {ttl : κ → Duration} {key : String} {starts : Machine → Prop}
  {elsewhere : Machine → Machine → Prop} {log : List (Made κ)}
  {threads : κ → Thread Q ρ (Except Fault (Option String))} {s : Machine} {who : κ}

section

variable [DecidableEq κ]

theorem stage_of_checks (h : Interleaved (checks claim ttl) starts elsewhere log threads s)
    (who : κ) : Stage (claim who) (ttl who) who (callsOf who log) (threads who) := by
  have hnone {calls : List (Made κ)} {who : κ} {x : Thread Q ρ (Except Fault (Option String))}
      (hs : Stage (claim who) (ttl who) who calls x) :
      (∃ r, x = .done r) ∨ ∃ sc next, x = .call sc next := hs.done_or_call.2
  have hinit (who : κ) : Stage (claim who) (ttl who) who [] (checks claim ttl who : Thread Q ρ _) := by
    unfold checks check
    exact .claiming .start
  refine h.own hinit (fun who calls c next hs t r => hs.call t r) ?_ ?_ who
  · intro who calls effect next hs
    rcases hnone hs with ⟨r, hx⟩ | ⟨sc, next', hx⟩ <;> cases hx
  · intro who calls q next hs
    rcases hnone hs with ⟨r, hx⟩ | ⟨sc, next', hx⟩ <;> cases hx

theorem quiet_of_checks (h : Interleaved (checks claim ttl) starts elsewhere log threads s)
    (hstarts : ∀ s, starts s → s.Quiet) (helsewhere : ∀ s s', elsewhere s s' → s.Quiet → s'.Quiet) :
    s.Quiet := by
  induction h with
  | start hs => exact hstarts _ hs
  | call who hr hw ih => exact (Machine.callStore_eq ih _).2.2
  | step who hr hw ih =>
    have hstage := stage_of_checks hr who
    rw [hw] at hstage
    rcases hstage.done_or_call.2 with ⟨r, hx⟩ | ⟨sc, next, hx⟩ <;> cases hx
  | answer who r hr hw ih => exact ih
  | elsewhere hr he ih => exact helsewhere _ _ he ih

end

/-! ### One owner -/

/-- Every record that a check has made is still in force. -/
def Lasting (claim : κ → Claim) (ttl : κ → Duration) (log : List (Made κ)) (now : Instant) : Prop :=
  ∀ t who, ⟨t, who, .setIfAbsent (claim who).key (claim who).job.id (ttl who), .ok true⟩ ∈ log →
    ∀ d, t.deadline? (ttl who) = some d → now < d

/-- Nobody has begun, or somebody has made the record and nobody else will. -/
inductive Settled (claim : κ → Claim) (ttl : κ → Duration) (key : String) :
    List (Made κ) → (κ → Thread Q ρ (Except Fault (Option String))) → Machine → Prop
  | untouched {s : Machine} (hf : s.store.live? s.clock key = none) :
      Settled claim ttl key [] (checks claim ttl) s
  | owned {log : List (Made κ)} {threads : κ → Thread Q ρ (Except Fault (Option String))}
      {s : Machine} (owner : κ) (t : Instant)
      (hmade : ⟨t, owner, .setIfAbsent (claim owner).key (claim owner).job.id (ttl owner),
        .ok true⟩ ∈ log)
      (hl : s.store.live? s.clock key =
        some (Slot.ofToken (claim owner).job.id (t.deadline? (ttl owner))))
      (hdone : threads owner = .done (.ok none))
      (hothers : ∀ who, who ≠ owner → threads who = checks claim ttl who ∨
        threads who = (claim who).reading (ttl who) 1 ∨
        threads who = .done (.ok (some (claim owner).job.id))) :
      Settled claim ttl key log threads s

namespace Settled

theorem later {s' : Machine} (h : Settled claim ttl key log threads s) (he : s.Elsewhere key s')
    (hlasting : Lasting claim ttl log s'.clock) : Settled claim ttl key log threads s' := by
  have hlive : s'.store.live? s'.clock key =
      (s.store.live? s.clock key).filter fun slot => !slot.isExpired s'.clock := by
    rw [he.live _ (le_refl _), MemoryStore.live?_later he.clock]
  cases h with
  | untouched hf =>
    rw [hf] at hlive
    exact .untouched hlive
  | owned owner t hmade hl hdone hothers =>
    have halive : (Slot.ofToken (claim owner).job.id (t.deadline? (ttl owner))).isExpired s'.clock =
        false := MemoryStore.isExpired_ofToken.mpr (hlasting t owner hmade)
    refine .owned owner t hmade ?_ hdone hothers
    rw [hlive, hl, Option.filter_some, halive]
    rfl

variable [DecidableEq κ]

/-- The first call takes the key. -/
theorem first {sc : StoreCall} {next : Except Fault sc.Answer → Thread Q ρ _}
    (hf : s.store.live? s.clock key = none) (hkey : ∀ who, (claim who).key = key) (hq : s.Quiet)
    (hlasting : Lasting claim ttl [⟨s.clock, who, sc, (s.callStore sc).1⟩] s.clock)
    (hw : checks claim ttl who = .call sc next) :
    Settled claim ttl key [⟨s.clock, who, sc, (s.callStore sc).1⟩]
      (Function.update (checks claim ttl) who (next (s.callStore sc).1)) (s.callStore sc).2 := by
  have hcheck := (run_checkGo (claim who) (ttl who) 1).symm.trans hw
  cases hcheck
  obtain ⟨s', he, hstore, _, hobserved⟩ := Machine.callStore_spec hq
    (.setIfAbsent (claim who).key (claim who).job.id (ttl who))
  rcases s.store.call_setIfAbsent s.clock (claim who).key (claim who).job.id (ttl who) with
    ⟨_, hc⟩ | ⟨slot, hl, _⟩
  · rw [hc] at he hstore
    rw [he] at hlasting ⊢
    have halive : (Slot.ofToken (claim who).job.id (s.clock.deadline? (ttl who))).isExpired s.clock =
        false := MemoryStore.isExpired_ofToken.mpr (hlasting s.clock who List.mem_cons_self)
    refine .owned who s.clock List.mem_cons_self ?_ (Function.update_self ..) ?_
    · rw [hobserved.clock, hstore, hkey who, MemoryStore.live?_insert, if_pos rfl, halive]
      rfl
    · intro other ho
      exact Or.inl (Function.update_of_ne ho ..)
  · rw [hkey who, hf] at hl
    cases hl

theorem call {sc : StoreCall} {next : Except Fault sc.Answer → Thread Q ρ _}
    (h : Settled claim ttl key log threads s) (hkey : ∀ who, (claim who).key = key)
    (hids : Function.Injective fun who => (claim who).job.id) (hq : s.Quiet)
    (hlasting : Lasting claim ttl (⟨s.clock, who, sc, (s.callStore sc).1⟩ :: log) s.clock)
    (hw : threads who = .call sc next) :
    Settled claim ttl key (⟨s.clock, who, sc, (s.callStore sc).1⟩ :: log)
      (Function.update threads who (next (s.callStore sc).1)) (s.callStore sc).2 := by
  cases h with
  | untouched hf => exact first hf hkey hq hlasting hw
  | owned owner t hmade hl hdone hothers =>
    have hne : who ≠ owner := by
      rintro rfl
      rw [hdone] at hw
      cases hw
    obtain ⟨s', he, hstore, _, hobserved⟩ := Machine.callStore_spec hq sc
    -- whatever is called, the record stays, and the caller goes on as others do
    have hkept (hs : (s.store.call s.clock sc).2 = s.store)
        (hx : next (s.callStore sc).1 = checks claim ttl who ∨
          next (s.callStore sc).1 = (claim who).reading (ttl who) 1 ∨
          next (s.callStore sc).1 = .done (.ok (some (claim owner).job.id))) :
        Settled claim ttl key (⟨s.clock, who, sc, (s.callStore sc).1⟩ :: log)
          (Function.update threads who (next (s.callStore sc).1)) (s.callStore sc).2 := by
      refine .owned owner t (List.mem_cons_of_mem _ hmade) ?_ ?_ ?_
      · rw [he, hobserved.clock, hstore, hs, hl]
      · rw [Function.update_of_ne hne.symm, hdone]
      · intro other ho
        by_cases how : other = who
        · subst how
          rw [Function.update_self]
          exact hx
        · rw [Function.update_of_ne how]
          exact hothers other ho
    rcases hothers who hne with hcheck | hread | hend
    · have hcall := (run_checkGo (claim who) (ttl who) 1).symm.trans (hcheck.symm.trans hw)
      cases hcall
      rcases s.store.call_setIfAbsent s.clock (claim who).key (claim who).job.id (ttl who) with
        ⟨hf, _⟩ | ⟨slot, _, hc⟩
      · rw [hkey who, hl] at hf
        cases hf
      · refine hkept (congrArg Prod.snd hc) (Or.inr (Or.inl ?_))
        rw [he, hc]
    · have hcall := hread.symm.trans hw
      cases hcall
      rcases s.store.call_get s.clock (claim who).key with
        ⟨hf, _⟩ | ⟨token, d, hl', hc⟩ | ⟨members, d, hl', _⟩
      · rw [hkey who, hl] at hf
        cases hf
      · rw [hkey who, hl] at hl'
        cases hl'
        refine hkept (congrArg Prod.snd hc) (Or.inr (Or.inr ?_))
        rw [he, hc]
        exact congrArg (fun r => Thread.done (Except.ok r)) (if_neg fun hid => hne (hids hid.symm))
      · rw [hkey who, hl] at hl'
        cases hl'
    · rw [hend] at hw
      cases hw

end Settled

theorem Settled.one_owner (h : Settled claim ttl key log threads s) [Nonempty κ]
    (hdone : ∀ who, ∃ r, threads who = .done r) :
    ∃ owner, threads owner = .done (.ok none) ∧
      ∀ who, who ≠ owner → threads who = .done (.ok (some (claim owner).job.id)) := by
  cases h with
  | untouched =>
    obtain ⟨r, hr⟩ := hdone (Classical.arbitrary κ)
    cases (run_checkGo _ _ 1).symm.trans hr
  | owned owner t _ _ howner hothers =>
    refine ⟨owner, howner, fun who hne => ?_⟩
    obtain ⟨r, hr⟩ := hdone who
    rcases hothers who hne with hx | hx | hx
    · cases (run_checkGo _ _ 1).symm.trans (hx.symm.trans hr)
    · cases hx.symm.trans hr
    · exact hx

section

variable [DecidableEq κ]

theorem settled_of_checks (h : Interleaved (checks claim ttl) starts elsewhere log threads s)
    (hkey : ∀ who, (claim who).key = key) (hids : Function.Injective fun who => (claim who).job.id)
    (hstarts : ∀ s, starts s → s.Quiet ∧ s.store.live? s.clock key = none)
    (helsewhere : ∀ s s', elsewhere s s' → s.Elsewhere key s')
    (hlasting : Lasting claim ttl log s.clock) : Settled claim ttl key log threads s := by
  have hquiet {log : List (Made κ)} {threads : κ → Thread Q ρ _} {s : Machine}
      (hr : Interleaved (checks claim ttl) starts elsewhere log threads s) : s.Quiet :=
    quiet_of_checks hr (fun s hs => (hstarts s hs).1) fun s s' he => (helsewhere s s' he).quiet
  induction h with
  | start hs => exact .untouched (hstarts _ hs).2
  | @call log threads s who c next hr hw ih =>
    have hclock : (s.callStore c).2.clock = s.clock := (Machine.observed_callStore s c).clock
    rw [hclock] at hlasting
    have hbefore : Lasting claim ttl log s.clock := fun t other hmem =>
      hlasting t other (List.mem_cons_of_mem _ hmem)
    exact (ih hbefore).call hkey hids (hquiet hr) hlasting hw
  | step who hr hw ih =>
    have hstage := stage_of_checks hr who
    rw [hw] at hstage
    rcases hstage.done_or_call.2 with ⟨r, hx⟩ | ⟨sc, next, hx⟩ <;> cases hx
  | answer who r hr hw ih =>
    have hstage := stage_of_checks hr who
    rw [hw] at hstage
    rcases hstage.done_or_call.2 with ⟨r, hx⟩ | ⟨sc, next, hx⟩ <;> cases hx
  | @elsewhere log threads s s' hr he ih =>
    have hthen := helsewhere s s' he
    have hbefore : Lasting claim ttl log s.clock := fun t other hmem d hd =>
      lt_of_le_of_lt hthen.clock (hlasting t other hmem d hd)
    exact (ih hbefore).later hthen hlasting

/-- Every call of a check was made on a quiet machine, which gave its answer. -/
theorem moment_of_checks (h : Interleaved (checks claim ttl) starts elsewhere log threads s)
    (hstarts : ∀ s, starts s → s.Quiet) (helsewhere : ∀ s s', elsewhere s s' → s.Quiet → s'.Quiet)
    {t : Instant} {who : κ} {c : StoreCall} {r : Except Fault c.Answer}
    (hmem : ⟨t, who, c, r⟩ ∈ callsOf who log) :
    ∃ sₘ, MadeOn (checks claim ttl) starts elsewhere log threads s ⟨t, who, c, r⟩ sₘ ∧ sₘ.Quiet ∧
      t = sₘ.clock ∧ (sₘ.callStore c).1 = r := by
  obtain ⟨sₘ, hmade⟩ := h.madeOn (mem_callsOf.mp hmem).1
  obtain ⟨later, earlier, before, next, hlog, hbefore, hcall, ht, ha, hafter⟩ := hmade
  exact ⟨sₘ, ⟨later, earlier, before, next, hlog, hbefore, hcall, ht, ha, hafter⟩,
    quiet_of_checks hbefore hstarts helsewhere, ht, ha.symm⟩

/-- The owner that a check names was read by it, and is not its own job. -/
theorem holds_of_named (h : Interleaved (checks claim ttl) starts elsewhere log threads s)
    (hstarts : ∀ s, starts s → s.Quiet) (helsewhere : ∀ s s', elsewhere s s' → s.Quiet → s'.Quiet)
    {who : κ} {owner : String} (hend : threads who = .done (.ok (some owner))) :
    owner ≠ (claim who).job.id ∧
      ∃ t sₘ, MadeOn (checks claim ttl) starts elsewhere log threads s
        ⟨t, who, .get (claim who).key, .ok (some owner)⟩ sₘ ∧
        sₘ.store.holds t (claim who).key owner = true := by
  have hstage := stage_of_checks h who
  rw [hend] at hstage
  rcases hstage.cases_done with ⟨hnone, _⟩ | ⟨hnone, _⟩ | ⟨t, owner', hmem, howner⟩
  · cases hnone
  · cases hnone
  · have hne : owner' ≠ (claim who).job.id := fun hid => by simp [hid] at howner
    rw [if_neg hne] at howner
    cases howner
    obtain ⟨sₘ, hmade, hq, rfl, ha⟩ := moment_of_checks h hstarts helsewhere hmem
    exact ⟨hne, _, sₘ, hmade, Machine.holds_of_get hq ha⟩

/-- A check that names nobody made the record, read its own job in it, or missed it in each round. -/
theorem cases_of_unnamed (h : Interleaved (checks claim ttl) starts elsewhere log threads s)
    (hstarts : ∀ s, starts s → s.Quiet) (helsewhere : ∀ s s', elsewhere s s' → s.Quiet → s'.Quiet)
    {who : κ} (hend : threads who = .done (.ok none)) :
    let made := MadeOn (checks claim ttl) starts elsewhere log threads s
    let key := (claim who).key
    (∃ t sₘ, made ⟨t, who, .setIfAbsent key (claim who).job.id (ttl who), .ok true⟩ sₘ ∧
      sₘ.store.live? t key = none ∧
      (sₘ.callStore (.setIfAbsent key (claim who).job.id (ttl who))).2.store =
        Keyed.insert sₘ.store key (Slot.ofToken (claim who).job.id (t.deadline? (ttl who)))) ∨
    (∃ t sₘ, made ⟨t, who, .get key, .ok (some (claim who).job.id)⟩ sₘ ∧
      sₘ.store.holds t key (claim who).job.id = true) ∨
    (Missed (claim who) (ttl who) who 0 (callsOf who log) ∧
      ∀ t, ⟨t, who, .get key, .ok none⟩ ∈ callsOf who log →
        ∃ sₘ, made ⟨t, who, .get key, .ok none⟩ sₘ ∧ sₘ.store.live? t key = none) := by
  have hstage := stage_of_checks h who
  rw [hend] at hstage
  rcases hstage.cases_done with ⟨_, hmissed⟩ | ⟨_, t, hmem⟩ | ⟨t, owner, hmem, howner⟩
  · refine Or.inr (Or.inr ⟨hmissed, fun t hmem => ?_⟩)
    obtain ⟨sₘ, hmade, hq, rfl, ha⟩ := moment_of_checks h hstarts helsewhere hmem
    exact ⟨sₘ, hmade, Machine.free_of_get hq ha⟩
  · obtain ⟨sₘ, hmade, hq, rfl, ha⟩ := moment_of_checks h hstarts helsewhere hmem
    exact Or.inl ⟨_, sₘ, hmade, Machine.insert_of_setIfAbsent hq ha⟩
  · have hown : owner = (claim who).job.id := by
      by_contra hne
      rw [if_neg hne] at howner
      cases howner
    rw [hown] at hmem
    obtain ⟨sₘ, hmade, hq, rfl, ha⟩ := moment_of_checks h hstarts helsewhere hmem
    exact Or.inr (Or.inl ⟨_, sₘ, hmade, Machine.holds_of_get hq ha⟩)

/-- What checks of one key answer, whatever is done to the key between their calls. A check that names
an owner read that owner's id, and it is not its own; one that names nobody made the record, read its own
id, or found the key taken and then free in each of its rounds. A check ends after at most four calls. As
long as nobody deletes the record and it does not expire, one check names nobody and all others name its
job. -/
theorem agreement (h : Interleaved (checks claim ttl) starts elsewhere log threads s)
    (hkey : ∀ who, (claim who).key = key) (hids : Function.Injective fun who => (claim who).job.id)
    (hstarts : ∀ s, starts s → s.Quiet) (helsewhere : ∀ s s', elsewhere s s' → s.Quiet → s'.Quiet) :
    let made := MadeOn (checks claim ttl) starts elsewhere log threads s
    (∀ who owner, threads who = .done (.ok (some owner)) → owner ≠ (claim who).job.id ∧
      ∃ t sₘ, made ⟨t, who, .get key, .ok (some owner)⟩ sₘ ∧ sₘ.store.holds t key owner = true) ∧
    (∀ who, threads who = .done (.ok none) →
      (∃ t sₘ, made ⟨t, who, .setIfAbsent key (claim who).job.id (ttl who), .ok true⟩ sₘ ∧
        sₘ.store.live? t key = none ∧
        (sₘ.callStore (.setIfAbsent key (claim who).job.id (ttl who))).2.store =
          Keyed.insert sₘ.store key
            (Slot.ofToken (claim who).job.id (t.deadline? (ttl who)))) ∨
      (∃ t sₘ, made ⟨t, who, .get key, .ok (some (claim who).job.id)⟩ sₘ ∧
        sₘ.store.holds t key (claim who).job.id = true) ∨
      (Missed (claim who) (ttl who) who 0 (callsOf who log) ∧
        ∀ t, ⟨t, who, .get key, .ok none⟩ ∈ callsOf who log →
          ∃ sₘ, made ⟨t, who, .get key, .ok none⟩ sₘ ∧ sₘ.store.live? t key = none)) ∧
    (∀ who, (callsOf who log).length ≤ 4 ∧
      ((∃ r, threads who = .done r) ∨ ∃ c next, threads who = .call c next)) ∧
    ((∀ s, starts s → s.store.live? s.clock key = none) →
      (∀ s s', elsewhere s s' → s.Elsewhere key s') → Lasting claim ttl log s.clock → Nonempty κ →
      (∀ who, ∃ r, threads who = .done r) →
      ∃ owner, threads owner = .done (.ok none) ∧
        ∀ who, who ≠ owner → threads who = .done (.ok (some (claim owner).job.id))) := by
  intro made
  refine ⟨fun who owner hend => ?_, fun who hend => ?_,
    fun who => (stage_of_checks h who).done_or_call, ?_⟩
  · rw [← hkey who]
    exact holds_of_named h hstarts helsewhere hend
  · rw [← hkey who]
    exact cases_of_unnamed h hstarts helsewhere hend
  · intro hfree hothers hlasting _ hdone
    have hsettled := settled_of_checks h hkey hids (fun s hs => ⟨hstarts s hs, hfree s hs⟩) hothers
      hlasting
    exact hsettled.one_owner hdone

end

/-- Two jobs check one key in turns, and time passes before the second one reads it. -/
theorem agreement_of_two :
    let claim (who : Bool) : Claim :=
      { job := Job.create "k" [] (if who then "a" else "b"), policy := DedupPolicy.default, key := "d" }
    ∃ log threads s,
      Interleaved (checks claim fun _ => ⟨10⟩ : Bool → Thread Empty Empty _)
        (fun s => s = Machine.ofClock Instant.epoch) (Machine.Elsewhere "d") log threads s ∧
      ∃ owner, threads owner = .done (.ok none) ∧
        ∀ who, who ≠ owner → threads who = .done (.ok (some (claim owner).job.id)) := by
  intro claim
  have h0 : Interleaved (checks claim fun _ => ⟨10⟩ : Bool → Thread Empty Empty _)
      (fun s => s = Machine.ofClock Instant.epoch) (Machine.Elsewhere "d") [] _ _ := .start rfl
  have h1 := h0.called true (run_checkGo _ _ 1)
    (show Machine.callStore _ (.setIfAbsent "d" "a" ⟨10⟩) = (.ok true, _) from rfl)
  have h2 := h1.called false (run_checkGo _ _ 1)
    (show Machine.callStore _ (.setIfAbsent "d" "b" ⟨10⟩) = (.ok false, _) from rfl)
  have h3 := h2.elsewhere (Machine.elsewhere_clock ⟨0, 3⟩ (by decide))
  have h4 := h3.called false rfl
    (show Machine.callStore _ (.get "d") = (.ok (some "a"), _) from rfl)
  refine ⟨_, _, _, h4, ?_⟩
  have hids : Function.Injective fun who => (claim who).job.id :=
    Bool.injective_iff.mpr (by decide)
  have hall := agreement h4 (fun _ => rfl) hids (fun s hs => hs ▸ fun _ => rfl)
    (fun s s' he => he.quiet)
  refine hall.2.2.2 (fun s hs => hs ▸ rfl) (fun _ _ he => he) ?_ ⟨true⟩ ?_
  · intro t who hmem d hd
    simp only [List.mem_cons, List.not_mem_nil, or_false] at hmem
    rcases hmem with hread | hfailed | hmade
    · cases hread
    · cases hfailed
    · cases hmade
      cases hd
      decide
  · intro who
    cases who
    · exact ⟨_, rfl⟩
    · exact ⟨_, rfl⟩

end Turnstile.Claim
