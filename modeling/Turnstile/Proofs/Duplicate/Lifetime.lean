import Turnstile.Proofs.Duplicate.Checks
import Turnstile.Proofs.Store.Expiry
import Turnstile.Settings.Basic

/-!
# How long the record of a scheduled job lasts

A job that is scheduled for later keeps its record until it is due and for the base lifetime after that.
Three kinds of time meet in this sum: the time left until the job is due, a lifetime that has a longest
value, and instants that have a last one. It is exact wherever it stays below the longest lifetime,
also when it leads past the last instant.
-/

namespace Turnstile

/-! ### Sums and deadlines -/

theorem Duration.add?_eq_none_iff {a b : Duration} :
    a.add? b = none ↔ Duration.max.nanos < a.nanos + b.nanos := by
  unfold Duration.add?
  simp

theorem Duration.nanos_of_add? {a b e : Duration} (h : a.add? b = some e) :
    e.nanos = a.nanos + b.nanos := by
  unfold Duration.add? at h
  split at h
  · cases h
    rfl
  · cases h

namespace Claim

open Machine

variable {c : Claim} {now due : Instant} {s : Machine} {e : Duration}

/-! ### The lifetime of a scheduled job -/

theorem applies_of_includingScheduled (henabled : c.policy.isEnabled = true)
    (hincluding : c.policy.includingScheduled = true) (now : Instant) : c.applies now = true := by
  simp [applies, henabled, hincluding]

theorem expiry?_of_scheduled (hincluding : c.policy.includingScheduled = true)
    (hdue : c.job.scheduledAt = some due) (now : Instant) :
    c.expiry? now = (now.timeLeft due).add? c.policy.ttl := by
  simp [expiry?, hincluding, hdue]

/-- The deadline of a record is the due time and the base lifetime, if there is such an instant. -/
theorem deadline?_of_expiry? (hincluding : c.policy.includingScheduled = true)
    (hdue : c.job.scheduledAt = some due) (hnow : now.Representable) (hplain : due.Plain)
    (hlater : now < due) (hloss : ¬ now.LosesExcess due) (he : c.expiry? now = some e) :
    now.deadline? e = Instant.ofNanos? (due.toNanos + c.policy.ttl.nanos) := by
  rw [expiry?_of_scheduled hincluding hdue] at he
  exact Instant.deadline?_of_due hnow hplain hlater hloss (Duration.nanos_of_add? he)

/-- Marking a job whose lifetime overflows is a panic, and nothing is claimed. -/
theorem exec_mark_of_overflow {ps : DedupPolicies} {job : Job}
    (happlies : (Claim.of job (ps.forKind job.kind)).applies s.clock = true)
    (hnone : (Claim.of job (ps.forKind job.kind)).expiry? s.clock = none) :
    s.exec (ps.mark job).run = (.error .panic, s) := by
  rw [DedupPolicies.exec_mark, if_pos happlies, hnone]

theorem live?_of_deadline {n : Int} (hn : Instant.first.toNanos ≤ n)
    (hd : s.clock.deadline? e = Instant.ofNanos? n) (hq : s.Quiet)
    (hfree : s.store.live? s.clock c.key = none) :
    ∃ s', s.exec (c.check e).run = (.ok none, s') ∧ ∀ t : Instant, t.Representable →
      s'.store.live? t c.key =
        if t.count < n then some (Slot.ofToken c.job.id (s.clock.deadline? e)) else none := by
  obtain ⟨s', hcheck, _, _, hstore⟩ := exec_check_free e hq hfree
  refine ⟨s', hcheck, fun t ht => ?_⟩
  have hlive : (Slot.ofToken c.job.id (Instant.ofNanos? n)).isExpired t = false ↔ t.count < n :=
    Slot.isExpired_ofNanos? _ hn ht
  rw [hstore, MemoryStore.live?_insert, if_pos rfl, hd]
  by_cases hlt : t.count < n
  · rw [if_pos hlt, hlive.mpr hlt]
    rfl
  · rw [if_neg hlt]
    apply if_pos
    simpa [hlt] using hlive

/-- The lifetime of a scheduled job overflows just if the time until it is due and the base lifetime
are longer together than any duration. If it does not, the record is live before the sum of the due time
and the base lifetime, and at no time after that. -/
theorem live_until_due_and_ttl (henabled : c.policy.isEnabled = true)
    (hincluding : c.policy.includingScheduled = true) (hdue : c.job.scheduledAt = some due)
    (hlater : s.clock < due) (hnow : s.clock.Representable) (hplain : due.Plain)
    (hloss : ¬ s.clock.LosesExcess due) (hq : s.Quiet)
    (hfree : s.store.live? s.clock c.key = none) :
    c.applies s.clock = true ∧
      (c.expiry? s.clock = none ↔
        Duration.max.nanos < (s.clock.timeLeft due).nanos + c.policy.ttl.nanos) ∧
      ∀ e, c.expiry? s.clock = some e →
        ∃ s', s.exec (c.check e).run = (.ok none, s') ∧ ∀ t : Instant, t.Representable →
          s'.store.live? t c.key =
            if t.count < due.toNanos + c.policy.ttl.nanos then
              some (Slot.ofToken c.job.id (s.clock.deadline? e))
            else none := by
  refine ⟨applies_of_includingScheduled henabled hincluding _, ?_, fun e he => ?_⟩
  · rw [expiry?_of_scheduled hincluding hdue]
    exact Duration.add?_eq_none_iff
  · have hfirst : Instant.first.toNanos ≤ due.toNanos + c.policy.ttl.nanos := by
      obtain ⟨hf, _, _⟩ := hplain
      simp only [Instant.first, Instant.toNanos]
      omega
    exact live?_of_deadline hfirst
      (deadline?_of_expiry? hincluding hdue hnow hplain hlater hloss he) hq hfree

/-- A job that is due at 03:00:00 keeps its record for six hours more. -/
theorem live_until_due_and_ttl_of_three_hours :
    let c : Claim :=
      { job := { Job.create "k" [] "a" with scheduledAt := some ⟨10800, 0⟩ }
        policy := DedupPolicy.default.withScheduled, key := "d" }
    ∃ e s', c.expiry? Instant.epoch = some e ∧
      (Machine.ofClock Instant.epoch).exec (c.check e).run = (.ok none, s') ∧
      s'.store.live? ⟨32399, 0⟩ "d" = some (Slot.ofToken "a" (some ⟨32400, 0⟩)) ∧
      s'.store.live? ⟨32400, 0⟩ "d" = none := by
  intro c
  obtain ⟨_, _, hclaims⟩ := live_until_due_and_ttl (c := c) (s := Machine.ofClock Instant.epoch)
    rfl rfl rfl (by decide) (by decide) (by decide) (by decide) (fun _ => rfl) rfl
  obtain ⟨s', hcheck, hlive⟩ := hclaims ⟨32400000000000⟩ (by decide)
  exact ⟨_, s', by decide, hcheck, hlive ⟨32399, 0⟩ (by decide), hlive ⟨32400, 0⟩ (by decide)⟩

/-- Settings with the longest lifetime pass, and a job that is due in three hours makes it overflow. With
the usual lifetime, the record of a job that comes in the leap second at the end of 2016 and is due ten
seconds after it ends a second early, and that of a job that is due in this leap second ends a second
late. -/
theorem lifetime_overflows :
    let settings : Settings :=
      { Settings.default "production" with
        dedup := { DedupPolicy.default.withScheduled with
          ttl := Duration.ofSeconds 18446744073709551615 } }
    let job (due : Instant) : Job := { Job.create "k" [] "a" with scheduledAt := some due }
    let usual (due : Instant) : Claim := Claim.of (job due) DedupPolicy.default.withScheduled
    let leap : Instant := ⟨1483228799, 1500000000⟩
    (settings.check = .ok () ∧
      (Claim.of (job ⟨10800, 0⟩) settings.dedup).expiry? Instant.epoch = none ∧
      ((Machine.ofClock Instant.epoch).exec
        ((DedupPolicies.ofPolicy settings.dedup).mark (job ⟨10800, 0⟩)).run).1 = .error .panic) ∧
      (∃ e, (usual ⟨1483228810, 0⟩).expiry? leap = some e ∧
        leap.deadline? e = some ⟨1483250409, 0⟩ ∧
        Instant.deadline? ⟨1483228810, 0⟩ DedupPolicy.defaultTtl = some ⟨1483250410, 0⟩) ∧
      ∃ e, (usual leap).expiry? ⟨1483228790, 0⟩ = some e ∧
        Instant.deadline? ⟨1483228790, 0⟩ e = some ⟨1483250400, 500000000⟩ ∧
        leap.deadline? DedupPolicy.defaultTtl = some ⟨1483250399, 500000000⟩ := by
  intro settings job usual leap
  have htrouble : settings.trouble? = none := by decide
  have hexpiry : (Claim.of (job ⟨10800, 0⟩) settings.dedup).expiry? Instant.epoch = none := by
    rw [expiry?_of_scheduled rfl rfl]
    decide
  have hmark : (Machine.ofClock Instant.epoch).exec
      ((DedupPolicies.ofPolicy settings.dedup).mark (job ⟨10800, 0⟩)).run = (.error .panic, _) :=
    exec_mark_of_overflow rfl hexpiry
  refine ⟨⟨by rw [Settings.check, htrouble], hexpiry, congrArg Prod.fst hmark⟩, ?_, ?_⟩
  · refine ⟨⟨21609500000000⟩, ?_, by decide, by decide⟩
    rw [expiry?_of_scheduled rfl rfl]
    decide
  · refine ⟨⟨21610500000000⟩, ?_, by decide, by decide⟩
    rw [expiry?_of_scheduled rfl rfl]
    decide

end Claim

end Turnstile
