import Turnstile.Proofs.Duplicate.Records

/-!
# Checks of submitted jobs

On a machine without plans a check finds the key of a job free and claims it, or finds the job that
owns it. So marks and records stay in step, one job after the other.
-/

namespace Turnstile

open Machine

variable {ps : DedupPolicies} {h : List Happening} {s s' : Machine} {job : Job}

namespace Claim

variable {c : Claim}

theorem exec_check_free (ttl : Duration) (hq : s.Quiet) (hf : s.store.live? s.clock c.key = none) :
    ∃ s', s.exec (c.check ttl).run = (.ok none, s') ∧ s'.Quiet ∧ s.Observed s' ∧
      s'.store = Keyed.insert s.store c.key
        (Slot.ofToken c.job.id (s.clock.deadline? ttl)) := by
  obtain ⟨s', he, hs, hq', hobserved⟩ := callStore_spec hq (.setIfAbsent c.key c.job.id ttl)
  rcases s.store.call_setIfAbsent s.clock c.key c.job.id ttl with ⟨_, hcall⟩ | ⟨slot, hl, _⟩
  · rw [hcall] at he hs
    refine ⟨s', ?_, hq', hobserved, hs⟩
    rw [check, checkGo, exec_run_bind, exec_run_callStore, he]
    rfl
  · rw [hf] at hl
    cases hl

theorem exec_check_taken (ttl : Duration) (hq : s.Quiet) {slot : Slot} {owner : String}
    (hl : s.store.live? s.clock c.key = some slot) (hv : slot.value = .text owner) :
    ∃ s', s.exec (c.check ttl).run = (.ok (if owner = c.job.id then none else some owner), s') ∧
      s'.Quiet ∧ s.Observed s' ∧ s'.store = s.store := by
  obtain ⟨s', he, hs, hq', hobserved⟩ := callStore_spec hq (.setIfAbsent c.key c.job.id ttl)
  rcases s.store.call_setIfAbsent s.clock c.key c.job.id ttl with ⟨hf, _⟩ | ⟨_, _, hcall⟩
  · rw [hf] at hl
    cases hl
  · rw [hcall] at he hs
    obtain ⟨s'', he', hs', hq'', hobserved'⟩ := callStore_spec hq' (.get c.key)
    have hget : s'.store.call s'.clock (.get c.key) = (.ok (some owner), s.store) := by
      simp only [MemoryStore.call, MemoryStore.get, MemoryStore.read, hs, hobserved.clock, hl, hv,
        Except.map]
    rw [hget] at he' hs'
    refine ⟨s'', ?_, hq'', hobserved.trans hobserved', hs'⟩
    rw [check, checkGo, exec_run_bind, exec_run_callStore, he]
    change s'.exec (ExceptT.run (callStore (.get c.key) >>= _)) = _
    rw [exec_run_bind, exec_run_callStore, he']
    rfl

/-- A set under the key has no owner, and the check fails. -/
theorem exec_check_set (ttl : Duration) (hq : s.Quiet) {slot : Slot} {members : List (String × Instant)}
    (hl : s.store.live? s.clock c.key = some slot) (hv : slot.value = .set members) :
    ∃ s', s.exec (c.check ttl).run = (.error (Fault.wrongKindOfValue c.key), s') ∧ s'.Quiet ∧
      s.Observed s' ∧ s'.store = s.store := by
  obtain ⟨s', he, hs, hq', hobserved⟩ := callStore_spec hq (.setIfAbsent c.key c.job.id ttl)
  rcases s.store.call_setIfAbsent s.clock c.key c.job.id ttl with ⟨hf, _⟩ | ⟨_, _, hcall⟩
  · rw [hf] at hl
    cases hl
  · rw [hcall] at he hs
    obtain ⟨s'', he', hs', hq'', hobserved'⟩ := callStore_spec hq' (.get c.key)
    have hget : s'.store.call s'.clock (.get c.key) =
        (.error (Fault.wrongKindOfValue c.key), s.store) := by
      simp only [MemoryStore.call, MemoryStore.get, MemoryStore.read, hs, hobserved.clock, hl, hv,
        Except.map]
    rw [hget] at he' hs'
    refine ⟨s'', ?_, hq'', hobserved.trans hobserved', hs'⟩
    rw [check, checkGo, exec_run_bind, exec_run_callStore, he]
    change s'.exec (ExceptT.run (callStore (.get c.key) >>= _)) = _
    rw [exec_run_bind, exec_run_callStore, he']

end Claim

namespace DedupPolicies

theorem exec_markOwned_free (c : Claim) (ttl : Duration) (hq : s.Quiet)
    (hf : s.store.live? s.clock c.key = none) :
    ∃ s', s.exec (markOwned c ttl) = (c.job, s') ∧ s'.Quiet ∧ s.Observed s' ∧
      s'.store = Keyed.insert s.store c.key
        (Slot.ofToken c.job.id (s.clock.deadline? ttl)) := by
  obtain ⟨s', he, hq', hobserved, hs⟩ := Claim.exec_check_free ttl hq hf
  refine ⟨s'.addRecord (.notice (.keyOwned c.job.kind c.job.id)), ?_, hq',
    hobserved.trans ⟨rfl, rfl, rfl⟩, hs⟩
  rw [markOwned, exec_bind, he]
  rfl

theorem exec_markOwned_taken (c : Claim) (ttl : Duration) (hq : s.Quiet) {slot : Slot}
    {owner : String} (hl : s.store.live? s.clock c.key = some slot)
    (hv : slot.value = .text owner) (hne : owner ≠ c.job.id) :
    ∃ s', s.exec (markOwned c ttl) = ({ c.job with duplicateOf := some owner }, s') ∧ s'.Quiet ∧
      s.Observed s' ∧ s'.store = s.store := by
  obtain ⟨s', he, hq', hobserved, hs⟩ := Claim.exec_check_taken ttl hq hl hv
  rw [if_neg hne] at he
  refine ⟨(s'.addRecord (.notice (.duplicateFound c.job.kind c.job.id owner))).addTally
    (.duplicate c.job.kind), ?_, hq', hobserved.trans ⟨rfl, rfl, rfl⟩, hs⟩
  rw [markOwned, exec_bind, he]
  rfl

/-- A job that owns its key already stays as it is. -/
theorem exec_markOwned_own (c : Claim) (ttl : Duration) (hq : s.Quiet) {slot : Slot}
    (hl : s.store.live? s.clock c.key = some slot) (hv : slot.value = .text c.job.id) :
    ∃ s', s.exec (markOwned c ttl) = (c.job, s') ∧ s'.Quiet ∧ s.Observed s' ∧
      s'.store = s.store := by
  obtain ⟨s', he, hq', hobserved, hs⟩ := Claim.exec_check_taken ttl hq hl hv
  rw [if_pos rfl] at he
  refine ⟨s'.addRecord (.notice (.keyOwned c.job.kind c.job.id)), ?_, hq',
    hobserved.trans ⟨rfl, rfl, rfl⟩, hs⟩
  rw [markOwned, exec_bind, he]
  rfl

theorem exec_markOwned_set (c : Claim) (ttl : Duration) (hq : s.Quiet) {slot : Slot}
    {members : List (String × Instant)} (hl : s.store.live? s.clock c.key = some slot)
    (hv : slot.value = .set members) :
    ∃ s', s.exec (markOwned c ttl) = (c.job, s') ∧ s'.Quiet ∧ s.Observed s' ∧
      s'.store = s.store := by
  obtain ⟨s', he, hq', hobserved, hs⟩ := Claim.exec_check_set ttl hq hl hv
  refine ⟨s'.addRecord (.notice (.checkFailed c.job.kind c.job.id (Fault.wrongKindOfValue c.key))), ?_,
    hq', hobserved.trans ⟨rfl, rfl, rfl⟩, hs⟩
  rw [markOwned, exec_bind, he]
  rfl

theorem exec_mark_recorded (hr : ps.Recorded h s.store s.clock) (hq : s.Quiet)
    (hl : ps.Lasts job s.clock) (hd : job.duplicateOf = none) (hf : job.id ∉ Happening.ids h) :
    ∃ marked s', s.exec (ps.mark job).run = (.ok marked, s') ∧ marked.unmarked = job ∧ s'.Quiet ∧
      s.Observed s' ∧ ps.Recorded (h ++ [.left s.clock marked]) s'.store s.clock := by
  have hunmarked : job.unmarked = job := by
    obtain ⟨_, _, _, _, _, _⟩ := job
    cases hd
    rfl
  rw [exec_mark]
  split
  · next ha =>
    obtain ⟨ttl, hx⟩ := Option.isSome_iff_exists.mp (hl ha)
    rw [hx]
    cases hlive : s.store.live? s.clock job.key with
    | none =>
      obtain ⟨s', he, hq', hobserved, hs⟩ :=
        exec_markOwned_free (Claim.of job (ps.forKind job.kind)) ttl hq hlive
      refine ⟨job, s', by simp only [he]; rfl, hunmarked, hq', hobserved, ?_⟩
      rw [hs]
      exact hr.left_owner hf ha hd hx hlive
    | some slot =>
      obtain ⟨o, hblocks, hkey, hv⟩ := hr.blocks_of_live ⟨job.kind, job.args, rfl⟩ hlive
      -- the owner was taken in before, and ids are distinct, so it is another job
      have hne : o.id ≠ job.id := by
        intro hid
        obtain ⟨_, howns, _⟩ := hblocks
        obtain ⟨t, hmem⟩ := howns.left_mem
        exact hf (hid ▸ Happening.mem_ids hmem)
      obtain ⟨s', he, hq', hobserved, hs⟩ :=
        exec_markOwned_taken (Claim.of job (ps.forKind job.kind)) ttl hq hlive hv hne
      refine ⟨{ job with duplicateOf := some o.id }, s', by simp only [he]; rfl, hunmarked, hq',
        hobserved, ?_⟩
      rw [hs]
      refine hr.left_idle hf (fun hown => nomatch hown.2) ?_
      intro i
      constructor
      · rintro ⟨⟩
        exact ⟨ha, o, hblocks, hkey, rfl⟩
      · rintro ⟨_, o', hblocks', hkey', rfl⟩
        obtain ⟨d, hlive'⟩ := hr.live_of_blocks hblocks'
        rw [hkey'] at hlive'
        cases hlive.symm.trans hlive'
        exact congrArg some (StoredValue.text.inj hv).symm
  · next ha =>
    refine ⟨job, s, rfl, hunmarked, hq, .refl s, hr.left_idle hf (fun hown => ha hown.1) ?_⟩
    intro i
    rw [hd]
    exact ⟨nofun, fun hmark => absurd hmark.1 ha⟩

theorem exec_markAll_recorded {jobs : List Job} (hr : ps.Recorded h s.store s.clock) (hq : s.Quiet)
    (hl : ∀ job ∈ jobs, ps.Lasts job s.clock) (hd : ∀ job ∈ jobs, job.duplicateOf = none)
    (hids : (Happening.ids h ++ jobs.map (·.id)).Nodup) :
    ∃ left s', s.exec (ps.markAll jobs).run = (.ok left, s') ∧ left.map Job.unmarked = jobs ∧
      s'.Quiet ∧ s.Observed s' ∧
      ps.Recorded (h ++ left.map (.left s.clock)) s'.store s.clock := by
  induction jobs generalizing h s with
  | nil => exact ⟨[], s, rfl, rfl, hq, .refl s, by rwa [List.map_nil, List.append_nil]⟩
  | cons job rest ih =>
    have hf : job.id ∉ Happening.ids h := by
      intro hmem
      exact (List.nodup_append.mp hids).2.2 _ hmem _ List.mem_cons_self rfl
    obtain ⟨marked, s', he, hjob, hq', hobserved, hr'⟩ :=
      exec_mark_recorded hr hq (hl job List.mem_cons_self) (hd job List.mem_cons_self) hf
    have hid : marked.id = job.id := by rw [← hjob]; rfl
    rw [← hobserved.clock] at hr'
    obtain ⟨left, s'', he', hrest, hq'', hobserved', hr''⟩ := ih hr' hq'
      (fun j hj => by rw [hobserved.clock]; exact hl j (List.mem_cons_of_mem _ hj))
      (fun j hj => hd j (List.mem_cons_of_mem _ hj))
      (by
        rw [Happening.ids_append, List.append_assoc]
        change (Happening.ids h ++ (marked.id :: rest.map (·.id))).Nodup
        rw [hid]
        exact hids)
    rw [hobserved.clock, List.append_assoc] at hr''
    refine ⟨marked :: left, s'', ?_, ?_, hq'', hobserved.trans hobserved', hr''⟩
    · simp only [markAll, exec_run_bind, he, he', exec_run_pure]
    · rw [List.map_cons, hjob, hrest]

end DedupPolicies

/-! ### Submissions -/

namespace LocalTransport

variable {lt : LocalTransport}

theorem spares_markLive (lt : LocalTransport) (id : String) : Always Spares (lt.markLive id) := by
  refine always_markLive ?_ (fun _ _ => Spares.of_eq ⟨rfl, rfl, rfl⟩ rfl rfl) lt
  intro s c hc
  refine Spares.of_callStore fun kind args => ?_
  rw [hc]
  exact IdempotencyKey.of_ne_livenessKey kind args id

theorem exec_pushAll_recorded {jobs : List Job} (hr : ps.Recorded h s.store s.clock)
    (hq : s.Quiet) :
    (s.exec (lt.pushAll jobs)).2.Quiet ∧
      ps.Recorded h (s.exec (lt.pushAll jobs)).2.store s.clock := by
  induction jobs generalizing s with
  | nil => exact ⟨hq, hr⟩
  | cons job rest ih =>
    have hlive := spares_markLive lt job.id s
    have hpushed : ps.Recorded h (s.exec (lt.push job)).2.store (s.exec (lt.push job)).2.clock :=
      hlive.recorded hq hr
    obtain ⟨_, hclock, _⟩ := exec_push lt s job
    obtain ⟨hq', hr'⟩ := ih hpushed (hlive.quiet hq)
    rw [hclock] at hr'
    exact ⟨hq', hr'⟩

end LocalTransport

theorem Submission.exec_submit_recorded (lt : LocalTransport) (sub : Submission)
    (hr : ps.Recorded h s.store s.clock) (hq : s.Quiet)
    (hl : ∀ job ∈ sub.jobs, ps.Lasts job s.clock)
    (hd : ∀ job ∈ sub.jobs, job.duplicateOf = none)
    (hids : (Happening.ids h ++ sub.jobs.map (·.id)).Nodup) :
    ∃ left s', s.exec (sub.submit (lt.toTransport.marking ps)).run =
        (.ok (sub.jobs.map (·.id)), s') ∧
      left.map Job.unmarked = sub.jobs ∧ s'.Quiet ∧ s'.clock = s.clock ∧
      s'.queue = LocalTransport.takeIn s.clock left s.queue ∧
      ps.Recorded (h ++ left.map (.left s.clock)) s'.store s'.clock := by
  obtain ⟨left, s', hmark, hjobs, hq', hobserved, hr'⟩ :=
    DedupPolicies.exec_markAll_recorded hr hq hl hd hids
  obtain ⟨_, _, hmark', _, _, hsubmit⟩ := sub.exec_submit_marking lt hl
  rw [hmark] at hmark'
  cases hmark'
  rw [← hobserved.clock] at hr'
  obtain ⟨hids', hclock, hqueue⟩ := LocalTransport.exec_pushAll lt s' left
  obtain ⟨hq'', hr''⟩ := LocalTransport.exec_pushAll_recorded hr' hq'
  have hsame : left.map (·.id) = sub.jobs.map (·.id) := by
    rw [← hjobs, List.map_map]
    rfl
  refine ⟨left, _, ?_, hjobs, hq'', hclock.trans hobserved.clock, ?_, ?_⟩
  · rw [hsubmit, hids', hsame]
  · rw [hqueue, hobserved.queue, hobserved.clock]
  · rw [hclock]
    rwa [hobserved.clock] at hr'' ⊢

end Turnstile
