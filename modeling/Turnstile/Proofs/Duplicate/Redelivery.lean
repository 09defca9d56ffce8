import Turnstile.Duplicate.Releasing
import Turnstile.Proofs.Duplicate.Checks
import Turnstile.Proofs.Transport.Queue

/-!
# Keys of executed jobs

Who submits a job learns from the store whether the job owns its key; who executes it takes that from the
mark that the job carries. The two agree, and no job that was executed keeps its key, unless it was
submitted with a mark that does not fit: such a mark stays when the check gives the key to the job itself.
-/

namespace Turnstile

open Machine

variable {α : Type} {ps : DedupPolicies} {job job' marked delivered : Job} {s s' s₁ s₂ : Machine}

/-- The job's id is under its key. -/
def Job.Holds (job : Job) (s : Machine) : Prop := s.store.holds s.clock job.key job.id = true

/-! ### Moves that claim nothing for a job -/

/-- Whatever happens, the job's id does not come under its key. -/
structure Machine.Cedes (job : Job) (s s' : Machine) : Prop where
  quiet : s.Quiet → s'.Quiet
  holds : s.Quiet → job.Holds s' → job.Holds s

instance : IsPreorder Machine (Cedes job) where
  refl _ := ⟨id, fun _ => id⟩
  trans _ _ _ h h' := ⟨fun hq => h'.quiet (h.quiet hq), fun hq hh =>
    h.holds hq (h'.holds (h.quiet hq) hh)⟩

theorem Job.holds_congr (hk : job'.key = job.key) (hi : job'.id = job.id) :
    job'.Holds s ↔ job.Holds s := by
  unfold Job.Holds
  rw [hk, hi]

theorem Job.holds_of_live? (hc : s'.clock = s.clock)
    (hl : s'.store.live? s.clock job.key = s.store.live? s.clock job.key) :
    job.Holds s' ↔ job.Holds s := by
  unfold Job.Holds MemoryStore.holds
  rw [hc, hl]

theorem MemoryStore.eq_of_holds {store : MemoryStore} {now : Instant} {key token token' : String}
    (h : store.holds now key token = true) (h' : store.holds now key token' = true) :
    token = token' := by
  obtain ⟨slot, hl, hv⟩ := MemoryStore.holds_iff.mp h
  obtain ⟨slot', hl', hv'⟩ := MemoryStore.holds_iff.mp h'
  cases hl.symm.trans hl'
  exact StoredValue.text.inj (hv.symm.trans hv')

theorem cedes_addRecord (s : Machine) (r : JournalRecord) : Cedes job s (s.addRecord r) :=
  ⟨id, fun _ => id⟩

theorem Machine.Spares.cedes (h : s.Spares s') : Cedes job s s' :=
  ⟨h.quiet, fun hq => (Job.holds_of_live? h.clock (h.live hq job.kind job.args)).mp⟩

theorem cedes_push (lt : LocalTransport) (other : Job) : Always (Cedes job) (lt.push other) := by
  intro s
  have hlive := lt.spares_markLive other.id s
  have hqueue (q : Queue) (s : Machine) : Cedes job s { s with queue := q } := ⟨id, fun _ => id⟩
  exact trans_of (Cedes job) hlive.cedes (hqueue _ _)

/-! ### Giving the key up -/

theorem cedes_leaving (job other : Job) (s : Machine) :
    Cedes job s (s.callStore (.deleteIfEq other.key other.id)).2 := by
  refine ⟨fun hq => (callStore_eq hq _).2.2, fun hq hh => ?_⟩
  unfold Job.Holds at hh
  rw [(callStore_eq hq _).2.1, (observed_callStore s _).clock] at hh
  rcases s.store.call_deleteIfEq s.clock other.key other.id with ⟨_, he⟩ | ⟨_, he⟩ <;> rw [he] at hh
  · obtain ⟨slot, hl, hv⟩ := MemoryStore.holds_iff.mp hh
    rw [MemoryStore.live?_erase] at hl
    split at hl
    · cases hl
    · exact MemoryStore.holds_iff.mpr ⟨slot, hl, hv⟩
  · exact hh

namespace DedupPolicies

theorem cedes_release (ps : DedupPolicies) (job other : Job) :
    Always (Cedes job) (ps.release other) := by
  refine always_bind ?_ fun r => ?_
  · unfold Claim.release
    split
    · exact always_pure _
    · exact cedes_leaving job other
  · split
    · exact fun s => cedes_addRecord s _
    · exact always_pure _
    · exact fun s => cedes_addRecord s _

/-- A job that is not marked gives its key up. -/
theorem not_holds_release (hq : s.Quiet) (hd : job.isDuplicate = false) :
    ¬ job.Holds (s.exec (ps.release job)).2 := by
  intro hh
  have hcall : ¬ job.Holds (s.callStore (.deleteIfEq job.key job.id)).2 := by
    unfold Job.Holds
    rw [(callStore_eq hq _).2.1, (observed_callStore s _).clock]
    rcases s.store.call_deleteIfEq s.clock job.key job.id with ⟨_, he⟩ | ⟨hfree, he⟩ <;> rw [he]
    · rw [MemoryStore.holds, MemoryStore.live?_erase, if_pos rfl]
      exact Bool.false_ne_true
    · rw [hfree]
      exact Bool.false_ne_true
  have hrun : s.exec (((Claim.of job (ps.forKind job.kind)).release (m := StateM Machine)).run) =
      s.callStore (.deleteIfEq job.key job.id) := by
    rw [Claim.release, Claim.of, hd]
    rfl
  rw [release, exec_bind, hrun] at hh
  revert hh
  split <;> exact hcall

/-- The key that a job gives up around its execution is free of it in the end, and a marked job that did
not hold its key does not get it. -/
theorem not_holds_around (he : (ps.forKind job.kind).isEnabled = true) (hq : s.Quiet)
    (hd : job.isDuplicate = true → ¬ job.Holds s) {work : StateM Machine α}
    (hw : Always (Cedes job) work) : ¬ job.Holds (s.exec (ps.around job work)).2 := by
  have hfree {s : Machine} (hq : s.Quiet) (hd : job.isDuplicate = true → ¬ job.Holds s) :
      ¬ job.Holds (s.exec (ps.release job)).2 := by
    cases hdup : job.isDuplicate with
    | true => exact fun hh => hd hdup ((cedes_release ps job job s).holds hq hh)
    | false => exact not_holds_release hq hdup
  cases hp : (ps.forKind job.kind).release with
  | none =>
    rw [DedupPolicy.isEnabled, hp] at he
    cases he
  | untilExecuting =>
    have hbegun := cedes_release ps job job s
    rw [around, hp]
    exact fun hh => hfree hq hd ((hw _).holds (hbegun.quiet hq) hh)
  | untilExecuted =>
    rw [around, hp]
    exact hfree ((hw s).quiet hq) fun hdup hh => hd hdup ((hw s).holds hq hh)

/-! ### What the mark of a submitted job says -/

/-- The job brings a mark with it, and has its key already or will claim it now. -/
def Misread (ps : DedupPolicies) (job : Job) (s : Machine) : Prop :=
  job.isDuplicate = true ∧ (job.Holds s ∨
    ((Claim.of job (ps.forKind job.kind)).applies s.clock = true ∧
      s.store.live? s.clock job.key = none))

/-- A check leaves a job marked and under its key only if the job was marked before and the key was its
own or free. -/
theorem exec_markOwned_holds (job : Job) (p : DedupPolicy) (ttl : Duration) (hq : s.Quiet) :
    (s.exec (markOwned (Claim.of job p) ttl)).2.Quiet ∧
      ((s.exec (markOwned (Claim.of job p) ttl)).1.isDuplicate = true →
        job.Holds (s.exec (markOwned (Claim.of job p) ttl)).2 →
          job.isDuplicate = true ∧ (job.Holds s ∨ s.store.live? s.clock job.key = none)) := by
  cases hl : s.store.live? s.clock job.key with
  | none =>
    obtain ⟨s', he, hq', _, _⟩ := exec_markOwned_free (Claim.of job p) ttl hq hl
    rw [he]
    exact ⟨hq', fun hd _ => ⟨hd, .inr rfl⟩⟩
  | some slot =>
    -- what the key holds stays there
    have hheld {s' : Machine} (ho : s.Observed s') (hs : s'.store = s.store) :
        job.Holds s' ↔ job.Holds s := Job.holds_of_live? ho.clock (by rw [hs])
    cases hv : slot.value with
    | set members =>
      obtain ⟨s', he, hq', ho, hs⟩ := exec_markOwned_set (Claim.of job p) ttl hq hl hv
      rw [he]
      exact ⟨hq', fun hd hh => ⟨hd, .inl ((hheld ho hs).mp hh)⟩⟩
    | text owner =>
      by_cases hown : owner = job.id
      · subst hown
        obtain ⟨s', he, hq', ho, hs⟩ := exec_markOwned_own (Claim.of job p) ttl hq hl hv
        rw [he]
        exact ⟨hq', fun hd hh => ⟨hd, .inl ((hheld ho hs).mp hh)⟩⟩
      · obtain ⟨s', he, hq', ho, hs⟩ := exec_markOwned_taken (Claim.of job p) ttl hq hl hv hown
        rw [he]
        have howner : s.store.holds s.clock job.key owner = true :=
          MemoryStore.holds_iff.mpr ⟨slot, hl, hv⟩
        exact ⟨hq', fun _ hh => absurd (MemoryStore.eq_of_holds howner ((hheld ho hs).mp hh)) hown⟩

theorem exec_mark_holds (hq : s.Quiet) (hm : s.exec (ps.mark job).run = (.ok marked, s')) :
    s'.Quiet ∧ (marked.isDuplicate = true → job.Holds s' → ps.Misread job s) := by
  rw [exec_mark] at hm
  split at hm
  · next ha =>
    cases hx : (Claim.of job (ps.forKind job.kind)).expiry? s.clock with
    | none =>
      rw [hx] at hm
      cases hm
    | some ttl =>
      rw [hx] at hm
      cases hm
      obtain ⟨hq', hholds⟩ := exec_markOwned_holds job (ps.forKind job.kind) ttl hq
      refine ⟨hq', fun hd hh => ?_⟩
      obtain ⟨hdup, hkey⟩ := hholds hd hh
      exact ⟨hdup, hkey.imp_right fun hfree => ⟨ha, hfree⟩⟩
  · cases hm
    exact ⟨hq, fun hd hh => ⟨hd, .inl hh⟩⟩

/-! ### Submission and execution -/

/-- A job that was checked on submission and then executed, whatever came of its work, does not keep its
key, unless it was misread. What happens in between and during the work may change anything, but does
not put the job's id under its key anew. -/
theorem not_holds_of_executed (hq : s.Quiet) (he : (ps.forKind job.kind).isEnabled = true)
    (hr : ¬ ps.Misread job s) (hm : s.exec (ps.mark job).run = (.ok marked, s₁))
    (hw : Cedes job s₁ s₂) (hd : delivered.unstamped = marked.unstamped) {work : StateM Machine α}
    (hwork : Always (Cedes job) work) :
    ¬ job.Holds (s₂.exec (ps.around delivered work)).2 := by
  obtain ⟨hq₁, hkept⟩ := exec_mark_holds hq hm
  have hmarked := unmarked_of_exec_mark hm
  simp only [Job.unstamped, Job.mk.injEq] at hd
  simp only [Job.unmarked, Job.mk.injEq] at hmarked
  obtain ⟨hkind, hargs, hid, hdup, _⟩ := hd
  obtain ⟨hkind', hargs', hid', _⟩ := hmarked
  have hkey : delivered.key = job.key := by rw [Job.key, hkind, hkind', hargs, hargs', Job.key]
  have hsame (s : Machine) : delivered.Holds s ↔ job.Holds s :=
    Job.holds_congr hkey (hid.trans hid')
  rw [← hsame]
  refine not_holds_around (by rw [hkind, hkind']; exact he) (hw.quiet hq₁) (fun hmark hh => hr ?_)
    fun s => ?_
  · rw [Job.isDuplicate, hdup] at hmark
    exact hkept hmark (hw.holds hq₁ ((hsame s₂).mp hh))
  · exact ⟨(hwork s).quiet, fun hq hh => (hsame s).mpr ((hwork s).holds hq ((hsame _).mp hh))⟩

/-- A job comes again, marked since its last submission, while another one has its key. It is taken in,
and its work panics. -/
theorem not_holds_of_executed_marked :
    let ps := DedupPolicies.ofPolicy DedupPolicy.untilExecuted
    let lt : LocalTransport := { liveness := some ⟨DedupPolicy.defaultTtl⟩ }
    let owner : Job := Job.create "k" [] "1"
    let job : Job := { Job.create "k" [] "2" with duplicateOf := some "0" }
    let work : StateM Machine (Except Halt Unit) := pure (.error .panic)
    let s := ((Machine.ofClock Instant.epoch).exec (ps.mark owner).run).2
    ∃ marked s₁, s.exec (ps.mark job).run = (.ok marked, s₁) ∧ marked.duplicateOf = some "1" ∧
      ¬ ps.Misread job s ∧
      ¬ job.Holds ((s₁.exec (lt.push marked)).2.exec (ps.around (marked.stamped s₁.clock) work)).2 := by
  intro ps lt owner job work s
  have hlasts (job : Job) (h : job.scheduledAt = none) (now : Instant) : ps.Lasts job now := by
    intro _
    simp only [Claim.expiry?, Claim.of, h, Option.isSome_some]
  obtain ⟨_, s', hm', _⟩ := exec_mark_unmarked (s := Machine.ofClock Instant.epoch)
    (hlasts owner rfl Instant.epoch)
  have hs : s = s' := congrArg Prod.snd hm'
  have hquiet : s.Quiet := hs ▸ (exec_mark_holds (fun _ => rfl) hm').1
  obtain ⟨marked, s₁, hm, _, _⟩ := exec_mark_unmarked (s := s) (hlasts job rfl s.clock)
  have hmark : (s.exec (ps.mark job).run).1.toOption.bind Job.duplicateOf = some "1" := by
    decide +kernel
  have hread : ¬ ps.Misread job s := by
    have hheld : s.store.holds s.clock job.key "1" = true := by decide +kernel
    rintro ⟨_, hown | ⟨_, hfree⟩⟩
    · exact absurd (MemoryStore.eq_of_holds hheld hown) (by decide)
    · rw [MemoryStore.holds, hfree] at hheld
      cases hheld
  rw [hm] at hmark
  refine ⟨marked, s₁, hm, hmark, hread, ?_⟩
  exact not_holds_of_executed hquiet rfl hread hm (cedes_push lt marked s₁) rfl (always_pure _)

/-- A job comes again, marked since its last submission, and nothing is under its key now. The job claims
the key, and keeps it when its work is done. -/
theorem holds_of_executed_misread :
    let ps := DedupPolicies.ofPolicy DedupPolicy.default
    let job : Job := { Job.create "k" [] "1" with duplicateOf := some "0" }
    let s := Machine.ofClock Instant.epoch
    let work : StateM Machine (Except Halt Unit) := pure (.ok ())
    s.Quiet ∧ (ps.forKind job.kind).isEnabled = true ∧ ∃ marked s₁,
      s.exec (ps.mark job).run = (.ok marked, s₁) ∧ job.Holds (s₁.exec (ps.around marked work)).2 := by
  intro ps job s work
  refine ⟨fun _ => rfl, rfl, job, (s.exec (ps.mark job).run).2, rfl, ?_⟩
  unfold Job.Holds
  decide +kernel

end DedupPolicies

end Turnstile
