import Turnstile.Proofs.Duplicate.Checks
import Turnstile.Proofs.Duplicate.Executions

/-!
# Which jobs are marked

Jobs are submitted and run on one machine, and time passes. A job is marked just where an equivalent
job before it has a claim that it has not given up and that has not expired.
-/

namespace Turnstile

open Machine

structure Workplace where
  policies : DedupPolicies
  transport : LocalTransport
  /-- The kinds that have a handler. -/
  kinds : List String
  /-- The liveness keys that are cleared after work. -/
  liveness : Option Liveness

/-- A job whose handler works, and how the dispatch goes on when it ends. -/
structure Execution where
  job : Job
  next : Except Halt Unit → Handling (Except Halt Dispatch)

/-- New jobs, whose records do not outlast every duration. -/
structure Submission.Admissible (ps : DedupPolicies) (h : List Happening) (now : Instant)
    (sub : Submission) : Prop where
  unmarked : ∀ job ∈ sub.jobs, job.duplicateOf = none
  lasts : ∀ job ∈ sub.jobs, ps.Lasts job now
  ids : (Happening.ids h ++ sub.jobs.map (·.id)).Nodup

namespace Workplace

def submit (w : Workplace) (sub : Submission) : Task (StateM Machine) (List String) :=
  sub.submit (w.transport.toTransport.marking w.policies)

def dispatch (w : Workplace) (kind : String) : Handling (Except Halt Dispatch) :=
  ((Dispatcher.asking w.kinds w.policies w.liveness).runNext kind).run

/-- What can have happened at a workplace, the executions that are under way, and the machine. The
jobs that a submission has left are read from the queues. -/
inductive Run (w : Workplace) : List Happening → List Execution → Machine → Prop
  | start {s : Machine} (hq : s.Quiet) (hs : s.store = Keyed.empty) (hw : s.queue = Queue.empty) :
      Run w [] [] s
  | submit {h : List Happening} {es : List Execution} {s s' : Machine} {ids : List String}
      {left : List Job} (sub : Submission) (hr : Run w h es s)
      (ha : sub.Admissible w.policies h s.clock) (he : s.exec (w.submit sub).run = (.ok ids, s'))
      (hleft : left.map Job.unmarked = sub.jobs)
      (hw : s'.queue = LocalTransport.takeIn s.clock left s.queue) :
      Run w (h ++ left.map (.left s.clock)) es s'
  | pass {h : List Happening} {es : List Execution} {s : Machine} (clock : Instant)
      (hr : Run w h es s) (hc : s.clock ≤ clock) : Run w h es { s with clock }
  | idle {h : List Happening} {es : List Execution} {s s' : Machine} {r : Except Halt Dispatch}
      (kind : String) (hr : Run w h es s) (he : (w.dispatch kind).drive s = (.done r, s')) :
      Run w h es s'
  | begin {h : List Happening} {es : List Execution} {s s' : Machine} {job : Job}
      {next : Except Halt Unit → Handling (Except Halt Dispatch)} (kind : String)
      (hr : Run w h es s) (he : (w.dispatch kind).drive s = (.await job next, s')) :
      Run w (h ++ [.begun job.id]) ({ job, next } :: es) s'
  | finish {h : List Happening} {es es' : List Execution} {e : Execution} {s s' : Machine}
      {r : Handling (Except Halt Dispatch)} (outcome : Except Halt Unit)
      (hr : Run w h (es ++ e :: es') s) (he : (e.next outcome).drive s = (r, s')) :
      Run w (h ++ [.ended e.job.id]) (es ++ es') s'

/-! ### What runs keep -/

/-- A job waits or works that was taken in. -/
def Known (h : List Happening) (job : Job) : Prop := ∃ t o, .left t o ∈ h ∧ job = o.stamped t

/-- What holds at every moment of a run. -/
structure Kept (w : Workplace) (h : List Happening) (es : List Execution) (s : Machine) : Prop where
  quiet : s.Quiet
  recorded : w.policies.Recorded h s.store s.clock
  waits : ∀ job, s.queue.Holds job → Known h job
  works : ∀ e ∈ es, Known h e.job ∧ w.policies.Finishes e.job e.next

variable {w : Workplace} {h more : List Happening} {es es' : List Execution} {s s' : Machine}
  {job : Job}

theorem Known.append (hk : Known h job) : Known (h ++ more) job := by
  obtain ⟨t, o, hmem, hjob⟩ := hk
  exact ⟨t, o, List.mem_append_left _ hmem, hjob⟩

namespace Kept

theorem start (hq : s.Quiet) (hs : s.store = Keyed.empty) (hw : s.queue = Queue.empty) :
    Kept w [] [] s := by
  refine ⟨hq, DedupPolicies.Recorded.of_empty ?_, ?_, fun _ he => nomatch he⟩
  · intro key
    rw [hs, MemoryStore.live?_empty]
  · intro job hj
    rw [hw] at hj
    exact absurd hj Queue.not_holds_empty

theorem submit {sub : Submission} {ids : List String} {left : List Job} (hk : Kept w h es s)
    (ha : sub.Admissible w.policies h s.clock) (he : s.exec (w.submit sub).run = (.ok ids, s'))
    (hleft : left.map Job.unmarked = sub.jobs)
    (hw : s'.queue = LocalTransport.takeIn s.clock left s.queue) :
    Kept w (h ++ left.map (.left s.clock)) es s' := by
  obtain ⟨left', s'', he', hleft', hq, hc, hw', hr⟩ := sub.exec_submit_recorded w.transport
    hk.recorded hk.quiet ha.lasts ha.unmarked ha.ids
  have hs : s'' = s' := congrArg Prod.snd (he'.symm.trans he)
  subst hs
  obtain rfl : left = left' :=
    LocalTransport.takeIn_inj (hleft.trans hleft'.symm) (hw.symm.trans hw')
  refine ⟨hq, hr, ?_, ?_⟩
  · intro job hj
    rw [hw] at hj
    rcases LocalTransport.holds_takeIn hj with hj | ⟨o, ho, rfl⟩
    · exact (hk.waits job hj).append
    · exact ⟨s.clock, o, List.mem_append_right _ (List.mem_map_of_mem ho), rfl⟩
  · intro e hmem
    obtain ⟨hknown, hfinishes⟩ := hk.works e hmem
    exact ⟨hknown.append, hfinishes⟩

theorem pass (hk : Kept w h es s) {clock : Instant} (hc : s.clock ≤ clock) :
    Kept w h es { s with clock } :=
  ⟨hk.quiet, hk.recorded.of_le hc, hk.waits, hk.works⟩

theorem dispatch {kind : String} {x : Handling (Except Halt Dispatch)} (hk : Kept w h es s)
    (he : (w.dispatch kind).drive s = (x, s')) :
    (∀ r, x = .done r → Kept w h es s') ∧
      ∀ job next, x = .await job next →
        Kept w (h ++ [.begun job.id]) ({ job, next } :: es) s' := by
  have hd := Dispatcher.drive_runNext w.kinds w.policies w.liveness kind hk.quiet
  change Dispatcher.Dispatched w.policies s ((w.dispatch kind).drive s) at hd
  rw [he] at hd
  cases hd with
  | idle quiet clock live waits =>
    constructor
    · intro r hx
      refine ⟨quiet, ?_, fun job hj => hk.waits job (waits job hj), hk.works⟩
      rw [clock]
      exact hk.recorded.of_live?_eq live
    · intro job next hx
      cases hx
  | asks quiet clock store waited waits finishes =>
    constructor
    · intro r hx
      cases hx
    · intro job next hx
      cases hx
      obtain ⟨t, o, hmem, rfl⟩ := hk.waits _ waited
      refine ⟨quiet, ?_, fun job hj => (hk.waits job (waits job hj)).append, ?_⟩
      · have hbegun := hk.recorded.begun hmem
        rw [clock, store]
        exact hbegun
      · intro e hmem'
        rcases List.mem_cons.mp hmem' with rfl | hmem'
        · exact ⟨⟨t, o, List.mem_append_left _ hmem, rfl⟩, finishes⟩
        · obtain ⟨hknown, hfinishes⟩ := hk.works e hmem'
          exact ⟨hknown.append, hfinishes⟩

theorem finish {e : Execution} {r : Handling (Except Halt Dispatch)} {outcome : Except Halt Unit}
    (hk : Kept w h (es ++ e :: es') s) (he : (e.next outcome).drive s = (r, s')) :
    Kept w (h ++ [.ended e.job.id]) (es ++ es') s' := by
  obtain ⟨⟨t, o, hmem, hjob⟩, hfinishes⟩ := hk.works e (by simp)
  obtain ⟨_, s₁, _, he', hq, hobserved, hs, hspares⟩ := hfinishes outcome s hk.quiet
  rw [he] at he'
  cases he'
  have hended : w.policies.Recorded (h ++ [.ended e.job.id]) s₁.store s₁.clock := by
    have hgiven := hk.recorded.ended hmem
    rw [hobserved.clock, hs, hjob]
    exact hgiven
  refine ⟨hspares.quiet hq, hspares.recorded hq hended, ?_, ?_⟩
  · intro job hj
    rw [hspares.queue, hobserved.queue] at hj
    exact (hk.waits job hj).append
  · intro e' hmem'
    obtain ⟨hknown, hfinishes'⟩ := hk.works e' (by
      rcases List.mem_append.mp hmem' with hmem' | hmem'
      · exact List.mem_append_left _ hmem'
      · exact List.mem_append_right _ (List.mem_cons_of_mem _ hmem'))
    exact ⟨hknown.append, hfinishes'⟩

end Kept

theorem Run.kept (hr : Run w h es s) : Kept w h es s := by
  induction hr with
  | start hq hs hw => exact .start hq hs hw
  | submit sub _ ha he hleft hw ih => exact ih.submit ha he hleft hw
  | pass clock _ hc ih => exact ih.pass hc
  | idle kind _ he ih => exact (ih.dispatch he).1 _ rfl
  | begin kind _ he ih => exact (ih.dispatch he).2 _ _ rfl
  | finish outcome _ he ih => exact ih.finish he

/-! ### Marks and records -/

/-- Records stay as they are while jobs are submitted, and keys get records from jobs that take part
only. -/
theorem live_of_submit {ps : DedupPolicies} {left jobs : List Job} {now : Instant}
    {store store' : MemoryStore} (hr : ps.Recorded h store now)
    (hr' : ps.Recorded (h ++ left.map (.left now)) store' now)
    (hleft : left.map Job.unmarked = jobs) (kind : String) (args : List Json) :
    (∀ slot, store.live? now (IdempotencyKey.of kind args) = some slot →
      store'.live? now (IdempotencyKey.of kind args) = some slot) ∧
    ((∀ j ∈ jobs, j.key = IdempotencyKey.of kind args → (ps.claimOf j).applies now = false) →
      store'.live? now (IdempotencyKey.of kind args) =
        store.live? now (IdempotencyKey.of kind args)) := by
  have hkeep : ∀ slot, store.live? now (IdempotencyKey.of kind args) = some slot →
      store'.live? now (IdempotencyKey.of kind args) = some slot := by
    intro slot hl
    obtain ⟨o, d, ho, hkey, hslot, hd⟩ := (hr.live_iff kind args slot).mp hl
    exact (hr'.live_iff kind args slot).mpr ⟨o, d, ho.append_lefts left now, hkey, hslot, hd⟩
  refine ⟨hkeep, fun hidle => ?_⟩
  apply Option.ext
  intro slot
  refine ⟨fun hl => ?_, hkeep slot⟩
  obtain ⟨o, d, ho, hkey, hslot, hd⟩ := (hr'.live_iff kind args slot).mp hl
  rcases ho.of_append_lefts with ho | ⟨hmem, ha⟩
  · exact (hr.live_iff kind args slot).mpr ⟨o, d, ho, hkey, hslot, hd⟩
  · have hjob : o.unmarked ∈ jobs := hleft ▸ List.mem_map_of_mem hmem
    have hnot : (ps.claimOf o).applies now = false := hidle o.unmarked hjob hkey
    rw [ha] at hnot
    cases hnot

/-- In every run, a job that is taken in is marked with another one's id just where it takes part in
the search for duplicates and that one is an equivalent job before it that took part and was left
unmarked, has not given up its claim, and whose claim has not expired. There is one such job at
most. The records under idempotency keys are those of the jobs that have claims, with the deadlines
that they were claimed with. Further submissions succeed and leave records as they are; jobs that
take no part make none. -/
theorem Run.marks_exact (hr : Run w h es s) (hc : CollisionFree (Happening.jobs h)) :
    (∀ before t j after, h = before ++ .left t j :: after →
      (∀ i, j.duplicateOf = some i ↔ (w.policies.claimOf j).applies t = true ∧
        ∃ o, w.policies.Blocks before t o ∧ o.Equivalent j ∧ o.id = i) ∧
      ((w.policies.claimOf j).applies t = true → ∀ o o',
        w.policies.Blocks before t o → o.Equivalent j →
        w.policies.Blocks before t o' → o'.Equivalent j → o = o') ∧
      ∀ t' o, .left t' o ∈ h → j.duplicateOf = some o.id → o.duplicateOf = none) ∧
    (∀ kind args slot, s.store.live? s.clock (IdempotencyKey.of kind args) = some slot ↔
      ∃ o d, w.policies.Owns h o d ∧ o.key = IdempotencyKey.of kind args ∧
        slot = Slot.ofToken o.id d ∧ ∀ e, d = some e → s.clock < e) ∧
    ∀ sub : Submission, sub.Admissible w.policies h s.clock →
      ∃ (left : List Job) (s' : Machine),
        s.exec (w.submit sub).run = (.ok (sub.jobs.map (·.id)), s') ∧
        left.map Job.unmarked = sub.jobs ∧ Run w (h ++ left.map (.left s.clock)) es s' ∧
        ∀ kind args,
          (∀ slot, s.store.live? s.clock (IdempotencyKey.of kind args) = some slot →
            s'.store.live? s.clock (IdempotencyKey.of kind args) = some slot) ∧
          ((∀ j ∈ sub.jobs, j.key = IdempotencyKey.of kind args →
              (w.policies.claimOf j).applies s.clock = false) →
            s'.store.live? s.clock (IdempotencyKey.of kind args) =
              s.store.live? s.clock (IdempotencyKey.of kind args)) := by
  have hk := hr.kept
  refine ⟨?_, hk.recorded.live_iff, ?_⟩
  · intro before t j after hsplit
    have hj : .left t j ∈ h := hsplit ▸ List.mem_append_right _ List.mem_cons_self
    have hbefore : ∀ {o : Job}, w.policies.Blocks before t o → ∃ t', .left t' o ∈ h := by
      rintro o ⟨_, howns, _⟩
      obtain ⟨t', hmem⟩ := howns.left_mem
      exact ⟨t', hsplit ▸ List.mem_append_left _ hmem⟩
    have hkey : ∀ {o : Job}, w.policies.Blocks before t o → (o.key = j.key ↔ o.Equivalent j) := by
      intro o ho
      obtain ⟨t', hmem⟩ := hbefore ho
      exact Job.key_eq_iff hc (Happening.mem_jobs hmem) (Happening.mem_jobs hj)
    have hmark : ∀ i, j.duplicateOf = some i ↔ (w.policies.claimOf j).applies t = true ∧
        ∃ o, w.policies.Blocks before t o ∧ o.Equivalent j ∧ o.id = i := by
      intro i
      rw [hk.recorded.marks before t j after hsplit i]
      refine and_congr_right fun _ => exists_congr fun o => and_congr_right fun ho => ?_
      rw [hkey ho]
    refine ⟨hmark, ?_, ?_⟩
    · intro ha o o' ho he ho' he'
      have hid : some o.id = some o'.id :=
        ((hmark o.id).mpr ⟨ha, o, ho, he, rfl⟩).symm.trans
          ((hmark o'.id).mpr ⟨ha, o', ho', he', rfl⟩)
      obtain ⟨_, hmem⟩ := hbefore ho
      obtain ⟨_, hmem'⟩ := hbefore ho'
      exact (Happening.eq_of_id hk.recorded.ids hmem hmem' (Option.some.inj hid)).2
    · intro t' o hmem hdup
      obtain ⟨_, o', ho', _, hid⟩ := (hmark o.id).mp hdup
      obtain ⟨_, hmem'⟩ := hbefore ho'
      obtain ⟨_, rfl⟩ := Happening.eq_of_id hk.recorded.ids hmem' hmem hid
      obtain ⟨_, ⟨⟨_, _, _, _, hd, _⟩, _⟩, _⟩ := ho'
      exact hd
  · intro sub ha
    obtain ⟨left, s', he, hleft, _, hclock, hw, hr'⟩ := sub.exec_submit_recorded w.transport
      hk.recorded hk.quiet ha.lasts ha.unmarked ha.ids
    rw [hclock] at hr'
    exact ⟨left, s', he, hleft, hr.submit sub ha he hleft hw, live_of_submit hk.recorded hr' hleft⟩

/-- Of two equivalent jobs that are submitted at once, the second one is marked. -/
theorem Run.marks_exact_of_twins :
    let w : Workplace :=
      { policies := .ofPolicy .default, transport := { liveness := none }, kinds := ["k"],
        liveness := none }
    let job := Job.create "k" [.str "a"] "1"
    ∃ a b s, Run w [.left Instant.epoch a, .left Instant.epoch b] [] s ∧ a.unmarked = job ∧
      b.unmarked = { job with id := "2" } ∧ CollisionFree [a, b] ∧ a.duplicateOf = none ∧
      b.duplicateOf = some "1" := by
  intro w job
  have hstart : Run w [] [] (Machine.ofClock Instant.epoch) := .start (fun _ => rfl) rfl rfl
  have hadmissible : (Submission.batch [job, { job with id := "2" }]).Admissible w.policies []
      Instant.epoch := by
    refine ⟨?_, ?_, by decide⟩
    · intro j hj
      rcases List.mem_pair.mp hj with rfl | rfl <;> rfl
    · intro j hj _
      rcases List.mem_pair.mp hj with rfl | rfl <;> rfl
  obtain ⟨left, s, _, hleft, hrun, _⟩ :=
    (hstart.marks_exact (fun _ hj => nomatch hj)).2.2 _ hadmissible
  obtain ⟨a, rest, rfl, ha, hrest⟩ := List.map_eq_cons_iff.mp hleft
  obtain ⟨b, rest, rfl, hb, hrest⟩ := List.map_eq_cons_iff.mp hrest
  obtain rfl := List.map_eq_nil_iff.mp hrest
  have hsame : a.preimage = b.preimage := by
    have hp : a.unmarked.preimage = b.unmarked.preimage := by
      rw [ha, hb]
      rfl
    exact hp
  have hc : CollisionFree [a, b] := by
    intro x hx y hy _
    rcases List.mem_pair.mp hx with rfl | rfl <;> rcases List.mem_pair.mp hy with rfl | rfl
    · rfl
    · exact hsame
    · exact hsame.symm
    · rfl
  obtain ⟨hmarks, _, _⟩ := hrun.marks_exact hc
  obtain ⟨hfirst, _⟩ := hmarks [] Instant.epoch a [.left Instant.epoch b] rfl
  obtain ⟨hsecond, _⟩ := hmarks [.left Instant.epoch a] Instant.epoch b [] rfl
  have hnone : a.duplicateOf = none := by
    apply Option.eq_none_iff_forall_ne_some.mpr
    intro i hi
    obtain ⟨_, o, ⟨_, howns, _⟩, _⟩ := (hfirst i).mp hi
    obtain ⟨_, hmem⟩ := howns.left_mem
    cases hmem
  refine ⟨a, b, s, hrun, ha, hb, hc, hnone, (hsecond "1").mpr ⟨?_, a, ?_, ?_, ?_⟩⟩
  · change (w.policies.claimOf b.unmarked).applies Instant.epoch = true
    rw [hb]
    rfl
  · refine ⟨Instant.epoch.deadline? DedupPolicy.defaultTtl, ⟨⟨Instant.epoch, DedupPolicy.defaultTtl,
      List.mem_singleton_self _, ?_, hnone, ?_, rfl⟩, ?_⟩, ?_⟩
    · change (w.policies.claimOf a.unmarked).applies Instant.epoch = true
      rw [ha]
      rfl
    · change (w.policies.claimOf a.unmarked).expiry? Instant.epoch = some DedupPolicy.defaultTtl
      rw [ha]
      rfl
    · intro e he hr
      cases List.mem_singleton.mp he
      rcases hr.eq with he | he <;> cases he
    · intro d hd
      cases hd
      decide
  · have he : a.unmarked.Equivalent b.unmarked := by
      rw [ha, hb]
      exact ⟨rfl, rfl⟩
    exact he
  · exact congrArg Job.id ha

end Workplace

end Turnstile
