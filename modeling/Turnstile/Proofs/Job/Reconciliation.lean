import Turnstile.Proofs.Engine.Guarantee
import Turnstile.Proofs.Engine.Moments
import Turnstile.Proofs.Simulation.Answers
import Turnstile.Proofs.Simulation.Marks
import Turnstile.Proofs.Store.Dating

/-!
# Registration while others clean up

A job is registered in two calls: it joins the running set, and then its liveness key is written. A
process that cleans up lists the members, looks their keys up and removes those that have none. A job
stays registered as long as nobody looks its key up between the two calls; a whole clean-up between
them takes the job out again.
-/

namespace Turnstile

open Machine Thread

variable {Q ρ ι : Type}

/-- How a process keeps the running jobs of a kind, with liveness keys to tell which of them are over. -/
structure Registry where
  entryTtl : Duration
  batchSize : Nat
  liveness : Liveness

namespace Registry

def running (r : Registry) (kind : String) : RunningSet (Thread Q ρ) :=
  { kind, entryTtl := r.entryTtl, batchSize := r.batchSize, probe := some r.liveness.probe }

/-- One process registers a job, and others clean up. -/
def reconciling (kind id : String) (own : Registry) (cleaner : ι → Registry) :
    Option ι → Thread Q ρ (Except Fault Unit)
  | none => ((own.running kind).register id).run
  | some c => (do let _ ← ((cleaner c).running kind).cleanUp : Attempt (Thread Q ρ) Unit).run

variable {kind id : String} {now : Instant} {fresh : Instant → Prop} {s s' : Machine}

/-! ### What a clean-up leaves alone -/

/-- The running set of a kind at a time: where a job is a member, it joined at such a time. -/
structure Tended (kind id : String) (now : Instant) (fresh : Instant → Prop) (s : Machine) : Prop where
  quiet : s.Quiet
  clock : s.clock = now
  dated : s.store.Dated now (RunningSet.keyOf kind) id fresh

/-- A step that takes neither a job out of the running set nor its mark away. -/
structure Spares (kind id : String) (now : Instant) (fresh : Instant → Prop) (s s' : Machine) : Prop where
  tended : Tended kind id now fresh s'
  member : id ∈ s.members kind → id ∈ s'.members kind
  marked : id ∈ s.members kind → s.Marked id → s'.Marked id

theorem marked_of_member (h : id ∈ s.members kind) (hk : RunningSet.keyOf kind = Liveness.key id) :
    s.Marked id := by
  obtain ⟨ms, d, t, hl, _⟩ := MemoryStore.mem_membersAt.mp h
  rw [Marked, ← hk, hl]
  exact nofun

theorem Spares.of_live?_eq (h : Tended kind id now fresh s) (hq : s'.Quiet) (hc : s'.clock = s.clock)
    (hl : ∀ key, s'.store.live? s.clock key = s.store.live? s.clock key) :
    Spares kind id now fresh s s' := by
  refine ⟨⟨hq, hc.trans h.clock, ?_⟩, ?_, ?_⟩
  · refine h.dated.of_live?_eq ?_
    rw [← h.clock]
    exact hl _
  · intro hm
    rw [Machine.members, hc, MemoryStore.membersAt_of_live?_eq (hl _)]
    exact hm
  · intro _ hm
    rw [Marked, hc, hl]
    exact hm

theorem spares_reads {c : StoreCall} (hc : c.Reads) (h : Tended kind id now fresh s) :
    Spares kind id now fresh s (s.callStore c).2 := by
  obtain ⟨_, hstore, hquiet⟩ := callStore_eq h.quiet c
  refine .of_live?_eq h hquiet (observed_callStore s c).clock fun key => ?_
  rw [hstore, MemoryStore.live?_call_of_reads hc]

theorem spares_logged (h : Tended kind id now fresh s) (hl : s.Logged s') :
    Spares kind id now fresh s s' := by
  refine .of_live?_eq h (hl.quiet h.quiet) hl.clock fun key => ?_
  rw [hl.store]

theorem spares_setRemove (h : Tended kind id now fresh s) {texts : List String} (hid : id ∉ texts) :
    Spares kind id now fresh s (s.callStore (.setRemove (RunningSet.keyOf kind) texts)).2 := by
  obtain ⟨_, hstore, hquiet⟩ := callStore_eq h.quiet (.setRemove (RunningSet.keyOf kind) texts)
  have hclock := (observed_callStore s (.setRemove (RunningSet.keyOf kind) texts)).clock
  have hcalled := called_callStore s (.setRemove (RunningSet.keyOf kind) texts)
  have hdated := h.dated
  rw [← h.clock] at hdated
  obtain ⟨hdated', hkept⟩ := hdated.setRemove hid
  have hmember : id ∈ s.members kind →
      id ∈ (s.callStore (.setRemove (RunningSet.keyOf kind) texts)).2.members kind := by
    intro hm
    rw [hcalled.members h.quiet]
    exact hkept hm
  refine ⟨⟨hquiet, hclock.trans h.clock, ?_⟩, hmember, fun hm hmark => ?_⟩
  · rw [hstore, ← h.clock]
    exact hdated'
  · by_cases hk : RunningSet.keyOf kind = Liveness.key id
    · exact marked_of_member (hmember hm) hk
    · rw [hcalled.marked h.quiet,
        MemoryStore.call_live?_ne (.setRemove (RunningSet.keyOf kind) texts) hk]
      exact hmark

/-! ### Clean-up -/

/-- A look at the liveness key of a job finds it. -/
def FindsMark (id : String) : (c : StoreCall) → Except Fault c.Answer → Prop
  | .get key, answer => key = Liveness.key id → answer ≠ .ok none
  | _, _ => True

/-- A thread that spares a job as long as it finds the job's key. -/
def Lets (kind id : String) (now : Instant) (fresh : Instant → Prop) {α : Type}
    (x : Thread Q ρ α) (post : α → Prop) : Prop :=
  Respects (Tended kind id now fresh) (Spares kind id now fresh) (FindsMark id) x post

theorem lets_setMembers : Lets kind id now fresh
    (callStore (.setMembers (RunningSet.keyOf kind)) : Attempt (Thread Q ρ) _).run
    (Succeeds fun members : List SetMember => ∀ m ∈ members, m.member = id → fresh m.addedAt) := by
  refine respects_callStore fun s h _ => ⟨spares_reads trivial h, ?_⟩
  cases ha : (s.callStore (.setMembers (RunningSet.keyOf kind))).1 with
  | error f => exact trivial
  | ok members =>
    rw [(callStore_eq h.quiet _).1, h.clock] at ha
    exact h.dated.setMembers ha

theorem lets_isLive (id' : String) : Lets kind id now fresh
    (Liveness.isLive id' : Attempt (Thread Q ρ) Bool).run
    (Succeeds fun live => id' = id → live = true) := by
  refine Respects.run_bind (p := fun value => id' = id → value.isSome = true) ?_
    fun value h => respects_pure h
  refine respects_callStore fun s h ha => ⟨spares_reads trivial h, ?_⟩
  rcases hr : (s.callStore (.get (Liveness.key id'))).1 with f | _ | value
  · exact trivial
  · intro hid
    exact absurd hr (ha (congrArg _ hid))
  · exact fun _ => rfl

theorem lets_completed (ids : List String) : Lets kind id now fresh
    (Liveness.completed ids : Attempt (Thread Q ρ) _).run (Succeeds fun ended => id ∉ ended) := by
  induction ids with
  | nil => exact respects_pure List.not_mem_nil
  | cons id' rest ih =>
    refine (lets_isLive id').run_bind fun live hlive => ih.run_bind fun more hmore => ?_
    refine respects_pure ?_
    cases live with
    | true => exact hmore
    | false =>
      intro hmem
      rcases List.mem_cons.mp hmem with rfl | hold
      · cases hlive rfl
      · exact hmore hold

theorem lets_completedAmong (l : Liveness) (batches : List (List String)) : Lets kind id now fresh
    (RunningSet.completedAmong l.probe batches : Attempt (Thread Q ρ) _).run
    (Succeeds fun ended => id ∉ ended) := by
  induction batches with
  | nil => exact respects_pure List.not_mem_nil
  | cons batch rest ih =>
    refine (lets_completed batch).run_bind fun done hdone => ih.run_bind fun more hmore => ?_
    exact respects_pure (List.mem_append.not.mpr (not_or.mpr ⟨hdone, hmore⟩))

theorem lets_removeAll (r : Registry) {batches : List (List String)} (h : ∀ b ∈ batches, id ∉ b) :
    Lets kind id now fresh ((r.running kind).removeAll batches : Attempt (Thread Q ρ) _).run
      (Succeeds fun _ => True) := by
  induction batches with
  | nil => exact respects_pure trivial
  | cons batch rest ih =>
    obtain ⟨hbatch, hrest⟩ := List.forall_mem_cons.mp h
    refine Respects.run_bind (p := fun _ => True) ?_ fun removed _ =>
      (ih hrest).run_bind fun more _ => respects_pure trivial
    exact respects_callStore fun s ht _ =>
      ⟨spares_setRemove ht hbatch, .of_forall (fun _ => trivial) _⟩

/-- A clean-up takes out what is too old or has no liveness key, and a member that was added a short
time ago and has one is neither. -/
theorem lets_cleanUp (r : Registry)
    (hfresh : ∀ t, fresh t → ∀ cutoff, now.back? r.entryTtl = some cutoff → cutoff < t) :
    Lets kind id now fresh ((r.running kind).cleanUp : Attempt (Thread Q ρ) Nat).run
      (Succeeds fun _ => True) := by
  refine lets_setMembers.run_bind fun members hmembers => ?_
  split
  · exact trivial
  have hnow : Lets kind id now fresh
      (ExceptT.lift Turnstile.now : Attempt (Thread Q ρ) Instant).run (Succeeds fun t => t = now) :=
    Respects.run_lift fun s h => ⟨spares_logged h ⟨rfl, rfl, rfl, rfl, rfl, fun hq => hq⟩, h.clock⟩
  refine hnow.run_bind ?_
  rintro now' rfl
  have hstale : id ∉ (members.filter fun m =>
      (r.running kind : RunningSet (Thread Q ρ)).isStale now' m).map (·.member) := by
    intro hmem
    obtain ⟨m, hm, hid⟩ := List.mem_map.mp hmem
    obtain ⟨hm, hold⟩ := List.mem_filter.mp hm
    have hrecent := hfresh _ (hmembers m hm hid)
    simp only [RunningSet.isStale, running] at hold
    cases hb : now'.back? r.entryTtl with
    | none =>
      rw [hb] at hold
      cases hold
    | some cutoff =>
      rw [hb] at hold
      exact absurd (hrecent cutoff hb) (not_lt.mpr (by simpa using hold))
  refine (lets_completedAmong r.liveness _).run_bind fun ended hended => ?_
  refine Respects.run_bind (p := fun _ => True) (lets_removeAll r ?_) fun removed _ => ?_
  · intro batch hb hid
    rcases List.mem_append.mp (RunningSet.mem_of_batches hb hid) with hs | he
    · exact hstale hs
    · exact hended he
  · split
    · refine Respects.run_bind (p := fun _ => True) (Respects.run_lift ?_) fun _ _ =>
        respects_pure trivial
      have hnote : Within Logged (note (.deadJobsRemoved kind removed) : Thread Q ρ Unit) :=
        within_step fun s => logged_addRecord s _
      exact respects_within hnote fun s s' h hl => spares_logged h hl
    · exact respects_pure trivial

/-! ### Registration -/

/-- What is left of a registration once its job is a member. -/
def marking (own : Registry) (id : String) : Thread Q ρ (Except Fault Unit) :=
  .call (.setIfAbsent (Liveness.key id) Liveness.mark own.liveness.ttl) fun
    | .error f => .done (.error f)
    | .ok _ => .done (.ok ())

theorem run_register (own : Registry) (kind id : String) :
    ((own.running kind).register id).run =
      (.call (.setAdd (RunningSet.keyOf kind) id own.entryTtl) fun
        | .error f => .done (.error f)
        | .ok _ => own.marking id : Thread Q ρ (Except Fault Unit)) := by
  refine congrArg (Thread.call _) (funext fun r => ?_)
  rcases r with f | added
  · rfl
  · refine congrArg (Thread.call _) (funext fun r => ?_)
    rcases r with f | stored
    · rfl
    · rfl

/-- The registration has not written the liveness key yet. -/
def Unwritten (own : Registry) (id : String) (log : List (Made (Option ι))) : Prop :=
  ∀ t r, ⟨t, none, .setIfAbsent (Liveness.key id) Liveness.mark own.liveness.ttl, r⟩ ∉ log

/-- How far a registration has come. -/
inductive Progress (kind id : String) (own : Registry) (log : List (Made (Option ι))) (s : Machine) :
    Thread Q ρ (Except Fault Unit) → Prop
  | before (hw : Unwritten own id log) :
      Progress kind id own log s ((own.running kind).register id).run
  | between (hw : Unwritten own id log) (hm : id ∈ s.members kind) :
      Progress kind id own log s (own.marking id)
  | after (hm : id ∈ s.members kind) (hmark : s.Marked id) :
      Progress kind id own log s (.done (.ok ()))

variable {own : Registry} {log : List (Made (Option ι))} {x : Thread Q ρ (Except Fault Unit)}

theorem Progress.spared (h : Progress kind id own log s x) (hs : Spares kind id now fresh s s')
    {log' : List (Made (Option ι))} (hlog : Unwritten own id log → Unwritten own id log') :
    Progress kind id own log' s' x := by
  cases h with
  | before hw => exact .before (hlog hw)
  | between hw hm => exact .between (hlog hw) (hs.member hm)
  | after hm hmark => exact .after (hs.member hm) (hs.marked hm hmark)

theorem Unwritten.cons {made : Made (Option ι)} (h : Unwritten own id log)
    (hmade : ∀ t r, made ≠
      ⟨t, none, .setIfAbsent (Liveness.key id) Liveness.mark own.liveness.ttl, r⟩) :
    Unwritten own id (made :: log) := by
  intro t r hmem
  rcases List.mem_cons.mp hmem with he | hold
  · exact hmade t r he.symm
  · exact h t r hold

/-- Writing the liveness key of a member marks it, and leaves the running set alone. -/
theorem mark_spec (ht : Tended kind id now fresh s) (hm : id ∈ s.members kind)
    (hnano : now.nano < 2000000000) {ttl : Duration} (httl : 0 < ttl.nanos) :
    ∃ stored s', s.callStore (.setIfAbsent (Liveness.key id) Liveness.mark ttl) = (.ok stored, s') ∧
      Spares kind id now fresh s s' ∧ s'.Marked id := by
  obtain ⟨s', he, hstore, hquiet, hobserved⟩ :=
    callStore_spec ht.quiet (.setIfAbsent (Liveness.key id) Liveness.mark ttl)
  rcases s.store.call_setIfAbsent s.clock (Liveness.key id) Liveness.mark ttl with
    ⟨hfree, hc⟩ | ⟨slot, hl, hc⟩
  · rw [hc] at he hstore
    -- the running set is live, so its key is not the one that was free
    have hk : Liveness.key id ≠ RunningSet.keyOf kind := fun hk =>
      marked_of_member hm hk.symm hfree
    have hset : s'.store.live? s.clock (RunningSet.keyOf kind) =
        s.store.live? s.clock (RunningSet.keyOf kind) := by
      rw [hstore, MemoryStore.live?_insert, if_neg hk]
    have hmarked : s'.Marked id := by
      have halive : (Slot.ofToken Liveness.mark (s.clock.deadline? ttl)).isExpired s.clock = false :=
        MemoryStore.isExpired_ofToken.mpr fun d hd =>
          Instant.lt_of_deadline? (ht.clock ▸ hnano) httl hd
      rw [Marked, hobserved.clock, hstore, MemoryStore.live?_insert, if_pos rfl, halive]
      exact Option.some_ne_none _
    refine ⟨_, s', he, ⟨⟨hquiet, hobserved.clock.trans ht.clock, ?_⟩, fun _ => ?_, fun _ _ => hmarked⟩,
      hmarked⟩
    · refine ht.dated.of_live?_eq ?_
      rw [← ht.clock]
      exact hset
    · rw [Machine.members, hobserved.clock, MemoryStore.membersAt_of_live?_eq hset]
      exact hm
  · rw [hc] at he hstore
    have hspares : Spares kind id now fresh s s' := by
      refine .of_live?_eq ht hquiet hobserved.clock fun key => ?_
      rw [hstore]
    refine ⟨_, s', he, hspares, ?_⟩
    rw [Marked, hobserved.clock, hstore, hl]
    exact Option.some_ne_none _

/-- The two calls of a registration. -/
theorem Progress.call {c : StoreCall} {next : Except Fault c.Answer → Thread Q ρ (Except Fault Unit)}
    (h : Progress kind id own log s (.call c next)) (ht : Tended kind id now fresh s)
    (hnow : fresh now) (hnano : now.nano < 2000000000) (hentry : 0 < own.entryTtl.nanos)
    (hmark : 0 < own.liveness.ttl.nanos) :
    Tended kind id now fresh (s.callStore c).2 ∧
      Progress kind id own (⟨s.clock, none, c, (s.callStore c).1⟩ :: log) (s.callStore c).2
        (next (s.callStore c).1) := by
  obtain ⟨hanswer, hstore, hquiet⟩ := callStore_eq ht.quiet c
  have hclock := (observed_callStore s c).clock
  generalize hx : Thread.call c next = x at h
  cases h with
  | before hw =>
    rw [run_register] at hx
    cases hx
    have hdated := ht.dated
    rw [← ht.clock] at hdated hnow hnano
    obtain ⟨⟨added, ha⟩, hdated', hmember⟩ := hdated.setAdd hnow fun d hd =>
      Instant.lt_of_deadline? hnano hentry hd
    refine ⟨⟨hquiet, hclock.trans ht.clock, ?_⟩, ?_⟩
    · rw [hstore, ← ht.clock]
      exact hdated'
    · rw [hanswer, ha]
      refine .between (hw.cons fun t r he => ?_) ?_
      · cases congrArg Made.call he
      rw [(called_callStore s _).members ht.quiet]
      exact hmember
  | between hw hm =>
    cases hx
    obtain ⟨stored, s', he, hspares, hmarked⟩ := mark_spec ht hm hnano hmark
    rw [he]
    exact ⟨hspares.tended, .after (hspares.member hm) hmarked⟩
  | after hm hmark => cases hx

/-! ### Registration among clean-ups -/

variable {cleaner : ι → Registry} {threads : Option ι → Thread Q ρ (Except Fault Unit)}

/-- A job whose set and time are as told, a registration as far as it has come, and clean-ups that spare
the job while they find its key. -/
structure Inv (kind id : String) (own : Registry) (now : Instant) (fresh : Instant → Prop)
    (log : List (Made (Option ι))) (threads : Option ι → Thread Q ρ (Except Fault Unit))
    (s : Machine) : Prop where
  tended : Tended kind id now fresh s
  progress : Progress kind id own log s (threads none)
  lets : ∀ c, Lets kind id now fresh (threads (some c)) (Succeeds fun _ => True)

namespace Inv

/-- Once the registration has written the key, whoever looks it up finds it. -/
theorem findsMark (h : Inv kind id own now fresh log threads s) {who : ι} {c : StoreCall}
    (hseen : (⟨s.clock, some who, c, (s.callStore c).1⟩ : Made (Option ι)) =
      ⟨s.clock, some who, .get (Liveness.key id), .ok none⟩ → ¬ Unwritten own id log) :
    FindsMark id c (s.callStore c).1 := by
  cases c with
  | get key =>
    rintro rfl hnone
    have hwritten : ¬ Unwritten own id log := hseen (by rw [hnone])
    have hprogress := h.progress
    generalize threads none = x at hprogress
    cases hprogress with
    | before hw => exact hwritten hw
    | between hw hm => exact hwritten hw
    | after hm hmark => exact hmark (free_of_get h.tended.quiet hnone)
  | _ => exact trivial

end Inv

/-- The clean-ups that find the job's liveness key missing do so after the registration has written it. -/
def SeenOnceWritten (own : Registry) (id : String) (log : List (Made (Option ι))) : Prop :=
  ∀ later earlier t c, log = later ++ ⟨t, some c, .get (Liveness.key id), .ok none⟩ :: earlier →
    ¬ Unwritten own id earlier

theorem SeenOnceWritten.of_found (h : ∀ t c, ⟨t, some c, .get (Liveness.key id), .ok none⟩ ∉ log) :
    SeenOnceWritten own id log := by
  rintro later earlier t c rfl
  exact absurd (List.mem_append_right _ List.mem_cons_self) (h t c)

theorem SeenOnceWritten.earlier {made : Made (Option ι)}
    (h : SeenOnceWritten own id (made :: log)) : SeenOnceWritten own id log :=
  fun later earlier t c hlog => h (made :: later) earlier t c (congrArg _ hlog)

section

variable [DecidableEq ι] {starts : Machine → Prop} {elsewhere : Machine → Machine → Prop}

theorem Inv.cleaned (h : Inv kind id own now fresh log threads s) (hs : Spares kind id now fresh s s')
    {log' : List (Made (Option ι))} (hlog : Unwritten own id log → Unwritten own id log') {c : ι}
    (hx : Lets kind id now fresh x (Succeeds fun _ => True)) :
    Inv kind id own now fresh log' (Function.update threads (some c) x) s' := by
  refine ⟨hs.tended, ?_, fun other => ?_⟩
  · rw [Function.update_of_ne (Option.some_ne_none c).symm]
    exact h.progress.spared hs hlog
  · by_cases ho : other = c
    · subst ho
      rw [Function.update_self]
      exact hx
    · rw [Function.update_of_ne (by simpa using ho)]
      exact h.lets other

theorem inv_of_reconciling
    (h : Interleaved (reconciling kind id own cleaner) starts elsewhere log threads s)
    (hnow : fresh now) (hnano : now.nano < 2000000000) (hentry : 0 < own.entryTtl.nanos)
    (hmark : 0 < own.liveness.ttl.nanos)
    (hfresh : ∀ c t, fresh t → ∀ cutoff, now.back? (cleaner c).entryTtl = some cutoff → cutoff < t)
    (hstarts : ∀ s, starts s → Tended kind id now fresh s)
    (helsewhere : ∀ s s', elsewhere s s' → Tended kind id now fresh s → Spares kind id now fresh s s')
    (hseen : SeenOnceWritten own id log) : Inv kind id own now fresh log threads s := by
  induction h with
  | start hs =>
    refine ⟨hstarts _ hs, .before fun _ _ => List.not_mem_nil, fun c => ?_⟩
    exact (lets_cleanUp (cleaner c) (hfresh c)).run_bind fun _ _ => respects_pure trivial
  | @call log threads s who c next hr hw ih =>
    have hinv := ih hseen.earlier
    cases who with
    | none =>
      have hprogress := hinv.progress
      rw [hw] at hprogress
      obtain ⟨htended, hnext⟩ := hprogress.call hinv.tended hnow hnano hentry hmark
      refine ⟨htended, ?_, fun c => ?_⟩
      · rw [Function.update_self]
        exact hnext
      · rw [Function.update_of_ne (Option.some_ne_none c)]
        exact hinv.lets c
    | some who =>
      have hlets := hinv.lets who
      rw [hw] at hlets
      have hfinds := hinv.findsMark fun he => hseen [] log s.clock who (he ▸ rfl)
      obtain ⟨hspares, hnext⟩ := hlets s hinv.tended hfinds
      refine hinv.cleaned hspares (fun hu => hu.cons fun t r he => ?_) hnext
      cases congrArg Made.who he
  | @step log threads s who effect next hr hw ih =>
    have hinv := ih hseen
    cases who with
    | none =>
      have hprogress := hinv.progress
      rw [hw] at hprogress
      cases hprogress
    | some who =>
      have hlets := hinv.lets who
      rw [hw] at hlets
      obtain ⟨hspares, hnext⟩ := hlets s hinv.tended
      exact hinv.cleaned hspares (fun hu => hu) hnext
  | @answer log threads s who q next r hr hw ih =>
    have hinv := ih hseen
    cases who with
    | none =>
      have hprogress := hinv.progress
      rw [hw] at hprogress
      cases hprogress
    | some who =>
      have hlets := hinv.lets who
      rw [hw] at hlets
      refine hinv.cleaned ?_ (fun hu => hu) (hlets r)
      exact .of_live?_eq hinv.tended hinv.tended.quiet rfl fun _ => rfl
  | elsewhere hr he ih =>
    have hinv := ih hseen
    have hspares := helsewhere _ _ he hinv.tended
    exact ⟨hspares.tended, hinv.progress.spared hspares fun hu => hu, hinv.lets⟩

/-- A time to which no lifetime of members of these processes reaches back. -/
def Recent (cleaner : ι → Registry) (now t : Instant) : Prop :=
  ∀ c cutoff, now.back? (cleaner c).entryTtl = some cutoff → cutoff < t

/-- While time stands still and nobody takes the job out, a job whose registration has ended is a member
of the running set and marked as live, as long as no clean-up found its liveness key missing before the
registration wrote it. A member that is registered again must not be too old already. -/
theorem member_of_registered
    (h : Interleaved (reconciling kind id own cleaner) starts elsewhere log threads s)
    (hnano : now.nano < 2000000000) (hentry : 0 < own.entryTtl.nanos)
    (hmark : 0 < own.liveness.ttl.nanos) (hcleaners : ∀ c, 0 < (cleaner c).entryTtl.nanos)
    (hstarts : ∀ s, starts s → Tended kind id now (Recent cleaner now) s)
    (helsewhere : ∀ s s', elsewhere s s' → Tended kind id now (Recent cleaner now) s →
      Spares kind id now (Recent cleaner now) s s')
    (hseen : SeenOnceWritten own id log) :
    ∀ r, threads none = .done r → r = .ok () ∧ id ∈ s.members kind ∧ s.Marked id := by
  have hnow : Recent cleaner now now := fun c cutoff hb => Instant.lt_of_back? hnano (hcleaners c) hb
  have hinv := inv_of_reconciling h hnow hnano hentry hmark (fun c t ht => ht c) hstarts helsewhere
    hseen
  intro r hr
  have hprogress := hinv.progress
  rw [hr] at hprogress
  cases hprogress with
  | after hm hmarked => exact ⟨rfl, hm, hmarked⟩

end

/-- A clean-up lists the members between the two calls of a registration and looks the key up after
them. -/
theorem member_of_registered_of_two :
    let r : Registry := { entryTtl := ⟨5⟩, batchSize := 1, liveness := { ttl := ⟨5⟩ } }
    ∃ log threads s,
      Interleaved (reconciling "k" "a" r (fun _ : Unit => r) : _ → Thread Empty Empty _)
        (fun s => s = Machine.ofClock Instant.epoch) (fun _ _ => False) log threads s ∧
      (∀ who, threads who = .done (.ok ())) ∧ "a" ∈ s.members "k" := by
  intro r
  have h0 : Interleaved (reconciling "k" "a" r (fun _ : Unit => r) : _ → Thread Empty Empty _)
      (fun s => s = Machine.ofClock Instant.epoch) (fun _ _ => False) [] _ _ := .start rfl
  have h1 := h0.called none (run_register r "k" "a")
    (show Machine.callStore _ (.setAdd "k:running" "a" ⟨5⟩) = (.ok true, _) from rfl)
  have h2 := h1.called (some ()) rfl
    (show Machine.callStore _ (.setMembers "k:running") = (.ok [⟨"a", Instant.epoch⟩], _) by
      with_unfolding_all rfl)
  have h3 := h2.called none rfl
    (show Machine.callStore _ (.setIfAbsent "job_status:a" "1" ⟨5⟩) = (.ok true, _) from rfl)
  have h4 := h3.step (some ()) rfl
  have h5 := h4.called (some ()) (by with_unfolding_all rfl)
    (show Machine.callStore _ (.get "job_status:a") = (.ok (some "1"), _) from rfl)
  have hstarts (s : Machine) (hs : s = Machine.ofClock Instant.epoch) :
      Tended "k" "a" Instant.epoch (Recent (fun _ : Unit => r) Instant.epoch) s := by
    subst hs
    exact ⟨fun _ => rfl, rfl, nofun⟩
  refine ⟨_, _, _, h5, ?_, (member_of_registered h5 (by decide) (by decide) (by decide)
    (fun _ => by decide) hstarts (fun _ _ hf => hf.elim) (.of_found ?_) _ rfl).2.1⟩
  · rintro (_ | _)
    · rfl
    · with_unfolding_all rfl
  · intro t c hmem
    simp only [List.mem_cons, List.not_mem_nil, or_false] at hmem
    -- the one look-up found the key
    rcases hmem with he | he | he | he <;> cases he

/-- A whole clean-up between the two calls of a registration: the job is marked as live, and it is not
among the running jobs. -/
theorem lost_between_calls :
    let r : Registry := { entryTtl := ⟨5⟩, batchSize := 1, liveness := { ttl := ⟨5⟩ } }
    ∃ log threads s,
      Interleaved (reconciling "k" "a" r (fun _ : Unit => r) : _ → Thread Empty Empty _)
        (fun s => s = Machine.ofClock Instant.epoch) (fun _ _ => False) log threads s ∧
      (∀ who, threads who = .done (.ok ())) ∧ "a" ∉ s.members "k" ∧ s.Marked "a" := by
  intro r
  have h0 : Interleaved (reconciling "k" "a" r (fun _ : Unit => r) : _ → Thread Empty Empty _)
      (fun s => s = Machine.ofClock Instant.epoch) (fun _ _ => False) [] _ _ := .start rfl
  have h1 := h0.called none (run_register r "k" "a")
    (show Machine.callStore _ (.setAdd "k:running" "a" ⟨5⟩) = (.ok true, _) from rfl)
  have h2 := h1.called (some ()) rfl
    (show Machine.callStore _ (.setMembers "k:running") = (.ok [⟨"a", Instant.epoch⟩], _) by
      with_unfolding_all rfl)
  have h3 := h2.step (some ()) rfl
  have h4 := h3.called (some ()) (by with_unfolding_all rfl)
    (show Machine.callStore _ (.get "job_status:a") = (.ok none, _) from rfl)
  have h5 := h4.called (some ()) (by with_unfolding_all rfl)
    (show Machine.callStore _ (.setRemove "k:running" ["a"]) = (.ok 1, _) from rfl)
  have h6 := h5.step (some ()) (by with_unfolding_all rfl)
  have h7 := h6.called none rfl
    (show Machine.callStore _ (.setIfAbsent "job_status:a" "1" ⟨5⟩) = (.ok true, _) from rfl)
  refine ⟨_, _, _, h7, ?_, by decide, by unfold Marked; decide⟩
  rintro (_ | _)
  · rfl
  · with_unfolding_all rfl

end Registry

end Turnstile
