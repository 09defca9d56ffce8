import Turnstile.Proofs.Job.CleanUp
import Turnstile.Proofs.Simulation.Marks
import Turnstile.Proofs.Worker.Deeds

/-!
# What a worker leaves behind

On a machine whose calls do not fail, a worker that was given a job leaves the running set without that
job and otherwise as it was, on every path: after a success, a failure, a panic, and when there was no
room for the job.
-/

namespace Turnstile

open Thread IdealEntry

/-! ### Counters -/

namespace MetricValues

variable {κ : Type} [DecidableEq κ]

theorem valueAt?_bump (key key' : κ) (entries : List (κ × Nat)) :
    valueAt? key' (bump key entries) =
      if key = key' then some ((valueAt? key entries).getD 0 + 1) else valueAt? key' entries := by
  induction entries with
  | nil =>
    by_cases h : key = key' <;> simp [bump, valueAt?, h]
  | cons e rest ih =>
    obtain ⟨k, n⟩ := e
    simp only [valueAt?] at ih
    by_cases hk : k = key
    · subst hk
      by_cases h : k = key' <;> simp [bump, valueAt?, h]
    · by_cases hk' : k = key'
      · subst hk'
        simp [bump, valueAt?, hk, Ne.symm hk]
      · simp [bump, valueAt?, hk, hk', ih]

theorem count_add_of_ne {t t' : Tally} (m : MetricValues) (h : t'.series ≠ t.series) :
    (m.add t').count t = m.count t := by
  unfold add count
  cases t'.isObservation <;> cases t.isObservation <;> simp [valueAt?_bump, h]

theorem count_add_self {t : Tally} (m : MetricValues) : (m.add t).count t = m.count t + 1 := by
  unfold add count
  cases t.isObservation <;> simp [valueAt?_bump]

end MetricValues

namespace Machine

variable {s : Machine} {kind : String}

/-- How many jobs of a kind have been skipped. -/
def skips (s : Machine) (kind : String) : Nat := s.metrics.count (.capacitySkip kind)

theorem skips_addTally {t : Tally} (s : Machine) (h : ∀ kind, t ≠ .capacitySkip kind) :
    (s.addTally t).skips kind = s.skips kind := by
  refine s.metrics.count_add_of_ne fun he => ?_
  have hname := congrArg Series.name he
  cases t with
  | capacitySkip other => exact h other rfl
  | _ => exact absurd hname (by simp [Tally.series, Tally.durationName])

theorem skips_countFault {α : Type} (s : Machine) (r : Except Fault α) :
    (s.countFault r).skips kind = s.skips kind := by
  cases r with
  | ok a => rfl
  | error f => exact s.skips_addTally (t := .fault f.code) nofun

theorem skips_callStore (s : Machine) (c : StoreCall) :
    (s.callStore c).2.skips kind = s.skips kind := by
  have hn : (s.noteCall (.store c)).2.skips kind = s.skips kind := rfl
  unfold Machine.callStore
  rcases hc : s.noteCall (.store c) with ⟨_ | _ | f, s'⟩ <;> rw [hc] at hn
  · exact (skips_countFault { s' with store := _ } _).trans hn
  · exact hn
  · exact (s'.skips_addTally (t := .fault f.code) nofun).trans hn

end Machine

/-! ### What happens aside -/

open Machine

variable {α : Type} {h : Host Demand Response} {t : Scene Demand Response} {p : Station}
  {id : String} {ids : List String} {args : List Json} {s s' s'' : Machine} {c : StoreCall}

namespace Station

/-- What may happen without a change to the running set or the queue. No job is marked but those
listed. -/
structure Aside (p : Station) (ids : List String) (s s' : Machine) : Prop where
  clock : s'.clock = s.clock
  queue : s'.queue = s.queue
  issued : s.issued ≤ s'.issued
  skips : s'.skips p.kind = s.skips p.kind
  quiet : s.Quiet → s'.Quiet
  listed : s.Quiet → s.store.Listed → s'.store.Listed
  running : s.Quiet → s'.store.view s.clock p.key = s.store.view s.clock p.key
  marks : s.Quiet → ∀ id, id ∉ ids → s'.Marked id → s.Marked id

theorem aside_addRecord (s : Machine) (r : JournalRecord) : p.Aside [] s (s.addRecord r) :=
  ⟨rfl, rfl, Nat.le_refl _, rfl, id, fun _ => id, fun _ => rfl, fun _ _ _ => id⟩

theorem aside_addTally (s : Machine) {c : Tally}
    (hc : ∀ kind, c ≠ .capacitySkip kind) : p.Aside [] s (s.addTally c) :=
  ⟨rfl, rfl, Nat.le_refl _, s.skips_addTally hc, id, fun _ => id, fun _ => rfl, fun _ _ _ => id⟩

theorem listed_callStore (hq : s.Quiet) (hl : s.store.Listed) (c : StoreCall) :
    (s.callStore c).2.store.Listed := by
  rw [(callStore_eq hq c).2.1]
  exact MemoryStore.listed_call hl s.clock c

theorem aside_read (hc : c.Reads) (s : Machine) : p.Aside [] s (s.callStore c).2 := by
  have hcalled := called_callStore s c
  refine ⟨hcalled.clock, hcalled.queue, hcalled.issued.ge, skips_callStore s c, hcalled.quiet,
    fun hq hl => listed_callStore hq hl c, fun hq => ?_, fun hq id _ hm => ?_⟩
  · rw [hcalled.store hq, MemoryStore.view_call_of_reads hc]
  · exact hcalled.marked_of_frees hq (StoreCall.frees_of_reads hc) hm

theorem aside_status (hid : Generated id) (hc : c.key = Liveness.key id) (s : Machine) :
    p.Aside [id] s (s.callStore c).2 := by
  have hcalled := called_callStore s c
  refine ⟨hcalled.clock, hcalled.queue, hcalled.issued.ge, skips_callStore s c, hcalled.quiet,
    fun hq hl => listed_callStore hq hl c, fun hq => ?_, fun hq id' hid' hm => ?_⟩
  · have hne : c.key ≠ p.key := by
      rw [hc]
      exact (hid.keyOf_ne p.kind).symm
    rw [hcalled.store hq]
    exact congrArg _ (MemoryStore.call_live?_ne c hne)
  · refine hcalled.marked_of_ne hq (fun hk => hid' ?_) hm
    rw [livenessKey_inj (hc.symm.trans hk)]
    exact List.mem_singleton_self _

/-- The job that a worker submits under the name of a number. -/
def further [Names] (p : Station) (args : List Json) (n : Nat) : Job :=
  Job.create p.kind args (jobIdOf n)

end Station

/-! ### What is known of a machine -/

/-- What is known of a machine at which a worker is given a job. -/
structure Ledger where
  clock : Instant
  running : Finset SetMember
  /-- Whether the job may have a status key. -/
  marked : Prop
  queue : Queue
  /-- How many names had been given out at the least. -/
  issued : Nat
  skips : Nat

namespace Ledger

/-- What is known once a job has been taken out. -/
def without (g : Ledger) (p : Station) (id : String) : Ledger :=
  { g with running := g.running.filter fun x => x.member ≠ id, marked := p.probe = none ∧ g.marked }

/-- What is known once the job under the name of a number is ready. -/
def joined [Names] (g : Ledger) (p : Station) (id : String) (args : List Json) (n : Nat) : Ledger :=
  { g with queue := g.queue.pushReady ((p.further args n).stamped g.clock),
           marked := g.marked ∨ jobIdOf n = id }

end Ledger

structure Ledger.Holds (g : Ledger) (p : Station) (id : String) (s : Machine) : Prop where
  quiet : s.Quiet
  listed : s.store.Listed
  clock : s.clock = g.clock
  running : ∃ d, s.store.view g.clock p.key = ofSet? g.running d
  marked : s.Marked id → g.marked
  queue : s.queue = g.queue
  issued : g.issued ≤ s.issued
  skips : s.skips p.kind = g.skips

namespace Ledger.Holds

variable {g : Ledger}

theorem aside (hg : g.Holds p id s) (ha : p.Aside ids s s') (hid : id ∈ ids → g.marked) :
    g.Holds p id s' := by
  have hrunning := ha.running hg.quiet
  rw [hg.clock] at hrunning
  refine ⟨ha.quiet hg.quiet, ha.listed hg.quiet hg.listed, ha.clock.trans hg.clock, ?_, fun hm => ?_,
    ha.queue.trans hg.queue, hg.issued.trans ha.issued, ha.skips.trans hg.skips⟩
  · rw [hrunning]
    exact hg.running
  · by_cases hmem : id ∈ ids
    · exact hid hmem
    · exact hg.marked (ha.marks hg.quiet id hmem hm)

theorem beside (hg : g.Holds p id s) (ha : p.Aside [] s s') : g.Holds p id s' := hg.aside ha nofun

theorem counted (hg : g.Holds p id s) : p.counting s = .ok g.running.card := by
  obtain ⟨d, hd⟩ := hg.running
  unfold Station.counting
  rw [(callStore_eq hg.quiet _).1, hg.clock]
  exact RunningSet.call_setCount hg.listed hd

/-- A call on the running set changes that set only. -/
theorem called (hg : g.Holds p id s) (hid : Generated id) (hc : c.key = p.key)
    {members : Finset SetMember} {e : Option Instant}
    (he : (respond g.clock (s.store.view g.clock p.key) c).2.filter (fun e => e.isLive g.clock) =
      ofSet? members e) : { g with running := members }.Holds p id (s.callStore c).2 := by
  have hcalled := called_callStore s c
  refine ⟨hcalled.quiet hg.quiet, Station.listed_callStore hg.quiet hg.listed c,
    hcalled.clock.trans hg.clock, ⟨e, ?_⟩, fun hm => hg.marked ?_, hcalled.queue.trans hg.queue,
    hg.issued.trans hcalled.issued.ge, (skips_callStore s c).trans hg.skips⟩
  · have hview : (s.store.call g.clock c).2.view g.clock c.key = _ :=
      MemoryStore.view_call_self hg.listed c
    rw [hc, he] at hview
    rw [hcalled.store hg.quiet, hg.clock, hview]
  · refine hcalled.marked_of_ne hg.quiet ?_ hm
    rw [hc]
    exact hid.keyOf_ne p.kind

theorem skipped (hg : g.Holds p id s) : { g with skips := g.skips + 1 }.Holds p id
    (s.addTally (.capacitySkip p.kind)) := by
  refine { hg with skips := ?_ }
  rw [← hg.skips]
  exact s.metrics.count_add_self

theorem registered (hg : g.Holds p id s) (hid : Generated id) {ttl : Duration} (httl : 0 < ttl.nanos)
    (hnano : g.clock.nano < 2000000000) :
    { g with running := adding g.running id g.clock }.Holds p id
      (s.callStore (.setAdd p.key id ttl)).2 := by
  obtain ⟨d, hd⟩ := hg.running
  refine hg.called (c := .setAdd p.key id ttl) hid rfl (e := g.clock.deadline? ttl) ?_
  have hne : adding g.running id g.clock ≠ ∅ := by
    unfold adding
    split
    · next hhas =>
      obtain ⟨x, hx, -⟩ := hhas
      exact Finset.ne_empty_of_mem hx
    · exact Finset.insert_ne_empty _ _
  have hadd : (respond g.clock (ofSet? g.running d) (.setAdd p.key id ttl)).2 =
      ofSet? (adding g.running id g.clock) (g.clock.deadline? ttl) := by
    rw [ofSet?, ofSet?, if_neg hne]
    split
    · next hempty =>
      rw [hempty]
      rfl
    · rfl
  rw [hd, hadd, ofSet?, if_neg hne, Option.filter_eq_some_iff]
  refine ⟨rfl, ?_⟩
  simp only [IdealEntry.isLive]
  cases hdeadline : g.clock.deadline? ttl with
  | none => rfl
  | some u => exact decide_eq_true (Instant.lt_of_deadline? hnano httl hdeadline)

theorem removed (hg : g.Holds p id s) (hid : Generated id) :
    (∃ n, (s.callStore (.setRemove p.key [id])).1 = .ok n) ∧
      { g with running := g.running.filter fun x => x.member ≠ id }.Holds p id
        (s.callStore (.setRemove p.key [id])).2 := by
  obtain ⟨d, hd⟩ := hg.running
  have hlive := MemoryStore.filter_view s.store g.clock p.key
  have hrest : g.running \ among g.running [id] = g.running.filter fun x => x.member ≠ id := by
    ext x
    simp only [among, List.mem_singleton, Finset.mem_sdiff, Finset.mem_filter]
    tauto
  constructor
  · refine ⟨(among g.running [id]).card, (callStore_eq hg.quiet _).1.trans ?_⟩
    rw [MemoryStore.answer_eq hg.listed, hg.clock]
    simp only [StoreCall.key]
    rw [hd, respond_setRemove]
  · refine hg.called (c := .setRemove p.key [id]) hid rfl (e := d) ?_
    rw [hd] at hlive ⊢
    rw [respond_setRemove, filter_ofSet? Finset.sdiff_subset hlive, hrest]

theorem unmarked (hg : g.Holds p id s) (hid : Generated id) :
    { g with marked := False }.Holds p id (s.callStore (.delete (Liveness.key id))).2 := by
  have ha : p.Aside [id] s (s.callStore (.delete (Liveness.key id))).2 :=
    Station.aside_status hid rfl s
  have h' := { hg with marked := fun _ => trivial : { g with marked := True }.Holds p id s }.aside ha
    fun _ => trivial
  refine { h' with marked := fun hm => ?_ }
  refine ((called_callStore s _).marked hg.quiet).mp hm ?_
  exact MemoryStore.live?_erase.trans (if_pos rfl)

end Ledger.Holds

/-! ### Steps of a worker -/

namespace Station

instance : IsPreorder Machine (p.Aside ids) where
  refl _ := ⟨rfl, rfl, Nat.le_refl _, rfl, fun hq => hq, fun _ hl => hl, fun _ => rfl,
    fun _ _ _ hm => hm⟩
  trans _ _ _ ha hb := by
    refine ⟨hb.clock.trans ha.clock, hb.queue.trans ha.queue, ha.issued.trans hb.issued,
      hb.skips.trans ha.skips, fun hq => hb.quiet (ha.quiet hq), fun hq hl => ?_, fun hq => ?_,
      fun hq id hid hm => ?_⟩
    · exact hb.listed (ha.quiet hq) (ha.listed hq hl)
    · have hrunning := hb.running (ha.quiet hq)
      rw [ha.clock] at hrunning
      exact hrunning.trans (ha.running hq)
    · exact ha.marks hq id hid (hb.marks (ha.quiet hq) id hid hm)

theorem Aside.mono {more : List String} (ha : p.Aside ids s s') (hi : ids ⊆ more) :
    p.Aside more s s' := { ha with marks := fun hq id hid => ha.marks hq id fun hmem => hid (hi hmem) }

/-- Nothing was done that matters to others, or to the running set. -/
structure Unseen (p : Station) (ids : List String) (t t' : Scene Demand Response) : Prop where
  deeds : t'.deeds = t.deeds
  aside : p.Aside ids t.machine t'.machine

instance : IsPreorder (Scene Demand Response) (p.Unseen ids) where
  refl t := ⟨rfl, refl_of (p.Aside ids) t.machine⟩
  trans _ _ _ ha hb := ⟨hb.deeds.trans ha.deeds, trans_of (p.Aside ids) ha.aside hb.aside⟩

theorem unseen_status (hid : Generated id) (t : Scene Demand Response)
    (c : StoreCall) (hc : StoreCall.OfStatus id c) : p.Unseen [id] t (t.called c) :=
  ⟨t.silent_called hc.deed?, aside_status hid hc.key t.machine⟩

theorem unseen_record (t : Scene Demand Response) (r : JournalRecord) :
    p.Unseen ids t { t with machine := t.machine.addRecord r } :=
  ⟨rfl, (aside_addRecord t.machine r).mono (List.nil_subset _)⟩

variable {g : Ledger}

theorem yields_count_holds (hg : g.Holds p id t.machine) : Yields h p.worker.runningCount (fun n t' =>
    n = g.running.card ∧ t'.deeds = t.deeds ++ [.counted p.key (.ok g.running.card)] ∧
      g.Holds p id t'.machine) t := by
  have hdeeds := t.deeds_called (.setCount p.key)
  have hcounted := hg.counted
  unfold counting at hcounted
  have hg' := hg.beside (aside_read (p := p) (c := .setCount p.key) trivial t.machine)
  refine yields_orNote (yields_callStore (c := .setCount p.key) ?_)
  rw [hcounted] at hdeeds ⊢
  exact ⟨rfl, hdeeds, hg'⟩

theorem yields_hasCapacity_holds (hg : g.Holds p id t.machine) (hcard : g.running.card < 2 ^ 63) :
    Yields h p.worker.hasCapacity (fun room t' => (room = true ↔ (g.running.card : Int) < p.most) ∧
      t'.deeds = t.deeds ++ [.counted p.key (.ok g.running.card)] ∧ g.Holds p id t'.machine) t := by
  refine yields_bind (yields_pure (a := p.most) ?_)
  refine yields_bind ((yields_count_holds hg).mono ?_)
  rintro _ t₁ ⟨rfl, h₁, hg₁⟩
  refine yields_pure ⟨?_, h₁, hg₁⟩
  rw [decide_eq_true_iff, Worker.signed_of_lt hcard]
  exact Int.sub_pos

theorem yields_register_holds (hg : g.Holds p id t.machine) (hid : Generated id) (hm : g.marked)
    (httl : 0 < p.entryTtl.nanos) (hnano : g.clock.nano < 2000000000) :
    Yields h (p.worker.registerRunning id) (fun _ t' => t'.deeds = t.deeds ∧
      { g with running := adding g.running id g.clock }.Holds p id t'.machine) t := by
  have hregister : Yields h (p.worker.running.register id).run (fun _ t' =>
      p.Unseen [id] (t.called (.setAdd p.key id p.entryTtl)) t') t := by
    refine yields_call_leaves fun _ => ?_
    cases hp : p.probe with
    | none =>
      simp only [worker, running, hp]
      exact leaves_pure _
    | some l =>
      simp only [worker, running, hp]
      exact l.leaves_started (unseen_status hid)
  have hg' := hg.registered hid httl hnano
  have hsilent := t.silent_called (c := .setAdd p.key id p.entryTtl) fun _ => rfl
  refine yields_orNote (hregister.mono ?_)
  rintro (f | a) t' hu
  · exact ⟨hu.deeds.trans hsilent, (hg'.aside hu.aside fun _ => hm).beside (aside_addRecord _ _)⟩
  · exact ⟨hu.deeds.trans hsilent, hg'.aside hu.aside fun _ => hm⟩

theorem yields_remove_holds (hg : g.Holds p id t.machine) (hid : Generated id) :
    Yields h (p.worker.removeRunning id) (fun _ t' =>
      t'.deeds = t.deeds ++ [.removed p.key [id]] ∧ (g.without p id).Holds p id t'.machine) t := by
  have hdeeds := t.deeds_called (.setRemove p.key [id])
  obtain ⟨⟨n, hn⟩, hg'⟩ := hg.removed hid
  refine yields_orNote (yields_run_bind (yields_callStore (c := .setRemove p.key [id]) ?_))
  rw [hn] at hdeeds ⊢
  cases hp : p.probe with
  | none =>
    simp only [worker, running, hp]
    exact ⟨hdeeds, { hg' with marked := fun hm => ⟨hp, hg'.marked hm⟩ }⟩
  | some l =>
    have hg'' := hg'.unmarked hid
    simp only [worker, running, hp]
    refine yields_run_bind (yields_callStore (c := .delete (Liveness.key id)) ?_)
    have hsilent := (t.called (.setRemove p.key [id])).silent_called
      (c := .delete (Liveness.key id)) fun _ => rfl
    have hwithout {s : Machine} (hs : { g with
        running := g.running.filter fun x => x.member ≠ id, marked := False }.Holds p id s) :
        (g.without p id).Holds p id s := { hs with marked := fun hm => (hs.marked hm).elim }
    rcases ((t.called (.setRemove p.key [id])).machine.callStore (.delete (Liveness.key id))).1 with
      f | deleted
    · exact ⟨hsilent.trans hdeeds, hwithout (hg''.beside (aside_addRecord _ _))⟩
    · exact ⟨hsilent.trans hdeeds, hwithout hg''⟩

/-- A host that leaves the running set and the queue alone. Only the work may mark the job. -/
def Served (p : Station) (id : String) (h : Host Demand Response) : Prop :=
  ∀ t q, ∃ ids, p.Aside ids t.machine (h t q).2 ∧ (id ∈ ids → ∃ args, q = .work args)

theorem Served.holds {q : Demand} (hh : p.Served id h) (hg : g.Holds p id t.machine)
    (hq : ∀ args, q = .work args → g.marked) : g.Holds p id (t.asked h q).machine := by
  obtain ⟨ids, ha, hid⟩ := hh t q
  refine hg.aside ha fun hmem => ?_
  obtain ⟨args, he⟩ := hid hmem
  exact hq args he

theorem yields_work_holds (hh : p.Served id h) (hg : g.Holds p id t.machine) (hm : g.marked) :
    Yields h (p.worker.load.work args) (fun ended t' =>
      t'.deeds = t.deeds ++ [.worked args t.machine ended t'.machine] ∧ g.Holds p id t'.machine) t := by
  have hwork : Yields h (p.worker.load.work args) (fun _ t' => g.Holds p id t'.machine) t :=
    yields_bind (yields_ask (yields_pure (hh.holds hg fun _ _ => hm)))
  exact ⟨yields_work, hwork⟩

theorem yields_remaining_holds (hh : p.Served id h) (hg : g.Holds p id t.machine) :
    Yields h (p.worker.load.remaining args) (fun left t' =>
      t'.deeds = t.deeds ++ [.surveyed args left] ∧ g.Holds p id t'.machine) t := by
  have hremaining : Yields h (p.worker.load.remaining args) (fun _ t' => g.Holds p id t'.machine) t :=
    yields_bind (yields_ask (yields_pure (hh.holds hg nofun)))
  exact ⟨yields_remaining, hremaining⟩

theorem yields_setGauge_holds {series : Series} {value : Double} (hh : p.Served id h)
    (hg : g.Holds p id t.machine) :
    Yields h (p.worker.setGauge series value) (fun _ t' => g.Holds p id t'.machine) t :=
  yields_bind (yields_ask (yields_pure (hh.holds hg nofun)))

theorem yields_report_holds (hh : p.Served id h) (hg : g.Holds p id t.machine) :
    Yields h (p.worker.reportMetrics args) (fun _ t' =>
      (∃ left, t'.deeds = t.deeds ++ p.report args (.ok g.running.card) left) ∧
        g.Holds p id t'.machine) t := by
  have hdeeds : Yields h (p.worker.reportMetrics args) _ t := yields_reportMetrics
  rw [hg.counted] at hdeeds
  have hholds : Yields h (p.worker.reportMetrics args) (fun _ t' => g.Holds p id t'.machine) t := by
    refine yields_bind ((yields_count_holds hg).mono ?_)
    rintro running t₁ ⟨rfl, -, h₁⟩
    refine yields_bind ((yields_remaining_holds hh h₁).mono ?_)
    rintro left t₂ ⟨-, h₂⟩
    refine yields_bind ((yields_setGauge_holds hh h₂).mono fun _ t₃ h₃ => ?_)
    refine yields_bind (yields_pure (a := p.most) ?_)
    refine yields_bind ((yields_setGauge_holds hh h₃).mono fun _ t₄ h₄ => ?_)
    exact yields_setGauge_holds hh h₄
  exact ⟨hdeeds, hholds⟩

theorem yields_wrapUp_holds (hh : p.Served id h) (hg : g.Holds p id t.machine) (hid : Generated id) :
    Yields h (p.worker.removeRunning id >>= fun _ => p.worker.reportMetrics args) (fun _ t' =>
      (∃ left, t'.deeds = t.deeds ++
        p.wrapUp id args (.ok (g.running.filter fun x => x.member ≠ id).card) left) ∧
        (g.without p id).Holds p id t'.machine) t := by
  refine yields_bind ((yields_remove_holds hg hid).mono ?_)
  rintro _ t₁ ⟨h₁, hg₁⟩
  refine (yields_report_holds hh hg₁).mono ?_
  rintro _ t₂ ⟨⟨left, h₂⟩, hg₂⟩
  refine ⟨⟨left, ?_⟩, hg₂⟩
  rw [h₂, h₁, List.append_assoc]
  rfl

/-! ### Further jobs -/

section

variable [Names] [LawfulNames]

/-- What has become of so many units of work that were left after a success. -/
def Requeued (p : Station) (id : String) (args : List Json) (g : Ledger) (left : Nat) (s : Machine) :
    Prop :=
  if left = 0 then g.Holds p id s
  else ∃ n, g.issued ≤ n ∧ n < s.issued ∧ (g.joined p id args n).Holds p id s

theorem yields_push_holds {n : Nat} (hg : g.Holds p id t.machine) : Yields h
    (p.transport.push (p.further args n) : Thread Demand Response String) (fun _ t' =>
      t'.deeds = t.deeds ∧ t.machine.issued ≤ t'.machine.issued ∧
        (g.joined p id args n).Holds p id t'.machine) t := by
  refine (p.transport.yields_push (unseen_status (p := p) (generated_jobIdOf n))
    unseen_record).mono ?_
  rintro _ _ ⟨t₁, hu, rfl⟩
  have hg' : { g with marked := g.marked ∨ jobIdOf n = id }.Holds p id t₁.machine := by
    refine Ledger.Holds.aside { hg with marked := fun hm => Or.inl (hg.marked hm) } hu.aside fun hmem => ?_
    exact Or.inr (List.mem_singleton.mp hmem).symm
  refine ⟨hu.deeds, hu.aside.issued, { hg' with queue := ?_ }⟩
  change t₁.machine.queue.pushReady _ = g.queue.pushReady _
  rw [hg'.queue, hg.clock]
  rfl

theorem yields_reEnqueue_holds (hh : p.Served id h) (hg : g.Holds p id t.machine) :
    Yields h (p.worker.reEnqueue args).run (fun r t' => ∃ left,
      t'.deeds = t.deeds ++ [.surveyed args left] ∧ r = .ok (decide (left ≠ 0)) ∧
        p.Requeued id args g left t'.machine) t := by
  rw [Worker.reEnqueue_run]
  refine yields_bind ((yields_remaining_holds hh hg).mono ?_)
  rintro left t₁ ⟨h₁, hg₁⟩
  split
  · next hnone =>
    refine yields_pure ⟨left, h₁, by simp [hnone], ?_⟩
    rw [Requeued, if_pos hnone]
    exact hg₁
  · next hsome =>
    refine yields_bind (yields_step ?_)
    have hissued : p.Aside [] t₁.machine { t₁.machine with issued := t₁.machine.issued + 1 } :=
      ⟨rfl, rfl, Nat.le_succ _, rfl, fun hq => hq, fun _ hl => hl, fun _ => rfl, fun _ _ _ hm => hm⟩
    refine yields_run_lift ((yields_push_holds (hg₁.beside hissued)).mono ?_)
    rintro _ t₂ ⟨h₂, hn, hg₂⟩
    refine yields_run_pure ⟨left, h₂.trans h₁, by simp [hsome], ?_⟩
    rw [Requeued, if_neg hsome]
    exact ⟨t₁.machine.issued, hg₁.issued, hn, hg₂⟩

theorem yields_conclude_holds (hh : p.Served id h) (hg : g.Holds p id t.machine) (ended : WorkEnd) :
    Yields h (p.worker.conclude id args ended).run (fun r t' => ∃ again : Option Nat,
      (again.isSome = true ↔ ended = .succeeded) ∧
        t'.deeds = t.deeds ++ (again.map (Deed.surveyed args)).toList ∧
        r = p.outcome id again ended ∧ p.Requeued id args g (again.getD 0) t'.machine) t := by
  have hnil : t.deeds = t.deeds ++ ((none : Option Nat).map (Deed.surveyed args)).toList :=
    (List.append_nil _).symm
  cases ended with
  | succeeded =>
    refine yields_run_bind ((yields_reEnqueue_holds hh hg).mono ?_)
    rintro _ t₁ ⟨left, h₁, rfl, hr⟩
    exact yields_run_pure ⟨some left, iff_of_true rfl rfl, h₁, rfl, hr⟩
  | failed e =>
    unfold Worker.conclude
    simp only [run_bind_liftM]
    refine yields_bind (yields_tally (yields_bind (yields_note (yields_pure
      ⟨none, iff_of_false nofun nofun, hnil, rfl, ?_⟩))))
    exact (hg.beside (aside_addTally (c := .fault _) _ nofun)).beside (aside_addRecord _ _)
  | panicked => exact yields_pure ⟨none, iff_of_false nofun nofun, hnil, rfl, hg⟩

end

/-! ### One job -/

theorem yields_finish_holds (hh : p.Served id h) (hg : g.Holds p id t.machine) (hid : Generated id)
    (ended : WorkEnd) : Yields h (p.worker.finish id args ended) (fun _ t' =>
      (∃ left, t'.deeds = t.deeds ++
        p.wrapUp id args (.ok (g.running.filter fun x => x.member ≠ id).card) left) ∧
        (g.without p id).Holds p id t'.machine) t := by
  refine yields_bind (yields_tally (yields_wrapUp_holds hh ?_ hid))
  exact hg.beside (aside_addTally (c := .jobFinished _ _) _ nofun)

theorem yields_skip_holds (hh : p.Served id h) (hg : g.Holds p id t.machine) (hid : Generated id) :
    Yields h (p.worker.skip id args) (fun _ t' =>
      (∃ left, t'.deeds = t.deeds ++
        p.wrapUp id args (.ok (g.running.filter fun x => x.member ≠ id).card) left) ∧
        ({ g with skips := g.skips + 1 }.without p id).Holds p id t'.machine) t := by
  refine yields_bind (yields_note (yields_bind (yields_tally ?_)))
  refine yields_wrapUp_holds (g := { g with skips := g.skips + 1 }) hh ?_ hid
  exact (hg.beside (aside_addRecord _ _)).skipped

def Runs (p : Station) (id : String) (s : Machine) : Prop :=
  ∃ members d, s.store.view s.clock p.key = some ⟨.set members, d⟩ ∧ Has members id

/-- What a worker leaves of a machine with the running jobs `M`, once a job was `skipped` so many times
and so many units of work were left after a success. -/
structure Tidy [Names] (p : Station) (id : String) (args : List Json) (s : Machine)
    (M : Finset SetMember) (skipped left : Nat) (s' : Machine) : Prop where
  /-- All other jobs are still in the running set, each with its time. -/
  running : ∃ d, s'.store.view s'.clock p.key = ofSet? (M.filter fun x => x.member ≠ id) d
  /-- The job has no status key, unless its id was given out once more. -/
  unmarked : p.probe.isSome = true →
    (∀ n, s.issued ≤ n → n < s'.issued → jobIdOf n ≠ id) → ¬ s'.Marked id
  skips : s'.skips p.kind = s.skips p.kind + skipped
  /-- One more job is ready if work was left after a success, and none otherwise. -/
  queue : if left = 0 then s'.queue = s.queue
    else ∃ n, s.issued ≤ n ∧ n < s'.issued ∧
      s'.queue = s.queue.pushReady ((p.further args n).stamped s.clock)

/-- What a worker has done with a job, and what it leaves behind. The work is a stint, if it was done;
`left` and `again` tell what was left at the report and, after a success, once more. -/
structure Keeps [Names] (p : Station) (id : String) (args : List Json) (s : Machine)
    (M : Finset SetMember) (stint : Option Stint) (left : Nat) (again : Option Nat)
    (r : Except Halt WorkerOutcome) (t : Scene Demand Response) : Prop
    extends p.Tidy id args s M (if stint.isSome then 0 else 1) (again.getD 0) t.machine where
  /-- The work is done if fewer jobs run than may, and only then. -/
  work : stint.isSome = true ↔ (M.card : Int) < p.most
  inside : ∀ w, stint = some w → p.Runs id w.before ∧ p.Runs id w.after
  surveyed : again.isSome = true ↔ ∃ w, stint = some w ∧ w.ended = .succeeded
  /-- In particular the work is done once at most, and each gauge is set once. -/
  deeds : t.deeds = .counted p.key (.ok M.card) :: (stint.map (Stint.deed args)).toList ++
    p.wrapUp id args (.ok (M.filter fun x => x.member ≠ id).card) left ++
      (again.map (Deed.surveyed args)).toList
  outcome : r = stint.elim (.ok .skipped) fun w => p.outcome id again w.ended

theorem Requeued.tidy [Names] {M : Finset SetMember} {skipped left : Nat}
    (hr : p.Requeued id args (g.without p id) left s') (hclock : g.clock = s.clock)
    (hqueue : g.queue = s.queue) (hissued : g.issued = s.issued)
    (hskips : g.skips = s.skips p.kind + skipped)
    (hM : (g.running.filter fun x => x.member ≠ id) = M.filter fun x => x.member ≠ id) :
    p.Tidy id args s M skipped left s' := by
  have hprobe (hp : p.probe.isSome = true) : ¬ (g.without p id).marked := by
    rintro ⟨hnone, -⟩
    rw [hnone] at hp
    cases hp
  by_cases hleft : left = 0
  · rw [Requeued, if_pos hleft] at hr
    refine ⟨?_, fun hp _ hm => hprobe hp (hr.marked hm), hr.skips.trans hskips, ?_⟩
    · rw [← hM, hr.clock]
      exact hr.running
    · rw [if_pos hleft]
      exact hr.queue.trans hqueue
  · rw [Requeued, if_neg hleft] at hr
    obtain ⟨n, hn, hlt, hr⟩ := hr
    have hn' : s.issued ≤ n := hissued.symm.trans_le hn
    refine ⟨?_, fun hp hnames hm => ?_, hr.skips.trans hskips, ?_⟩
    · rw [← hM, hr.clock]
      exact hr.running
    · rcases hr.marked hm with hmarked | hid
      · exact hprobe hp hmarked
      · exact hnames n hn' hlt hid
    · rw [if_neg hleft, ← hclock, ← hqueue]
      exact ⟨n, hn', hlt, hr.queue⟩

theorem filter_adding (M : Finset SetMember) (id : String) (now : Instant) :
    ((adding M id now).filter fun x => x.member ≠ id) = M.filter fun x => x.member ≠ id := by
  unfold adding
  split
  · rfl
  · rw [Finset.filter_insert, if_neg (by simp)]

theorem has_adding (M : Finset SetMember) (id : String) (now : Instant) : Has (adding M id now) id := by
  unfold adding
  split
  · next hhas => exact hhas
  · exact ⟨_, Finset.mem_insert_self _ _, rfl⟩

theorem runs_of_holds (hg : g.Holds p id s) (hhas : Has g.running id) : p.Runs id s := by
  obtain ⟨d, hd⟩ := hg.running
  have hne : g.running ≠ ∅ := by
    obtain ⟨x, hx, -⟩ := hhas
    exact Finset.ne_empty_of_mem hx
  rw [← hg.clock, ofSet?, if_neg hne] at hd
  exact ⟨g.running, d, hd, hhas⟩

/-- On every path a worker takes its job out of the running set and leaves the rest of it as it was. -/
theorem perform_keeps [Names] [LawfulNames] (p : Station) {h : Host Demand Response} {id : String}
    (args : List Json) {s : Machine} {M : Finset SetMember} {d : Option Instant} (hid : Generated id)
    (httl : 0 < p.entryTtl.nanos) (hq : s.Quiet) (hl : s.store.Listed)
    (hv : s.store.view s.clock p.key = ofSet? M d) (hM : M.card < 2 ^ 63)
    (hnano : s.clock.nano < 2000000000) (hh : p.Served id h) :
    ∃ stint left again, p.Keeps id args s M stint left again (p.perform h id args s).1
      (p.perform h id args s).2 := by
  let g : Ledger :=
    { clock := s.clock, running := M, marked := True, queue := s.queue, issued := s.issued,
      skips := s.skips p.kind }
  have hg : g.Holds p id s := ⟨hq, hl, rfl, ⟨d, hv⟩, fun _ => trivial, rfl, Nat.le_refl _, rfl⟩
  have hperform : Yields h (p.worker.perform id args).run (fun r t' => ∃ stint left again,
      p.Keeps id args s M stint left again r t') (.ofMachine s) := by
    rw [Worker.perform_run]
    refine yields_bind ((yields_hasCapacity_holds (t := .ofMachine s) hg hM).mono ?_)
    rintro room t₁ ⟨hwork, h₁, hg₁⟩
    cases room with
    | true =>
      refine yields_bind ((yields_register_holds hg₁ hid trivial httl hnano).mono ?_)
      rintro _ t₂ ⟨h₂, hg₂⟩
      refine yields_bind ((yields_work_holds hh hg₂ trivial).mono ?_)
      rintro ended t₃ ⟨h₃, hg₃⟩
      refine yields_bind ((yields_finish_holds hh hg₃ hid ended).mono ?_)
      rintro _ t₄ ⟨⟨left, h₄⟩, hg₄⟩
      refine (yields_conclude_holds hh hg₄ ended).mono ?_
      rintro _ t₅ ⟨again, hagain, h₅, rfl, hr⟩
      -- The job may have been in the set before; it is not said to be back there in the end.
      have hfilter := filter_adding M id s.clock
      have hhas := has_adding M id s.clock
      refine ⟨some ⟨t₂.machine, ended, t₃.machine⟩, left, again, ?_⟩
      refine { hr.tidy rfl rfl rfl rfl hfilter with
        work := hwork, inside := ?_, surveyed := ?_, deeds := ?_, outcome := rfl }
      · rintro w ⟨⟩
        exact ⟨runs_of_holds hg₂ hhas, runs_of_holds hg₃ hhas⟩
      · simp only [hagain, Option.some.injEq, exists_eq_left']
      · rw [h₅, h₄, h₃, h₂, h₁]
        rw [← hfilter]
        rfl
    | false =>
      refine yields_bind ((yields_skip_holds hh hg₁ hid).mono ?_)
      rintro _ t₂ ⟨⟨left, h₂⟩, hg₂⟩
      refine yields_pure ⟨none, left, none, ?_⟩
      have hr : p.Requeued id args ({ g with skips := g.skips + 1 }.without p id) 0 t₂.machine := hg₂
      refine { hr.tidy rfl rfl rfl rfl rfl with
        work := hwork, inside := nofun, surveyed := ?_, deeds := ?_, outcome := rfl }
      · simp
      · rw [h₂, h₁]
        exact (List.append_nil _).symm
  exact hperform

/-- The work panics, and another job that runs is left alone. -/
theorem perform_keeps_of_panic :
    let p : Station :=
      { kind := "export", most := 2, entryTtl := ⟨60⟩, batchSize := 1, probe := some ⟨⟨60⟩⟩,
        marks := some ⟨⟨60⟩⟩ }
    let id := jobIdOf 0
    let members : List (String × Instant) := [("a", Instant.epoch)]
    let M := MemoryStore.membersOf members
    let s : Machine := { Machine.ofClock Instant.epoch with
      store := Keyed.empty.insert p.key ⟨.set members, none⟩
      issued := 1 }
    let h : Host Demand Response := fun t _ => (⟨.panicked, 1⟩, t.machine)
    Generated id ∧ 0 < p.entryTtl.nanos ∧ s.Quiet ∧ s.store.Listed ∧
      s.store.view s.clock p.key = ofSet? M none ∧ M.card < 2 ^ 63 ∧ s.clock.nano < 2000000000 ∧
      p.Served id h ∧ ∃ stint left again, p.Keeps id [] s M stint left again (p.perform h id [] s).1
        (p.perform h id [] s).2 := by
  intro p id members M s h
  have hid : Generated id := generated_jobIdOf 0
  have hq : s.Quiet := fun _ => rfl
  have hl : s.store.Listed := by
    refine MemoryStore.listed_insert MemoryStore.listed_empty ?_
    rintro ms ⟨⟩
    unfold MemoryStore.Distinct
    decide
  have hv : s.store.view s.clock p.key = ofSet? M none := by decide +kernel
  have hM : M.card < 2 ^ 63 := by decide
  have hh : p.Served id h := fun t _ => ⟨[], refl_of (p.Aside []) t.machine, nofun⟩
  exact ⟨hid, by decide, hq, hl, hv, hM, by decide, hh,
    p.perform_keeps [] hid (by decide) hq hl hv hM (by decide) hh⟩

end Station

end Turnstile
