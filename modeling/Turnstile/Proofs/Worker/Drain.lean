import Turnstile.Proofs.Worker.Backlog

/-!
# Draining a backlog

After a fan-out the jobs of a kind are run until none waits. How many that takes and what is left then
depends on the units that fail, and a drain that may run fewer jobs stops in between.
-/

namespace Turnstile

open Machine Thread

variable {Q ρ : Type} {kind : String} {most : Int} {fails : Nat → Option WorkError} {s : Machine}
  {lt : LocalTransport} {g : Standing} {args : List Json}

/-- Machines that say the same about the jobs of a kind. -/
structure Machine.Agrees (kind : String) (s s' : Machine) : Prop where
  ready : s.queue.readyJobs kind = s'.queue.readyJobs kind
  backlog : s.backlog kind = s'.backlog kind
  members : s.members kind = s'.members kind

namespace Worker

/-! ### The first jobs -/

section

variable [Names] {w : Worker (Thread Q ρ)}

theorem leads_fanOut (hw : w.Works kind most fails) (ht : w.transport = lt.toTransport)
    (h : g.Holds kind s) (args : List Json) (count : Nat) :
    Leads kind (w.fanOut args count).run (fun r s' => r = .ok count ∧
      { g with waiting := g.waiting + count }.Holds kind s') s := by
  -- those that are in wait already, and the others are still to come
  refine ensures_fanOut
    (I := fun jobs s => (∃ done, done + jobs.length = count ∧
        { g with waiting := g.waiting + done }.Holds kind s) ∧
      ∀ job ∈ jobs, job.kind = kind ∧ job.scheduledAt = none ∧ ∃ n, job.id = jobIdOf n)
    hw.serves.loadKind ht apart_issued (fun _ _ hr => hr.issued) (fun _ _ => trivial) ?_ ?_ ?_
  · intro s₁ hr₁ numbers hcount _ _
    refine ⟨⟨0, ?_, h.aside hr₁⟩, fun job hjob => ?_⟩
    · rw [List.length_map, hcount, Nat.zero_add]
    · obtain ⟨i, _, rfl⟩ := List.mem_map.mp hjob
      exact ⟨rfl, rfl, i, rfl⟩
  · rintro job jobs s₂ ⟨⟨done, hdone, h₂⟩, hnew⟩
    obtain ⟨hk, hn, hid⟩ := hnew job List.mem_cons_self
    rw [List.length_cons] at hdone
    refine (leads_push lt h₂ hk hn hid).mono fun _ s₃ _ h₃ => ?_
    exact ⟨⟨done + 1, by omega, h₃⟩, fun j hj => hnew j (List.mem_cons_of_mem _ hj)⟩
  · rintro s₂ ⟨⟨done, hdone, h₂⟩, _⟩ s₃ hr₃
    obtain rfl : done = count := hdone
    exact ⟨trivial, rfl, h₂.aside hr₃⟩

theorem leads_performWithCapacity (hw : w.Works kind most fails) (ht : w.transport = lt.toTransport)
    (h : g.Holds kind s) (hr : g.running = []) (hn : g.waiting = 0) (args : List Json) :
    Leads kind (w.performWithCapacity args).run (fun r s' => r = .ok (min g.left most.toNat) ∧
      { g with waiting := min g.left most.toNat }.Holds kind s') s := by
  rw [performWithCapacity_run]
  refine ensures_bind ((leads_within (within_cleanUp hw.completed) h (List.nil_subset _)).mono ?_)
  intro _ s₁ _ h₁
  refine ensures_bind
    ((leads_within (within_reportMetrics hw.serves args) h₁ (List.nil_subset _)).mono ?_)
  intro _ s₂ _ h₂
  refine ensures_bind ((leads_remaining hw h₂ args).mono ?_)
  rintro left s₃ _ ⟨rfl, h₃⟩
  have hroom : Leads kind w.remainingCapacity
      (fun room s' => room = most.toNat ∧ g.Holds kind s') s₃ := by
    refine ensures_remainingCapacity hw.serves ht fun s₄ hr₄ s₅ hr₅ => ?_
    have h₄ := h₃.aside hr₄
    have h₅ := h₄.aside hr₅
    have hnone := h₅.members.length_le
    have hempty := h₄.waiting
    rw [hr, List.length_nil] at hnone
    refine ⟨h₅.quiet, trivial, fun s₆ hr₆ => ⟨trivial, ?_, h₅.aside hr₆⟩⟩
    rw [signed_of_lt (by omega), signed_of_lt (by omega)]
    congr 1
    omega
  refine ensures_bind (hroom.mono ?_)
  rintro room s₄ _ ⟨rfl, h₄⟩
  have hfan := leads_fanOut hw ht h₄ args (min g.left most.toNat)
  rw [hn, Nat.zero_add] at hfan
  exact hfan

end

/-! ### All jobs -/

section

variable [Names] {w : Worker (Thread Empty ρ)} {d : Dispatcher (Thread Empty ρ)}

/-- From one dispatch to the next, until no job waits. -/
theorem executes_of_holds [LawfulNames] (hw : w.Works kind most fails)
    (ht : w.transport = lt.toTransport)
    (hd : d.handlers.get? kind = some w.handle) {l : Liveness} (hl : d.liveness = some l)
    (hmost : 1 ≤ most) {left waiting : Nat} {ended : List String}
    (h : Standing.Holds kind ⟨left, waiting, ended, [], []⟩ s)
    (he : ∀ id ∈ ended, ∃ n, id = jobIdOf n) :
    ∃ jobs ended' s₁ s₂, d.Executes kind jobs s s₁ ∧
      (d.runNext kind).run.drive s₁ = (done (.ok .idle), s₂) ∧
      jobs.map Prod.snd = Chains.ends fails left waiting ∧
      ended ⊆ ended' ∧ (∀ job ∈ jobs, job.1 ∈ ended') ∧
      Standing.Holds kind ⟨Chains.rest fails left waiting, 0, ended', [], []⟩ s₁ ∧
      Standing.Holds kind ⟨Chains.rest fails left waiting, 0, ended', [], []⟩ s₂ := by
  generalize hends : Chains.ends fails left waiting = ends
  induction ends generalizing left waiting ended s with
  | nil =>
    cases waiting with
    | zero =>
      obtain ⟨r, s₂, hdrive, _, hturned⟩ :=
        (leads_runNext hw ht hd hl hmost h rfl rfl he).drive
      obtain ⟨rfl, h'⟩ := hturned
      rw [Chains.rest_zero]
      exact ⟨[], ended, s, s₂, .nil, hdrive, rfl, List.Subset.refl _, nofun, h, h'⟩
    | succ waiting =>
      rw [Chains.ends_succ] at hends
      cases hends
  | cons end' ends ih =>
    cases waiting with
    | zero =>
      rw [Chains.ends_zero] at hends
      cases hends
    | succ waiting =>
      obtain ⟨r, s', hdrive, _, hturned⟩ :=
        (leads_runNext hw ht hd hl hmost h rfl rfl he).drive
      obtain ⟨n, rfl, h'⟩ := hturned
      rw [Chains.ends_succ] at hends
      obtain ⟨rfl, htail⟩ := List.cons.inj hends
      have he' : ∀ id ∈ jobIdOf n :: ended, ∃ n, id = jobIdOf n := by
        intro id hid
        rcases List.mem_cons.mp hid with rfl | hid
        · exact ⟨n, rfl⟩
        · exact he id hid
      obtain ⟨jobs, ended', s₁, s₂, hrun, hidle, hjobs, hsub, hmem, hrest⟩ := ih h' he' htail
      refine ⟨_ :: jobs, ended', s₁, s₂, .cons hdrive hrun, hidle, ?_, ?_, ?_, ?_⟩
      · rw [List.map_cons, hjobs]
      · exact fun id hid => hsub (List.mem_cons_of_mem _ hid)
      · intro job hjob
        rcases List.mem_cons.mp hjob with rfl | hjob
        · exact hsub List.mem_cons_self
        · exact hmem job hjob
      · rw [Chains.rest_succ]
        exact hrest

/-- What becomes of a backlog for which so many jobs were submitted at first: the jobs that run until
none waits, and what is left then. -/
structure Drained (d : Dispatcher (Thread Empty ρ)) (kind : String) (fails : Nat → Option WorkError)
    (backlog first : Nat) (jobs : List Outcome) (s s' : Machine) : Prop where
  runs : d.Executes kind jobs s s'
  idle : ∃ s'', (d.runNext kind).run.drive s' = (done (.ok .idle), s'')
  ends : jobs.map Prod.snd = Chains.ends fails backlog first
  none : backlog = 0 → jobs = []
  bound : backlog ≠ 0 → jobs.length ≤ backlog + first - 1
  allSucceed : backlog ≠ 0 → (∀ unit, fails unit = .none) → jobs.length = backlog + first - 1
  ready : s'.queue.readyJobs kind = []
  members : s'.members kind = []
  unmarked : ∀ job ∈ jobs, ¬ s'.Marked job.1
  left : s'.backlog kind = 0 ∨ (jobs.filter (·.2.isSome)).length = first

theorem drained_of_holds [LawfulNames] (hw : w.Works kind most fails)
    (ht : w.transport = lt.toTransport)
    (hd : d.handlers.get? kind = some w.handle) {l : Liveness} (hl : d.liveness = some l)
    (hmost : 1 ≤ most) {backlog first : Nat} (hf : first = 0 → backlog = 0)
    (hn : backlog = 0 → first = 0) (h : Standing.Holds kind ⟨backlog, first, [], [], []⟩ s) :
    ∃ jobs s₁ s₂, Drained d kind fails backlog first jobs s s₁ ∧
      (d.runNext kind).run.drive s₁ = (done (.ok .idle), s₂) ∧ s₁.Agrees kind s₂ := by
  obtain ⟨jobs, ended, s₁, s₂, hrun, hidle, hjobs, _, hmem, h₁, h₂⟩ :=
    executes_of_holds hw ht hd hl hmost h nofun
  have hlength := congrArg List.length hjobs
  rw [List.length_map] at hlength
  have hready : s₁.queue.readyJobs kind = [] := List.length_eq_zero_iff.mp h₁.waiting
  have hmembers : s₁.members kind = [] := List.sublist_nil.mp h₁.members
  refine ⟨jobs, s₁, s₂, ⟨hrun, ⟨s₂, hidle⟩, hjobs, fun hz => ?_, fun hz => ?_, fun hz hall => ?_,
    hready, hmembers, fun job hjob hmark => ?_, ?_⟩, hidle, ?_⟩
  · rw [hn hz, Chains.ends_zero, List.length_nil] at hlength
    exact List.length_eq_zero_iff.mp hlength
  · rw [hlength]
    exact Chains.length_ends_le hz
  · rw [hlength]
    exact Chains.length_ends_of_none hall hz fun hz' => hz (hf hz')
  · rcases h₁.cleared job.1 (hmem job hjob) hmark with hnil | hwaits
    · exact List.not_mem_nil hnil
    · rw [hready] at hwaits
      exact List.not_mem_nil hwaits
  · rw [h₁.left]
    refine (Chains.rest_eq_zero_or fails backlog first).imp id fun hall => ?_
    rw [← hjobs, List.filter_map, List.length_map] at hall
    exact hall
  · refine ⟨?_, h₁.left.trans h₂.left.symm, ?_⟩
    · rw [hready, List.length_eq_zero_iff.mp h₂.waiting]
    · rw [hmembers, List.sublist_nil.mp h₂.members]

/-- A fan-out and all that follows from it, and what a drain does that may run so many jobs. -/
theorem drained_of_fanOut [LawfulNames] (lt : LocalTransport) (kind : String) (most : Int)
    (fails : Nat → Option WorkError) (w : Worker (Thread Empty ρ)) (d : Dispatcher (Thread Empty ρ))
    (l : Liveness) (args : List Json) (s : Machine) (hw : w.Works kind most fails)
    (ht : w.transport = lt.toTransport) (hd : d.handlers.get? kind = some w.handle)
    (hl : d.liveness = some l) (hmost : 1 ≤ most) (hq : s.Quiet) (hm : s.members kind = [])
    (hr : s.queue.readyJobs kind = []) (hu : ∀ job ∈ s.queue.scheduled, job.kind ≠ kind) :
    ∃ s₀ jobs s₁, (w.performWithCapacity args).run.drive s =
        (done (.ok (min (s.backlog kind) most.toNat)), s₀) ∧
      (s₀.queue.readyJobs kind).length = min (s.backlog kind) most.toNat ∧
      Drained d kind fails (s.backlog kind) (min (s.backlog kind) most.toNat) jobs s₀ s₁ ∧
      ∀ limit, ∃ report s₂ s₃, (d.drain kind limit).run.drive s₀ = (done (.ok report), s₃) ∧
        Dispatcher.Reported limit jobs report ∧ d.Executes kind (jobs.take limit) s₀ s₂ ∧
        s₂.Agrees kind s₃ := by
  have hstart : Standing.Holds kind ⟨s.backlog kind, 0, [], [], []⟩ s := by
    refine ⟨hq, hu, ?_, rfl, ?_, ?_, nofun⟩
    · rw [hm]
    · rw [hr]
      rfl
    · rw [hr]
      exact nofun
  obtain ⟨_, s₀, hfan, _, rfl, h₀⟩ :=
    (leads_performWithCapacity hw ht hstart rfl rfl args).drive
  obtain ⟨jobs, s₁, s₂, hdrained, hidle, hagrees⟩ :=
    drained_of_holds hw ht hd hl hmost (by omega) (by omega) h₀
  refine ⟨s₀, jobs, s₁, hfan, h₀.waiting, hdrained, fun limit => ?_⟩
  obtain ⟨report, s', r, hreport, htake, hdrain⟩ := Dispatcher.drive_drain hdrained.runs hidle limit
  refine ⟨report, s', _, hdrain, hreport, htake, ?_⟩
  split
  · next hlt =>
    rw [List.take_of_length_le (Nat.le_of_lt hlt)] at htake
    rw [← hdrained.runs.unique htake]
    exact ⟨hagrees.ready, hagrees.backlog, hagrees.members⟩
  · exact ⟨rfl, rfl, rfl⟩

end

/-- Three units, of which the second one fails, and two jobs at once: the first job submits a third one,
and the second job none. A drain of two jobs stops before the last of them. -/
theorem drained_of_fanOut_of_three :
    let l : Liveness := ⟨⟨5⟩⟩
    let lt : LocalTransport := { liveness := some l }
    let e : WorkError := default
    let fails : Nat → Option WorkError := fun unit => if unit = 2 then some e else none
    let w : Worker (Thread Empty Empty) :=
      { load := .ofBacklog "k" 2 fails
        running := { kind := "k", entryTtl := ⟨5⟩, batchSize := 1, probe := some l.probe }
        transport := lt.toTransport
        setGauge := fun series value => Machine.step fun s => ((), s.setGauge series value) }
    let d : Dispatcher (Thread Empty Empty) :=
      { handlers := ⟨[("k", w.handle)]⟩, releasing := none, liveness := some l }
    let s := (Machine.ofClock Instant.epoch).setLoad "k" { most := 2, backlog := 3 }
    ∃ s₀ jobs s₁ s₃, (w.performWithCapacity []).run.drive s = (done (.ok 2), s₀) ∧
      Drained d "k" fails 3 2 jobs s₀ s₁ ∧ jobs.map Prod.snd = [none, some e, none] ∧
      (d.drain "k" 2).run.drive s₀ =
        (done (.ok { succeeded := 1, failed := 1, emptied := false }), s₃) := by
  intro l lt e fails w d s
  have hgauge (series : Series) (value : Double) : Within (Apart "k" []) (w.setGauge series value) :=
    within_step fun s =>
      ⟨⟨Nat.le_refl _, fun hq => ⟨hq, .refl _⟩, rfl⟩, rfl, rfl, fun _ _ _ hm => hm⟩
  have hw : w.Works "k" 2 fails := works_of_probe rfl rfl hgauge rfl
  obtain ⟨s₀, jobs, s₁, hfan, _, hdrained, hdrain⟩ :=
    drained_of_fanOut lt "k" 2 fails w d l [] s hw rfl rfl rfl (by decide) (fun _ => rfl) rfl rfl
      nofun
  obtain ⟨⟨succeeded, failed, emptied⟩, s₂, s₃, hdrive, hreport, _⟩ := hdrain 2
  have hends : jobs.map Prod.snd = [none, some e, none] := hdrained.ends
  refine ⟨s₀, jobs, s₁, s₃, hfan, hdrained, hends, ?_⟩
  obtain ⟨hsucceeded, hfailed, _, hemptied⟩ := hreport
  match jobs, hends with
  | [(_, _), (_, _), (_, _)], rfl =>
    obtain rfl : succeeded = 1 := hsucceeded
    obtain rfl : failed = 1 := hfailed
    obtain rfl : emptied = false := by simpa using hemptied
    exact hdrive

end Worker

end Turnstile
