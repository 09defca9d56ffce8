import Turnstile.Proofs.Job.CleanUp
import Turnstile.Proofs.Worker.Rounds

/-!
# One fan-out

What a fan-out submits, job by job: new jobs behind those that waited, as many as there is work left
and room for them.
-/

namespace Turnstile

open Machine Thread

variable {Q ρ : Type} {kind : String} {most : Int} {s : Machine} {lt : LocalTransport} {job : Job}
  {w : Worker (Thread Q ρ)} {args : List Json}

theorem LocalTransport.ensures_push_ready (hn : job.scheduledAt = none) :
    Ensures (Clears kind) (fun _ => True) (lt.push job : Thread Q ρ String)
      (fun _ s' => s.issued ≤ s'.issued ∧
        ∃ now, s'.queue = s.queue.pushReady (job.stamped now)) s := by
  have hlive : Within (Clears kind) (lt.markLive job.id : Thread Q ρ Unit) :=
    within_markLive (fun s c _ hc => clears_of_called (called_callStore s c) (hc _)) lt
  refine ensures_push_unscheduled hn (fun _ _ => id) hlive fun s₁ hr₁ s₂ hr₂ => ?_
  refine ⟨trivial, fun s₃ hr₃ => ⟨trivial, ?_, s₁.clock, ?_⟩⟩
  · exact (hr₁.issued.trans hr₂.issued).trans hr₃.issued
  · rw [hr₃.queue, ← hr₁.queue, ← hr₂.queue]

/-! ### What the clean-up leaves -/

theorem MemoryStore.length_membersAt {store : MemoryStore} {now : Instant} {key : String}
    {M : Finset SetMember} {d : Option Instant} (hl : store.Listed)
    (hv : store.view now key = IdealEntry.ofSet? M d) : (store.membersAt now key).length = M.card := by
  unfold view at hv
  unfold membersAt
  cases hs : store.live? now key with
  | none =>
    rw [hs, IdealEntry.ofSet?] at hv
    split at hv
    · next hM => rw [hM]; rfl
    · cases hv
  | some slot =>
    rw [hs, IdealEntry.ofSet?] at hv
    split at hv
    · cases hv
    · rcases slot with ⟨value | ms, d'⟩
      · cases hv
      · cases hv
        rw [List.length_map]
        exact (card_membersOf (distinct_of_live? hl hs)).symm

namespace Worker

/-- The running set is left with its members that are alive. -/
def CleanedUp (w : Worker (Thread Q ρ)) (s s₁ : Machine) : Prop :=
  ∀ liveness M d, w.running.probe = liveness.map Liveness.probe → s.store.Listed →
    s.store.view s.clock w.running.key = IdealEntry.ofSet? M d → s.clock.Representable →
    (∀ x ∈ M, x.addedAt.Representable) →
    (∀ x ∈ M, ∀ ms e, s.store.view s.clock (Liveness.key x.member) ≠ some ⟨.set ms, e⟩) →
      s₁.store.view s.clock w.running.key =
          IdealEntry.ofSet? (w.running.survivors liveness s M) d ∧
        (s₁.members w.running.kind).length = (w.running.survivors liveness s M).card

theorem cleanedUp_of_drive {w : Worker (Thread Empty ρ)} {s₁ : Machine} (hq : s.Quiet)
    (hclean : w.cleanUp.drive s = (.done (), s₁)) : w.CleanedUp s s₁ := by
  intro liveness M d hp hl hv hnow hadded hset
  have ht : s.Stands True s.clock (s.store.view s.clock) := ⟨hq.honest, fun _ => hq, hl, rfl, rfl⟩
  let h : Host Empty ρ := fun _ q => q.elim
  have hswept : Yields h w.running.cleanUp.run
      (w.running.Swept liveness True s.clock (s.store.view s.clock) M d []) (.ofMachine s) :=
    RunningSet.yields_cleanUp hp (MemoryStore.member_inj hl hv) hnow hadded ht hv
  have hcleaned : Yields h w.cleanUp (fun _ t => t.machine.Stands True s.clock
      (Function.update (s.store.view s.clock) w.running.key
        (IdealEntry.ofSet? (w.running.survivors liveness s M) d))) (.ofMachine s) := by
    refine yields_bind (yields_orNote (hswept.mono ?_))
    rintro (f | n) t hr
    · obtain ⟨_, _, _, _, hfailed⟩ := hr
      obtain ⟨x, hx, ms, e, hstrange⟩ := hfailed trivial
      exact absurd hstrange (hset x hx ms e)
    · exact hr.1
  have hdrive := drive_eq_play h w.cleanUp (.ofMachine s)
  have hs₁ : s₁ = (w.cleanUp.play h (.ofMachine s)).2.machine :=
    congrArg Prod.snd (hclean.symm.trans hdrive)
  have hstands : s₁.Stands True s.clock (Function.update (s.store.view s.clock) w.running.key
      (IdealEntry.ofSet? (w.running.survivors liveness s M) d)) := by
    rw [hs₁]
    exact hcleaned
  have hleft : s₁.store.view s.clock w.running.key =
      IdealEntry.ofSet? (w.running.survivors liveness s M) d := by
    rw [hstands.view, Function.update_self]
  refine ⟨hleft, ?_⟩
  rw [Machine.members, hstands.clock]
  exact MemoryStore.length_membersAt hstands.listed hleft

/-! ### New jobs -/

section

variable [Names] [LawfulNames]

/-- The names of jobs are new, as long as names have not run out. -/
def NewNames (s s' : Machine) (jobs : List Job) : Prop :=
  s'.issued ≤ idCount →
    (jobs.map (·.id)).Nodup ∧ ∀ i < s.issued, jobIdOf i ∉ jobs.map (·.id)

theorem newNames_of_numbers {s' : Machine} {jobs : List Job} {numbers : List Nat}
    (hn : jobs.map (·.id) = numbers.map jobIdOf) (hs : numbers.Pairwise (· < ·))
    (hr : ∀ i ∈ numbers, s.issued ≤ i ∧ i < s'.issued) : NewNames s s' jobs := by
  intro hnames
  rw [hn]
  constructor
  · refine List.Nodup.map_on ?_ (hs.imp fun hlt => Nat.ne_of_lt hlt)
    intro i hi j hj hij
    have hi := hr i hi
    have hj := hr j hj
    exact jobIdOf_inj (by omega) (by omega) hij
  · intro i hlt hmem
    obtain ⟨j, hj, hij⟩ := List.mem_map.mp hmem
    have hj := hr j hj
    have heq := jobIdOf_inj (by omega) (by omega) hij
    omega

/-- What waits after a fan-out: new jobs of the kind for the arguments, behind those that waited. -/
structure FannedOut (kind : String) (args : List Json) (count : Nat) (s s' : Machine) : Prop where
  scheduled : s'.queue.scheduled = s.queue.scheduled
  others : ∀ other ≠ kind, s'.queue.readyJobs other = s.queue.readyJobs other
  ready : ∃ taken : List Job, s'.queue.readyJobs kind = s.queue.readyJobs kind ++ taken ∧
    taken.length = count ∧
    (∀ job ∈ taken, ∃ i, s.issued ≤ i ∧ job.unstamped = Job.create kind args (jobIdOf i)) ∧
    NewNames s s' taken

theorem FannedOut.of_taken {count : Nat} {s' : Machine} (taken : List Job) (numbers : List Nat)
    (hq : s'.queue = taken.foldl Queue.pushReady s.queue)
    (ht : taken.map Job.unstamped = numbers.map (fun i => Job.create kind args (jobIdOf i)))
    (hc : numbers.length = count) (hs : numbers.Pairwise (· < ·))
    (hr : ∀ i ∈ numbers, s.issued ≤ i ∧ i < s'.issued) : FannedOut kind args count s s' := by
  have hnew : ∀ job ∈ taken,
      ∃ i, s.issued ≤ i ∧ job.unstamped = Job.create kind args (jobIdOf i) := by
    intro job hjob
    have hmem : job.unstamped ∈ numbers.map fun i => Job.create kind args (jobIdOf i) := by
      rw [← ht]
      exact List.mem_map_of_mem hjob
    obtain ⟨i, hi, he⟩ := List.mem_map.mp hmem
    exact ⟨i, (hr i hi).1, he.symm⟩
  have hkind : ∀ job ∈ taken, job.kind = kind := by
    intro job hjob
    obtain ⟨i, _, he⟩ := hnew job hjob
    exact congrArg Job.kind he
  have hids : taken.map (·.id) = numbers.map jobIdOf := by
    have hmap := congrArg (List.map (·.id)) ht
    rwa [List.map_map, List.map_map] at hmap
  refine ⟨?_, fun other ho => ?_, taken, ?_, ?_, hnew, newNames_of_numbers hids hs hr⟩
  · rw [hq, Queue.scheduled_foldl]
  · have hnone : (taken.filter fun job => job.kind = other) = [] := by
      rw [List.filter_eq_nil_iff]
      intro job hjob
      simpa using fun he => ho (he.symm.trans (hkind job hjob))
    rw [hq, Queue.readyJobs_foldl, hnone, List.append_nil]
  · have hall : (taken.filter fun job => job.kind = kind) = taken := by
      rw [List.filter_eq_self]
      intro job hjob
      simpa using hkind job hjob
    rw [hq, Queue.readyJobs_foldl, hall]
  · have hlength := congrArg List.length hids
    rwa [List.length_map, List.length_map, hc] at hlength

theorem FannedOut.of_clears {count : Nat} {s₁ s' : Machine} (h : FannedOut kind args count s₁ s')
    (hc : Clears kind s s₁) : FannedOut kind args count s s' := by
  obtain ⟨hscheduled, hothers, taken, hready, hcount, hnew, hnames⟩ := h
  rw [hc.queue] at hscheduled hready
  refine ⟨hscheduled, fun other ho => ?_, taken, hready, hcount, fun job hjob => ?_, fun hle => ?_⟩
  · rw [hothers other ho, hc.queue]
  · obtain ⟨i, hi, he⟩ := hnew job hjob
    exact ⟨i, hc.issued.trans hi, he⟩
  · obtain ⟨hnodup, hfresh⟩ := hnames hle
    exact ⟨hnodup, fun i hi => hfresh i (Nat.lt_of_lt_of_le hi hc.issued)⟩

theorem ensures_fanOut_exact (args : List Json) (count : Nat) (s : Machine) (hk : w.load.kind = kind)
    (ht : w.transport = lt.toTransport) :
    Ensures (Clears kind) (fun _ => True) (w.fanOut args count).run
      (fun r s' => r = .ok count ∧ FannedOut kind args count s s') s := by
  -- those that are in, and those that are still to come
  refine ensures_fanOut (I := fun rest s₂ => ∃ (taken : List Job) (numbers : List Nat),
      s₂.queue = taken.foldl Queue.pushReady s.queue ∧
        taken.map Job.unstamped ++ rest = numbers.map (fun i => Job.create kind args (jobIdOf i)) ∧
        numbers.length = count ∧ numbers.Pairwise (· < ·) ∧
        ∀ i ∈ numbers, s.issued ≤ i ∧ i < s₂.issued)
    hk ht (fun s => ⟨Nat.le_succ _, fun hq => ⟨hq, .refl _⟩, rfl⟩) (fun _ _ hr => hr.issued)
    (fun _ _ => trivial) ?_ ?_ ?_
  · intro s₁ hr₁ numbers hcount hsorted hrange
    exact ⟨[], numbers, hr₁.queue, rfl, hcount, hsorted, hrange⟩
  · rintro job rest s₂ ⟨taken, numbers, hqueue, hjobs, hcount, hsorted, hrange⟩
    have hmem : job ∈ numbers.map fun i => Job.create kind args (jobIdOf i) := by
      rw [← hjobs]
      exact List.mem_append_right _ List.mem_cons_self
    obtain ⟨i, _, hi⟩ := List.mem_map.mp hmem
    have hn : job.scheduledAt = none := by rw [← hi]; rfl
    have hu : job.unstamped = job := by rw [← hi]; rfl
    refine (LocalTransport.ensures_push_ready hn).mono ?_
    rintro _ s₃ _ ⟨hissued, now, hqueue'⟩
    refine ⟨taken ++ [job.stamped now], numbers, ?_, ?_, hcount, hsorted, fun i hi => ?_⟩
    · rw [hqueue', hqueue, List.foldl_append]
      rfl
    · have hone : (job.stamped now).unstamped = job := hu
      rw [List.map_append, List.map_singleton, hone, List.append_assoc, List.singleton_append, hjobs]
    · have hrange := hrange i hi
      omega
  · rintro s₂ ⟨taken, numbers, hqueue, hjobs, hcount, hsorted, hrange⟩ s₃ hr₃
    rw [List.append_nil] at hjobs
    refine ⟨trivial, rfl, .of_taken taken numbers ?_ hjobs hcount hsorted fun i hi => ?_⟩
    · rw [hr₃.queue, hqueue]
    · have hrange := hrange i hi
      have hissued := hr₃.issued
      omega

/-- A fan-out of a worker that nobody disturbs: what runs is counted after the running set has been
cleaned up, and the work that is left is asked for after that. -/
theorem drive_performWithCapacity {w : Worker (Thread Empty ρ)}
    (hw : w.Serves kind most (Steady kind))
    (hp : ∀ p, w.running.probe = some p → ∀ ids, Within (Steady kind) (p.completed ids).run)
    (ht : w.transport = lt.toTransport) (args : List Json) (hq : s.Quiet)
    (hrunning : (s.members kind).length < 2 ^ 63)
    (hqueued : (s.queue.readyJobs kind).length < 2 ^ 63) :
    ∃ s₁ s₂ left s₃ s', w.cleanUp.drive s = (.done (), s₁) ∧ w.CleanedUp s s₁ ∧
      (w.reportMetrics args).drive s₁ = (.done (), s₂) ∧
      (w.load.remaining args).drive s₂ = (.done left, s₃) ∧
      (w.performWithCapacity args).run.drive s =
        (.done (.ok (min left (most - (s₁.members kind).length -
          (s.queue.readyJobs kind).length).toNat)), s') ∧
      FannedOut kind args (min left (most - (s₁.members kind).length -
        (s.queue.readyJobs kind).length).toNat) s s' := by
  have hclears (s s' : Machine) (h : Steady kind s s') : Clears kind s s' := h.toClears
  -- cleaning up may take members out, what follows does not
  have hclean : Ensures (Clears kind) (fun _ => True) w.cleanUp (fun _ s' => Clears kind s s') s :=
    ensures_within (within_cleanUp fun p hs ids => (hp p hs ids).weaken hclears)
      fun s' hr => ⟨trivial, fun _ => hr⟩
  obtain ⟨_, s₁, hcleaned, _, hr₁⟩ := hclean.drive
  have hreport : Ensures (Steady kind) (fun _ => True) (w.reportMetrics args)
      (fun _ s' => Steady kind s₁ s') s₁ :=
    ensures_within (within_reportMetrics hw args) fun s' hr => ⟨trivial, fun _ => hr⟩
  obtain ⟨_, s₂, hreported, _, hr₂⟩ := hreport.drive
  have hremaining : Ensures (Steady kind) (fun _ => True) (w.load.remaining args)
      (fun _ s' => Steady kind s₂ s') s₂ :=
    ensures_within (hw.remaining args) fun s' hr => ⟨trivial, fun _ => hr⟩
  obtain ⟨left, s₃, hleft, _, hr₃⟩ := hremaining.drive
  have hr₃ := trans_of (Steady kind) hr₂ hr₃
  have hq₁ := (hr₁.thins hq).1
  have hcapacity : Ensures (Steady kind) (fun _ => True) w.remainingCapacity
      (fun room s' => room = (most - (s₁.members kind).length -
        (s.queue.readyJobs kind).length).toNat ∧ Steady kind s₁ s') s₃ := by
    refine ensures_remainingCapacity hw ht fun s₄ hr₄ s₅ hr₅ => ?_
    have hr₄ := trans_of (Steady kind) hr₃ hr₄
    have hr₅ := trans_of (Steady kind) hr₄ hr₅
    have hmembers := (hr₁.thins hq).2.length_le
    refine ⟨(hr₅.thins hq₁).1, trivial, fun s₆ hr₆ => ⟨trivial, ?_, ?_⟩⟩
    · rw [hr₅.members hq₁, hr₄.queue, hr₁.queue, signed_of_lt (by omega), signed_of_lt hqueued]
    · exact trans_of (Steady kind) hr₅ hr₆
  obtain ⟨room, s₄, hroom, _, rfl, hr₄⟩ := hcapacity.drive
  have hfan := ensures_fanOut_exact args (min left (most - (s₁.members kind).length -
    (s.queue.readyJobs kind).length).toNat) s₄ hw.loadKind ht
  obtain ⟨_, s', hfanned, _, rfl, hout⟩ := hfan.drive
  refine ⟨s₁, s₂, left, s₃, s', hcleaned, cleanedUp_of_drive hq hcleaned, hreported, hleft, ?_, ?_⟩
  · rw [performWithCapacity_run, drive_bind_of_done hcleaned, drive_bind_of_done hreported,
      drive_bind_of_done hleft, drive_bind_of_done hroom, hfanned]
  · exact hout.of_clears (trans_of (Clears kind) hr₁ hr₄.toClears)

/-- A fan-out submits as many jobs as there is work left and room for them, where of the running set
the members that are alive are counted. Over any number of fan-outs and dispatches, at any moment, those
that run and those that wait are no more than may run, or than there were. -/
theorem fanOut_within_capacity (lt : LocalTransport) (kind : String) (most : Int)
    (hmost : most < 2 ^ 63) :
    (∀ (w : Worker (Thread Empty Empty)) (args : List Json) (s : Machine),
      w.Serves kind most (Steady kind) →
      (∀ p, w.running.probe = some p → ∀ ids, Within (Steady kind) (p.completed ids).run) →
      w.transport = lt.toTransport → s.Quiet → (s.members kind).length < 2 ^ 63 →
      (s.queue.readyJobs kind).length < 2 ^ 63 →
      ∃ s₁ s₂ left s₃ s', w.cleanUp.drive s = (.done (), s₁) ∧ w.CleanedUp s s₁ ∧
        (w.reportMetrics args).drive s₁ = (.done (), s₂) ∧
        (w.load.remaining args).drive s₂ = (.done left, s₃) ∧
        (w.performWithCapacity args).run.drive s =
          (.done (.ok (min left (most - (s₁.members kind).length -
            (s.queue.readyJobs kind).length).toNat)), s') ∧
        FannedOut kind args (min left (most - (s₁.members kind).length -
          (s.queue.readyJobs kind).length).toNat) s s') ∧
    (∀ (w : Worker (Thread Q ρ)) (d : Dispatcher (Thread Q ρ)) (acts : List Act) (s : Machine)
      (x : Thread Q ρ Unit) (s' : Machine),
      w.Stays kind most (Eases kind) → w.transport = lt.toTransport →
      d.handlers.get? kind = some w.handle → s.Quiet → s.Unscheduled kind →
      (s.members kind).length + (s.queue.readyJobs kind).length < 2 ^ 63 →
      Reaches (Eases kind) (rounds w d kind acts) s x s' →
      (((s'.members kind).length + (s'.queue.readyJobs kind).length : Nat) : Int) ≤
        max (((s.members kind).length + (s.queue.readyJobs kind).length : Nat) : Int)
          (max most 0)) := by
  constructor
  · intro w args s hw hp ht hq hrunning hqueued
    exact drive_performWithCapacity hw hp ht args hq hrunning hqueued
  · intro w d acts s x s' hw ht hd hq hu htotal hr
    let bound := max ((s.members kind).length + (s.queue.readyJobs kind).length) most.toNat
    have hfits : Fits kind bound 0 s := ⟨hq, hu, by omega⟩
    have hensures := ensures_rounds bound hw ht hd (by omega) (by omega) acts hfits
    have hmoment := (hensures.of_reaches hr).moment.total
    omega

end

/-- Three units of work are left and three jobs may run. Of two entries in the running set one is
dead, so two jobs are submitted. Where none runs, three are submitted, then one of them runs and submits
the next one, and then there is no room for more. -/
theorem fanOut_within_capacity_of_three :
    let lt : LocalTransport := { liveness := none }
    let w : Worker (Thread Empty Empty) :=
      { load := { kind := "k", maxRunning := pure 3, remaining := fun _ => pure 3,
                  work := fun _ => pure .succeeded }
        running := { kind := "k", entryTtl := ⟨5⟩, batchSize := 1, probe := none }
        transport := lt.toTransport
        setGauge := fun _ _ => pure () }
    let d : Dispatcher (Thread Empty Empty) :=
      { handlers := ⟨[("k", w.handle)]⟩, releasing := none, liveness := none }
    let members : List (String × Instant) := [("dead", ⟨0, 0⟩), ("alive", ⟨0, 8⟩)]
    let s : Machine := { Machine.ofClock ⟨0, 10⟩ with
      store := Keyed.ofList [(RunningSet.keyOf "k", ⟨.set members, none⟩)] }
    let idle := Machine.ofClock ⟨0, 10⟩
    (s.members "k").length = 2 ∧
    (∃ s', (w.performWithCapacity []).run.drive s = (.done (.ok 2), s') ∧
      FannedOut "k" [] 2 s s') ∧
    ∃ x s', Reaches (Eases "k") (rounds w d "k" [.fanOut [], .runNext, .fanOut []]) idle x s' ∧
      (s'.queue.readyJobs "k").length = 3 ∧
      (s'.members "k").length + (s'.queue.readyJobs "k").length ≤ 3 := by
  intro lt w d members s idle
  have hq : s.Quiet := fun _ => rfl
  have hl : s.store.Listed := by
    refine MemoryStore.listed_insert MemoryStore.listed_empty ?_
    rintro ms ⟨⟩
    unfold MemoryStore.Distinct
    decide
  have hv : s.store.view s.clock (RunningSet.keyOf "k") =
      IdealEntry.ofSet? (MemoryStore.membersOf members) none := by decide +kernel
  have hadded : ∀ x ∈ MemoryStore.membersOf members, x.addedAt.Representable := by decide
  have hset : ∀ x ∈ MemoryStore.membersOf members, ∀ ms e,
      s.store.view s.clock (Liveness.key x.member) ≠ some ⟨.set ms, e⟩ := by
    have hnone : ∀ x ∈ MemoryStore.membersOf members,
        s.store.view s.clock (Liveness.key x.member) = none := by decide +kernel
    intro x hx ms e he
    cases (hnone x hx).symm.trans he
  have hsteady : w.Serves "k" 3 (Steady "k") :=
    ⟨rfl, rfl, rfl, fun _ => .done _, fun _ _ => .done _⟩
  have hstays : w.Stays "k" 3 (Eases "k") :=
    ⟨⟨rfl, rfl, rfl, fun _ => .done _, fun _ _ => .done _⟩, nofun, fun _ => .done _⟩
  obtain ⟨hone, hmany⟩ :=
    fanOut_within_capacity (Q := Empty) (ρ := Empty) lt "k" 3 (by decide)
  refine ⟨by decide +kernel, ?_, ?_⟩
  · obtain ⟨s₁, s₂, left, s₃, s', hclean, hcleaned, _, hleft, hfan, hout⟩ :=
      hone w [] s hsteady nofun rfl hq (by decide +kernel) (by decide +kernel)
    have hmembers : (s₁.members "k").length = 1 := by
      have hsurvivors : (w.running.survivors none s (MemoryStore.membersOf members)).card = 1 := by
        decide +kernel
      rw [← hsurvivors]
      exact (hcleaned none _ none rfl hl hv (by decide) hadded hset).2
    have hthree : left = 3 := by
      cases hleft
      rfl
    rw [hmembers, hthree] at hfan hout
    exact ⟨s', hfan, hout⟩
  · have hend := reaches_drive (R := Eases "k")
      (rounds w d "k" [.fanOut [], .runNext, .fanOut []]) idle
    have hle := hmany w d _ idle _ _ hstays rfl rfl (fun _ => rfl) nofun (by decide) hend
    have hempty : (idle.members "k").length + (idle.queue.readyJobs "k").length = 0 := by decide
    rw [hempty] at hle
    refine ⟨_, _, hend, by decide +kernel, ?_⟩
    omega

end Worker

end Turnstile
