import Turnstile.Proofs.Worker.Confinement

/-!
# Isolation of job kinds

Operations on several kinds of jobs take turns, step by step, on one machine while time passes: jobs
are submitted, checked for duplicates and executed, workers fan out, and running sets are kept. If the
turns of all other kinds are left out, every operation on a kind still ends as it did, and the machine
still holds the same for that kind.
-/

namespace Turnstile

open Machine Thread

/-! ### Operations -/

/-- How a process serves jobs. -/
structure Site where
  entryTtl : Duration
  batchSize : Nat
  /-- The liveness keys that running sets ask about their members, if they ask. -/
  tracking : Option Liveness
  transport : LocalTransport
  /-- The policies by which submitted jobs are marked, if they are. -/
  marking : Option DedupPolicies
  dispatcher : Dispatcher Program
  load : String → Workload Program
  setGauge : Series → Double → Program Unit

namespace Site

variable (site : Site)

def running (kind : String) : RunningSet Program :=
  { kind, entryTtl := site.entryTtl, batchSize := site.batchSize,
    probe := site.tracking.map Liveness.probe }

def submits : Transport Program :=
  match site.marking with
  | none => site.transport.toTransport
  | some policies => site.transport.toTransport.marking policies

def worker (kind : String) : Worker Program :=
  { load := site.load kind, running := site.running kind, transport := site.submits,
    setGauge := site.setGauge }

end Site

/-- What can be done about jobs of a kind. -/
inductive Operation
  | submit (job : Job)
  | submitBatch (jobs : List Job)
  | submitAt (due : Instant) (job : Job)
  /-- Claims the key of a job for some time, or finds its owner. -/
  | check (job : Job) (policy : DedupPolicy) (ttl : Duration)
  /-- Executes the next job. -/
  | runNext
  /-- Executes jobs until none is ready or so many have run. -/
  | drain (most : Nat)
  | fanOut (args : List Json)
  | register (id : String)
  | remove (id : String)
  | cleanUp

/-- What an operation ends with. -/
inductive Errand.Outcome
  | submitted (r : Except Halt String)
  | submittedAll (r : Except Halt (List String))
  | checked (r : Except Fault (Option String))
  | dispatched (r : Except Halt Dispatch)
  | drained (r : Except Halt DrainReport)
  | fannedOut (r : Except Halt Nat)
  | kept (r : Except Fault Unit)
  | cleaned (r : Except Fault Nat)

/-- An operation on a kind that somebody carries out. -/
structure Errand where
  kind : String
  site : Site
  operation : Operation
  /-- When it may take its first step. -/
  begins : Instant
  /-- What it is told when it asks for a name at one of its turns. -/
  names : Nat → NameSort → String

def Errand.program (e : Errand) : Program Errand.Outcome :=
  match e.operation with
  | .submit job => do return .submitted (← (e.site.submits.submit job).run)
  | .submitBatch jobs => do return .submittedAll (← (e.site.submits.submitBatch jobs).run)
  | .submitAt due job => do return .submitted (← (e.site.submits.submitAt due job).run)
  | .check job policy ttl => do return .checked (← ((Claim.of job policy).check ttl).run)
  | .runNext => do return .dispatched (← (e.site.dispatcher.runNext e.kind).run)
  | .drain most => do return .drained (← (e.site.dispatcher.drain e.kind most).run)
  | .fanOut args => do return .fannedOut (← ((e.site.worker e.kind).performWithCapacity args).run)
  | .register id => do return .kept (← ((e.site.running e.kind).register id).run)
  | .remove id => do return .kept (← ((e.site.running e.kind).remove id).run)
  | .cleanUp => do return .cleaned (← (e.site.running e.kind).cleanUp.run)

/-! ### Runs -/

/-- Errands under way on one machine. -/
structure Floor (ι : Type) where
  machine : Machine
  threads : ι → Program Errand.Outcome
  /-- How many turns each has had. -/
  turns : ι → Nat

/-- What happens next. -/
inductive Floor.Event (ι : Type)
  /-- An errand takes a step, if it has begun. -/
  | turn (who : ι)
  /-- The clock moves on to a time, unless it is past that. -/
  | later (time : Instant)

def Floor.Event.concerns {ι : Type} (errands : ι → Errand) (kind : String) : Event ι → Bool
  | turn who => (errands who).kind = kind
  | later _ => true

namespace Floor

variable {ι : Type} (errands : ι → Errand)

def start (s : Machine) : Floor ι :=
  { machine := s, threads := fun i => (errands i).program, turns := fun _ => 0 }

def later (f : Floor ι) (time : Instant) : Floor ι :=
  if f.machine.clock ≤ time then { f with machine := { f.machine with clock := time } } else f

/-- What an errand has ended with, once it has. -/
def outcome? (f : Floor ι) (who : ι) : Option Errand.Outcome := (f.threads who).answer?

variable [DecidableEq ι]

def turn (f : Floor ι) (who : ι) : Floor ι :=
  if (errands who).begins ≤ f.machine.clock then
    let moved := (f.threads who).move ((errands who).names (f.turns who)) f.machine
    { machine := moved.2, threads := Function.update f.threads who moved.1,
      turns := Function.update f.turns who (f.turns who + 1) }
  else f

def next (f : Floor ι) : Event ι → Floor ι
  | .turn who => f.turn errands who
  | .later time => f.later time

/-- Where events lead to from a machine on which no errand has had a turn. -/
def run (s : Machine) (events : List (Event ι)) : Floor ι :=
  events.foldl (next errands) (start errands s)

end Floor

/-! ### Errands that keep to their kind -/

variable {kindOf : String → String} {kind : String} {since : Instant}

/-- An operation that names jobs of the kind only, and submits none that is held back. -/
def Operation.Fits (kindOf : String → String) (kind : String) (since : Instant) : Operation → Prop
  | submit job => job.DueFor kindOf kind since
  | submitBatch jobs => ∀ job ∈ jobs, job.DueFor kindOf kind since
  | submitAt due job => due ≤ since ∧ job.kind = kind ∧ IdOf kindOf kind job.id
  | check job _ _ => job.kind = kind
  | register id | remove id => IdOf kindOf kind id
  | runNext | drain _ | fanOut _ | cleanUp => True

/-- An errand whose operation, handler and workload act on its own kind only. -/
structure Errand.Keeps (kindOf : String → String) (e : Errand) : Prop where
  operation : e.operation.Fits kindOf e.kind e.begins
  names : ∀ n, IdOf kindOf e.kind (e.names n .jobId)
  handler : ∀ handler, e.site.dispatcher.handlers.get? e.kind = some handler →
    HandlerKeeps kindOf e.kind e.begins handler
  loadKind : (e.site.load e.kind).kind = e.kind
  maxRunning : Confined kindOf e.kind e.begins (e.site.load e.kind).maxRunning fun _ => True
  remaining : ∀ args,
    Confined kindOf e.kind e.begins ((e.site.load e.kind).remaining args) fun _ => True
  work : ∀ args, Confined kindOf e.kind e.begins ((e.site.load e.kind).work args) fun _ => True
  setGauge : ∀ series value,
    Confined kindOf e.kind e.begins (e.site.setGauge series value) fun _ => True

theorem Site.keeps_probe (site : Site) {p : Probe Program}
    (h : (site.running kind).probe = some p) : p.Keeps kindOf kind since := by
  obtain ⟨l, -, rfl⟩ := Option.map_eq_some_iff.mp h
  exact l.keeps_probe

theorem Site.keeps_submits (site : Site) : site.submits.Keeps kindOf kind since := by
  unfold Site.submits
  split
  · exact site.transport.keeps_toTransport
  · exact site.transport.keeps_toTransport.marking _

theorem Errand.Keeps.worker {e : Errand} (h : e.Keeps kindOf) :
    (e.site.worker e.kind).Keeps kindOf e.kind e.begins where
  loadKind := h.loadKind
  runningKind := rfl
  maxRunning := h.maxRunning
  remaining := h.remaining
  work := h.work
  probe _ hp := e.site.keeps_probe hp
  transport := e.site.keeps_submits
  setGauge := h.setGauge

theorem Errand.Keeps.confined {e : Errand} (h : e.Keeps kindOf) :
    Confined kindOf e.kind e.begins e.program fun _ => True := by
  have hend {α : Type} {x : Program α} {post : α → Prop} (hx : Confined kindOf e.kind e.begins x post)
      (f : α → Errand.Outcome) :
      Confined kindOf e.kind e.begins (x >>= fun a => pure (f a)) fun _ => True :=
    hx.bind fun _ _ => confined_pure trivial
  have hsubmits : e.site.submits.Keeps kindOf e.kind e.begins := e.site.keeps_submits
  have hprobe (p : Probe Program) (hp : (e.site.running e.kind).probe = some p) :
      p.Keeps kindOf e.kind e.begins := e.site.keeps_probe hp
  have hop := h.operation
  unfold program
  cases ho : e.operation <;> rw [ho] at hop
  case submit job => exact hend (hsubmits.submit job hop) _
  case submitBatch jobs => exact hend (hsubmits.submitBatch jobs hop) _
  case submitAt due job => exact hend (hsubmits.submitAt due job hop.1 hop.2.1 hop.2.2) _
  case check job policy ttl => exact hend (Claim.confined_check (Claim.keyOf_of hop policy) ttl) _
  case runNext => exact hend (Dispatcher.confined_runNext h.handler) _
  case drain most => exact hend (Dispatcher.confined_drain h.handler most) _
  case fanOut args => exact hend (Worker.confined_performWithCapacity h.worker args) _
  case register id => exact hend (RunningSet.confined_register rfl hprobe hop) _
  case remove id => exact hend (RunningSet.confined_remove rfl hprobe hop) _
  case cleanUp => exact hend (RunningSet.confined_cleanUp rfl hprobe) _

/-! ### Two runs -/

namespace Floor

variable {ι : Type} {errands : ι → Errand} {f g : Floor ι} {who : ι}

/-- Nothing is out of place, and each errand keeps to its kind. -/
structure Orderly (kindOf : String → String) (errands : ι → Errand) (f : Floor ι) : Prop where
  tidy : f.machine.Tidy kindOf
  confined : ∀ i, Confined kindOf (errands i).kind (errands i).begins (f.threads i) fun _ => True

/-- The errands on a kind have come equally far, on machines that hold the same for it. -/
structure Twin (kindOf : String → String) (errands : ι → Errand) (kind : String)
    (f g : Floor ι) : Prop where
  same : f.machine.Same kindOf kind g.machine
  threads : ∀ i, (errands i).kind = kind → f.threads i = g.threads i
  turns : ∀ i, (errands i).kind = kind → f.turns i = g.turns i

theorem Twin.refl (f : Floor ι) : Twin kindOf errands kind f f :=
  ⟨.refl _, fun _ _ => rfl, fun _ _ => rfl⟩

theorem Orderly.start {s : Machine} (h : ∀ i, (errands i).Keeps kindOf) (hs : s.Tidy kindOf) :
    Orderly kindOf errands (start errands s) := ⟨hs, fun i => (h i).confined⟩

theorem Orderly.later (hf : Orderly kindOf errands f) (time : Instant) :
    Orderly kindOf errands (f.later time) := by
  unfold Floor.later
  split
  · next hle => exact ⟨hf.tidy.later hle, hf.confined⟩
  · exact hf

theorem Twin.later (h : Twin kindOf errands kind f g) (time : Instant) :
    Twin kindOf errands kind (f.later time) (g.later time) := by
  unfold Floor.later
  rw [← h.same.clock]
  split
  · exact ⟨h.same.later time, h.threads, h.turns⟩
  · exact h

variable [DecidableEq ι]

theorem Orderly.turn (h : ∀ i, (errands i).Keeps kindOf) (hf : Orderly kindOf errands f) (who : ι) :
    Orderly kindOf errands (f.turn errands who) := by
  unfold Floor.turn
  split
  · next hbegun =>
    obtain ⟨hmoved, htidy, -⟩ :=
      (hf.confined who).move ⟨hf.tidy, hbegun⟩ ((h who).names (f.turns who))
    refine ⟨htidy, fun i => ?_⟩
    by_cases hi : i = who
    · subst hi
      simpa only [Function.update_self] using hmoved
    · simpa only [Function.update_of_ne hi] using hf.confined i
  · exact hf

theorem Orderly.next (h : ∀ i, (errands i).Keeps kindOf) (hf : Orderly kindOf errands f)
    (e : Event ι) : Orderly kindOf errands (f.next errands e) := by
  cases e with
  | turn who => exact hf.turn h who
  | later time => exact hf.later time

/-- A turn on both floors. -/
theorem Twin.turn (hf : Orderly kindOf errands f) (hg : Orderly kindOf errands g)
    (h : Twin kindOf errands kind f g) (hk : (errands who).kind = kind) :
    Twin kindOf errands kind (f.turn errands who) (g.turn errands who) := by
  unfold Floor.turn
  rw [← h.same.clock]
  split
  · next hbegun =>
    have hbegun' : (errands who).begins ≤ g.machine.clock := h.same.clock ▸ hbegun
    have hconfined : Confined kindOf kind (errands who).begins (f.threads who) fun _ => True :=
      hk ▸ hf.confined who
    obtain ⟨hthread, hsame⟩ := hconfined.move_same (n := (errands who).names (f.turns who))
      ⟨hf.tidy, hbegun⟩ ⟨hg.tidy, hbegun'⟩ h.same
    rw [← h.threads who hk, ← h.turns who hk]
    refine ⟨hsame, fun i hi => ?_, fun i hi => ?_⟩
    · simp only [Function.update_apply, hthread, h.threads i hi]
    · simp only [Function.update_apply, h.turns i hi]
  · exact h

/-- A turn that only one floor sees, of an errand on another kind. -/
theorem Twin.turn_apart (hf : Orderly kindOf errands f) (h : Twin kindOf errands kind f g)
    (hne : (errands who).kind ≠ kind) : Twin kindOf errands kind (f.turn errands who) g := by
  unfold Floor.turn
  split
  · next hbegun =>
    have happart : f.machine.Same kindOf kind _ :=
      (hf.confined who).move_apart (n := (errands who).names (f.turns who))
        ⟨hf.tidy, hbegun⟩ (Ne.symm hne)
    have hother (i : ι) (hi : (errands i).kind = kind) : i ≠ who := by
      rintro rfl
      exact hne hi
    refine ⟨happart.symm.trans h.same, fun i hi => ?_, fun i hi => ?_⟩
    · rw [← h.threads i hi]
      exact Function.update_of_ne (hother i hi) _ _
    · rw [← h.turns i hi]
      exact Function.update_of_ne (hother i hi) _ _
  · exact h

theorem Twin.next (hf : Orderly kindOf errands f) (hg : Orderly kindOf errands g)
    (h : Twin kindOf errands kind f g) {e : Event ι} (he : e.concerns errands kind) :
    Twin kindOf errands kind (f.next errands e) (g.next errands e) := by
  cases e with
  | turn who => exact h.turn hf hg (of_decide_eq_true he)
  | later time => exact h.later time

theorem Twin.next_apart (hf : Orderly kindOf errands f) (h : Twin kindOf errands kind f g)
    {e : Event ι} (he : ¬e.concerns errands kind) :
    Twin kindOf errands kind (f.next errands e) g := by
  cases e with
  | turn who => exact h.turn_apart hf fun hk => he (decide_eq_true hk)
  | later time => exact absurd rfl he

theorem Twin.foldl (h : ∀ i, (errands i).Keeps kindOf) (events : List (Event ι))
    (hf : Orderly kindOf errands f) (hg : Orderly kindOf errands g)
    (hfg : Twin kindOf errands kind f g) :
    Twin kindOf errands kind (events.foldl (Floor.next errands) f)
      ((events.filter (Event.concerns errands kind)).foldl (Floor.next errands) g) := by
  induction events generalizing f g with
  | nil => exact hfg
  | cons e rest ih =>
    by_cases he : e.concerns errands kind
    · rw [List.filter_cons_of_pos he]
      exact ih (hf.next h e) (hg.next h e) (hfg.next hf hg he)
    · -- only the first floor sees it
      rw [List.filter_cons_of_neg he]
      exact ih (hf.next h e) hg (hfg.next_apart hf he)

/-- Kinds are isolated: without the turns of all other kinds, each operation on a kind ends as it does
with them, and the machine holds the same for the kind. -/
theorem isolated (h : ∀ i, (errands i).Keeps kindOf) {s : Machine} (hs : s.Tidy kindOf)
    (kind : String) (events : List (Event ι)) :
    (∀ i, (errands i).kind = kind →
        (run errands s events).outcome? i =
          (run errands s (events.filter (Event.concerns errands kind))).outcome? i) ∧
      (run errands s events).machine.Same kindOf kind
        (run errands s (events.filter (Event.concerns errands kind))).machine := by
  have hstart := Orderly.start h hs
  have htwin : Twin kindOf errands kind (run errands s events) _ :=
    Twin.foldl h events hstart hstart (.refl _)
  exact ⟨fun i hi => congrArg Thread.answer? (htwin.threads i hi), htwin.same⟩

/-- A worker fans out jobs of a kind that is called like the keys of live jobs, and one of them is run,
while somebody registers a job of a kind that is called like a claim. -/
theorem isolated_of_three :
    let live : Liveness := { ttl := Duration.ofSeconds 5 }
    let work : Workload Program :=
      { kind := "job_status", maxRunning := pure 2, remaining := fun _ => pure 1
        work := fun _ => pure .succeeded }
    let idle : Site :=
      { entryTtl := Duration.ofSeconds 5, batchSize := 1, tracking := some live
        transport := { liveness := some live }, marking := some (.ofPolicy .default)
        dispatcher := { handlers := Keyed.empty, releasing := some (.ofPolicy .default),
                        liveness := some live }
        load := fun kind => { work with kind }, setGauge := fun _ _ => pure () }
    let handlers := Keyed.empty.insert "job_status" (idle.worker "job_status").handle
    let site : Site := { idle with dispatcher := { idle.dispatcher with handlers } }
    let kind (who : Option Bool) : String := if who = none then "dedup:job_status" else "job_status"
    let id (who : Option Bool) : String := jobIdOf (if who = none then 1 else 2)
    let kindOf (text : String) : String := if text = id none then kind none else kind (some true)
    let errands (who : Option Bool) : Errand :=
      { kind := kind who, site, begins := Instant.epoch, names := fun _ _ => id who
        operation := who.elim (.register (id who)) fun first => if first then .fanOut [] else .runNext }
    let s := ofClock Instant.epoch
    let events : List (Event (Option Bool)) :=
      (List.replicate 32 [.turn none, .later ⟨1, 0⟩, .turn (some true)]).flatten ++
        List.replicate 32 (.turn (some false))
    let all := run errands s events
    let own := run errands s (events.filter (Event.concerns errands "job_status"))
    (∀ who, (errands who).Keeps kindOf) ∧ s.Tidy kindOf ∧
      ((all.outcome? (some true)).isSome ∧ (all.outcome? (some false)).isSome ∧
        all.machine.members "dedup:job_status" = [id none]) ∧
      own.machine.members "dedup:job_status" = [] ∧
      all.outcome? (some true) = own.outcome? (some true) ∧
      all.outcome? (some false) = own.outcome? (some false) ∧
      all.machine.Same kindOf "job_status" own.machine := by
  intro live work idle handlers site kind id kindOf errands s events all own
  have hid (who : Option Bool) : IdOf kindOf (kind who) (id who) := by
    refine ⟨generated_jobIdOf _, ?_⟩
    rcases who with _ | _ | _ <;> decide
  have hworker : (idle.worker "job_status").Keeps kindOf "job_status" Instant.epoch :=
    ⟨rfl, rfl, confined_pure trivial, fun _ => confined_pure trivial, fun _ => confined_pure trivial,
      fun _ => idle.keeps_probe, idle.keeps_submits, fun _ _ => confined_pure trivial⟩
  have hkeeps (who : Option Bool) : (errands who).Keeps kindOf := by
    refine ⟨?_, fun _ => hid who, ?_, rfl, ?_, ?_, ?_, ?_⟩
    · rcases who with _ | _ | _
      · exact hid none
      · exact trivial
      · exact trivial
    · intro handler h
      rcases who with _ | first
      · cases h
      · obtain rfl := Option.some.inj h
        exact Worker.keeps_handle hworker
    · exact confined_pure trivial
    · exact fun _ => confined_pure trivial
    · exact fun _ => confined_pure trivial
    · exact fun _ _ => confined_pure trivial
  have htidy : s.Tidy kindOf := tidy_ofClock Instant.epoch
  obtain ⟨houtcome, hsame⟩ := isolated hkeeps htidy "job_status" events
  refine ⟨hkeeps, htidy, ?_, ?_, ?_, ?_, hsame⟩
  · decide +kernel
  · decide +kernel
  · exact houtcome (some true) (by decide)
  · exact houtcome (some false) (by decide)

end Floor

end Turnstile
