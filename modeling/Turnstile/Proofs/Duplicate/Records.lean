import Turnstile.Proofs.Duplicate.Keys
import Turnstile.Proofs.Duplicate.Marking
import Turnstile.Proofs.Store.Ownership

/-!
# Records of idempotency keys

What the store holds under idempotency keys follows from what has happened: which jobs were left
unmarked, under which deadlines, and which of them have given up their claims since.
-/

namespace Turnstile

/-- What happens to jobs. -/
inductive Happening
  /-- A job is taken in, with the mark that it got. -/
  | left (time : Instant) (job : Job)
  | begun (id : String)
  | ended (id : String)

namespace Happening

def jobs (h : List Happening) : List Job :=
  h.filterMap fun
    | left _ job => some job
    | _ => none

def ids (h : List Happening) : List String := (jobs h).map (·.id)

variable {h : List Happening} {job other : Job} {t t' : Instant}

theorem ids_append (h more : List Happening) : ids (h ++ more) = ids h ++ ids more := by
  rw [ids, jobs, List.filterMap_append, List.map_append]
  rfl

theorem mem_jobs (hj : .left t job ∈ h) : job ∈ jobs h := List.mem_filterMap.mpr ⟨_, hj, rfl⟩

theorem mem_ids (hj : .left t job ∈ h) : job.id ∈ ids h := List.mem_map_of_mem (mem_jobs hj)

theorem eq_of_id (hn : (ids h).Nodup) (hj : .left t job ∈ h) (ho : .left t' other ∈ h)
    (hid : job.id = other.id) : t = t' ∧ job = other := by
  induction h with
  | nil => cases hj
  | cons e rest ih =>
    have hrest : ∀ (t : Instant) (job : Job), e = .left t job → job.id ∉ ids rest := by
      rintro t job rfl
      exact (List.nodup_cons.mp hn).1
    have htail : (ids rest).Nodup := by
      cases e with
      | left t job => exact (List.nodup_cons.mp hn).2
      | begun id => exact hn
      | ended id => exact hn
    rcases List.mem_cons.mp hj with hj | hj
    · rcases List.mem_cons.mp ho with ho | ho
      · cases hj.trans ho.symm
        exact ⟨rfl, rfl⟩
      · exact absurd (hid ▸ mem_ids ho) (hrest t job hj.symm)
    · rcases List.mem_cons.mp ho with ho | ho
      · exact absurd (hid ▸ mem_ids hj) (hrest t' other ho.symm)
      · exact ih htail hj ho

end Happening

namespace DedupPolicies

def claimOf (ps : DedupPolicies) (job : Job) : Claim := Claim.of job (ps.forKind job.kind)

/-- Whether a job gives up its claim when something happens. -/
def Releases (ps : DedupPolicies) (job : Job) (e : Happening) : Prop :=
  match (ps.forKind job.kind).release with
  | .none => False
  | .untilExecuting => e = .begun job.id
  | .untilExecuted => e = .ended job.id

/-- A job that takes part was left unmarked, and made a claim under a deadline. -/
def Claimed (ps : DedupPolicies) (h : List Happening) (o : Job) (deadline : Option Instant) : Prop :=
  ∃ t ttl, .left t o ∈ h ∧ (ps.claimOf o).applies t = true ∧ o.duplicateOf = none ∧
    (ps.claimOf o).expiry? t = some ttl ∧ deadline = t.deadline? ttl

/-- A job has made a claim that it has not given up. -/
def Owns (ps : DedupPolicies) (h : List Happening) (o : Job) (deadline : Option Instant) : Prop :=
  ps.Claimed h o deadline ∧ ∀ e ∈ h, ¬ ps.Releases o e

/-- A job's claim keeps other jobs from owning its key at a time. -/
def Blocks (ps : DedupPolicies) (h : List Happening) (now : Instant) (o : Job) : Prop :=
  ∃ deadline, ps.Owns h o deadline ∧ ∀ d, deadline = some d → now < d

/-- The claims that were made on a key and not given up. -/
def claims (ps : DedupPolicies) (h : List Happening) (key token : String)
    (deadline : Option Instant) : Prop :=
  ∃ o, ps.Owns h o deadline ∧ o.key = key ∧ token = o.id

/-- The store after a job has given up its claim, if it does so at that point. -/
def giveUp (ps : DedupPolicies) (job : Job) (point : ReleasePoint) (s : MemoryStore)
    (now : Instant) : MemoryStore :=
  if (ps.forKind job.kind).release = point ∧ job.isDuplicate = false then
    (s.call now (.deleteIfEq job.key job.id)).2
  else s

/-- The store's records and the marks of jobs follow from what has happened. -/
structure Recorded (ps : DedupPolicies) (h : List Happening) (s : MemoryStore) (now : Instant) :
    Prop where
  ids : (Happening.ids h).Nodup
  known : ∀ id, .begun id ∈ h ∨ .ended id ∈ h → id ∈ Happening.ids h
  owned : ∀ kind args, s.Owned now (IdempotencyKey.of kind args)
    (ps.claims h (IdempotencyKey.of kind args))
  marks : ∀ before t j after, h = before ++ .left t j :: after → ∀ i,
    j.duplicateOf = some i ↔ (ps.claimOf j).applies t = true ∧
      ∃ o, ps.Blocks before t o ∧ o.key = j.key ∧ o.id = i

variable {ps : DedupPolicies} {h : List Happening} {s s' : MemoryStore} {now later : Instant}
  {job o : Job} {deadline : Option Instant} {e : Happening}

/-! ### Claims and what happens -/

theorem Releases.eq (hr : ps.Releases job e) : e = .begun job.id ∨ e = .ended job.id := by
  unfold Releases at hr
  split at hr
  · exact hr.elim
  · exact Or.inl hr
  · exact Or.inr hr

theorem not_releases_left (now : Instant) (other : Job) : ¬ ps.Releases job (.left now other) := by
  intro hr
  rcases hr.eq with he | he <;> cases he

theorem Owns.left_mem (ho : ps.Owns h o deadline) : ∃ t, .left t o ∈ h := by
  obtain ⟨⟨t, _, hmem, _⟩, _⟩ := ho
  exact ⟨t, hmem⟩

theorem claimed_append {more : List Happening} :
    ps.Claimed (h ++ more) o deadline ↔ ps.Claimed h o deadline ∨ ps.Claimed more o deadline := by
  simp only [Claimed, List.mem_append, or_and_right, exists_or]

theorem owns_append {more : List Happening} : ps.Owns (h ++ more) o deadline ↔
    (ps.Claimed h o deadline ∨ ps.Claimed more o deadline) ∧
      (∀ e ∈ h, ¬ ps.Releases o e) ∧ ∀ e ∈ more, ¬ ps.Releases o e := by
  rw [Owns, claimed_append, List.forall_mem_append]

theorem owns_append_left (hr : ∀ e ∈ h, ¬ ps.Releases job e) :
    ps.Owns (h ++ [.left now job]) o deadline ↔ ps.Owns h o deadline ∨
      (o = job ∧ (ps.claimOf job).applies now = true ∧ job.duplicateOf = none ∧
        ∃ ttl, (ps.claimOf job).expiry? now = some ttl ∧ deadline = now.deadline? ttl) := by
  rw [owns_append, List.forall_mem_singleton]
  constructor
  · rintro ⟨hclaimed | ⟨t, ttl, hmem, ha, hd, hx, hdl⟩, hrel, _⟩
    · exact Or.inl ⟨hclaimed, hrel⟩
    · cases List.mem_singleton.mp hmem
      exact Or.inr ⟨rfl, ha, hd, ttl, hx, hdl⟩
  · rintro (⟨hclaimed, hrel⟩ | ⟨rfl, ha, hd, ttl, hx, hdl⟩)
    · exact ⟨Or.inl hclaimed, hrel, not_releases_left now job⟩
    · exact ⟨Or.inr ⟨now, ttl, List.mem_singleton_self _, ha, hd, hx, hdl⟩, hr,
        not_releases_left now o⟩

theorem owns_append_event (he : ∀ t j, e ≠ .left t j) :
    ps.Owns (h ++ [e]) o deadline ↔ ps.Owns h o deadline ∧ ¬ ps.Releases o e := by
  have hnone : ¬ ps.Claimed [e] o deadline := by
    rintro ⟨t, _, hmem, _⟩
    exact he t o (List.mem_singleton.mp hmem).symm
  rw [owns_append, List.forall_mem_singleton, or_iff_left hnone, ← and_assoc]
  rfl

theorem Owns.append_lefts (ho : ps.Owns h o deadline) (left : List Job) (now : Instant) :
    ps.Owns (h ++ left.map (.left now)) o deadline := by
  refine owns_append.mpr ⟨Or.inl ho.1, ho.2, ?_⟩
  intro e he
  obtain ⟨job, _, rfl⟩ := List.mem_map.mp he
  exact not_releases_left now job

theorem Owns.of_append_lefts {left : List Job}
    (ho : ps.Owns (h ++ left.map (.left now)) o deadline) :
    ps.Owns h o deadline ∨ (o ∈ left ∧ (ps.claimOf o).applies now = true) := by
  obtain ⟨hclaimed | ⟨t, ttl, hmem, ha, _⟩, hrel, _⟩ := owns_append.mp ho
  · exact Or.inl ⟨hclaimed, hrel⟩
  · obtain ⟨job, hjob, heq⟩ := List.mem_map.mp hmem
    cases heq
    exact Or.inr ⟨hjob, ha⟩

/-! ### One more happening -/

namespace Recorded

theorem of_empty (hs : ∀ key, s.live? now key = none) : ps.Recorded [] s now := by
  refine ⟨List.nodup_nil, ?_, ?_, ?_⟩
  · rintro id (hmem | hmem) <;> cases hmem
  · intro kind args
    refine MemoryStore.Owned.of_free (hs _) ?_
    rintro token d ⟨o, ho, _⟩
    obtain ⟨t, hmem⟩ := ho.left_mem
    cases hmem
  · intro before t j after hsplit
    exact absurd hsplit.symm (List.append_ne_nil_of_right_ne_nil _ (List.cons_ne_nil _ _))

theorem of_le (hr : ps.Recorded h s now) (hn : now ≤ later) : ps.Recorded h s later :=
  { hr with owned := fun kind args => (hr.owned kind args).of_le hn }

theorem of_live?_eq (hr : ps.Recorded h s now)
    (hs : ∀ kind args, s'.live? now (IdempotencyKey.of kind args) =
      s.live? now (IdempotencyKey.of kind args)) : ps.Recorded h s' now :=
  { hr with owned := fun kind args => (hr.owned kind args).of_live?_eq (hs kind args) }

theorem marks_append (hr : ps.Recorded h s now)
    (hnew : ∀ t j, e = .left t j → ∀ i, j.duplicateOf = some i ↔
      (ps.claimOf j).applies t = true ∧ ∃ o, ps.Blocks h t o ∧ o.key = j.key ∧ o.id = i)
    (before : List Happening) (t : Instant) (j : Job) (after : List Happening)
    (hsplit : h ++ [e] = before ++ .left t j :: after) (i : String) :
    j.duplicateOf = some i ↔ (ps.claimOf j).applies t = true ∧
      ∃ o, ps.Blocks before t o ∧ o.key = j.key ∧ o.id = i := by
  rcases List.eq_nil_or_concat' after with rfl | ⟨after, last, rfl⟩
  · obtain ⟨rfl, he⟩ := List.append_inj' hsplit rfl
    exact hnew t j (List.cons.inj he).1 i
  · rw [← List.cons_append, ← List.append_assoc] at hsplit
    exact hr.marks before t j after (List.append_inj' hsplit rfl).1 i

theorem releases_of_fresh (hr : ps.Recorded h s now) (hf : job.id ∉ Happening.ids h) :
    ∀ e ∈ h, ¬ ps.Releases job e := by
  intro e he hrel
  rcases hrel.eq with rfl | rfl
  · exact hf (hr.known _ (Or.inl he))
  · exact hf (hr.known _ (Or.inr he))

theorem ids_append_left (hr : ps.Recorded h s now) (hf : job.id ∉ Happening.ids h) :
    (Happening.ids (h ++ [.left now job])).Nodup := by
  rw [Happening.ids_append]
  refine List.nodup_append.mpr ⟨hr.ids, List.pairwise_singleton _ _, ?_⟩
  rintro id hid id' hid' rfl
  have hjob : id = job.id := List.mem_singleton.mp hid'
  exact hf (hjob ▸ hid)

theorem known_append_left (hr : ps.Recorded h s now) (id : String)
    (hid : .begun id ∈ h ++ [.left now job] ∨ .ended id ∈ h ++ [.left now job]) :
    id ∈ Happening.ids (h ++ [.left now job]) := by
  rw [Happening.ids_append]
  refine List.mem_append_left _ (hr.known id ?_)
  rcases hid with hid | hid
  · rcases List.mem_append.mp hid with hid | hid
    · exact Or.inl hid
    · cases List.mem_singleton.mp hid
  · rcases List.mem_append.mp hid with hid | hid
    · exact Or.inr hid
    · cases List.mem_singleton.mp hid

theorem live_iff (hr : ps.Recorded h s now) (kind : String) (args : List Json) (slot : Slot) :
    s.live? now (IdempotencyKey.of kind args) = some slot ↔ ∃ o d, ps.Owns h o d ∧
      o.key = IdempotencyKey.of kind args ∧ slot = Slot.ofToken o.id d ∧
      ∀ e, d = some e → now < e := by
  constructor
  · intro hl
    obtain ⟨token, d, ⟨o, ho, hkey, rfl⟩, rfl, hd⟩ := (hr.owned kind args slot).mp hl
    exact ⟨o, d, ho, hkey, rfl, MemoryStore.isExpired_ofToken.mp hd⟩
  · rintro ⟨o, d, ho, hkey, rfl, hd⟩
    exact (hr.owned kind args).live?_of_claim ⟨o, ho, hkey, rfl⟩
      (MemoryStore.isExpired_ofToken.mpr hd)

theorem blocks_of_live (hr : ps.Recorded h s now) {key : String}
    (hk : ∃ kind args, key = IdempotencyKey.of kind args) {slot : Slot}
    (hl : s.live? now key = some slot) :
    ∃ o, ps.Blocks h now o ∧ o.key = key ∧ slot.value = .text o.id := by
  obtain ⟨kind, args, rfl⟩ := hk
  obtain ⟨o, d, ho, hkey, rfl, hd⟩ := (hr.live_iff kind args slot).mp hl
  exact ⟨o, ⟨d, ho, hd⟩, hkey, rfl⟩

theorem live_of_blocks (hr : ps.Recorded h s now) (ho : ps.Blocks h now o) :
    ∃ d, s.live? now o.key = some (Slot.ofToken o.id d) := by
  obtain ⟨d, howns, hd⟩ := ho
  exact ⟨d, (hr.live_iff o.kind o.args _).mpr ⟨o, d, howns, rfl, rfl, hd⟩⟩

theorem claims_append_left (hr : ps.Recorded h s now) (hf : job.id ∉ Happening.ids h)
    {key token : String} :
    ps.claims (h ++ [.left now job]) key token deadline ↔ ps.claims h key token deadline ∨
      (job.key = key ∧ token = job.id ∧ (ps.claimOf job).applies now = true ∧
        job.duplicateOf = none ∧
        ∃ ttl, (ps.claimOf job).expiry? now = some ttl ∧ deadline = now.deadline? ttl) := by
  constructor
  · rintro ⟨o, ho, hkey, htoken⟩
    rcases (owns_append_left (hr.releases_of_fresh hf)).mp ho with ho | ⟨rfl, ha, hd, hx⟩
    · exact Or.inl ⟨o, ho, hkey, htoken⟩
    · exact Or.inr ⟨hkey, htoken, ha, hd, hx⟩
  · rintro (⟨o, ho, hkey, htoken⟩ | ⟨hkey, htoken, ha, hd, hx⟩)
    · exact ⟨o, (owns_append_left (hr.releases_of_fresh hf)).mpr (Or.inl ho), hkey, htoken⟩
    · exact ⟨job, (owns_append_left (hr.releases_of_fresh hf)).mpr (Or.inr ⟨rfl, ha, hd, hx⟩),
        hkey, htoken⟩

theorem left_idle (hr : ps.Recorded h s now) (hf : job.id ∉ Happening.ids h)
    (hidle : ¬ ((ps.claimOf job).applies now = true ∧ job.duplicateOf = none))
    (hmark : ∀ i, job.duplicateOf = some i ↔ (ps.claimOf job).applies now = true ∧
      ∃ o, ps.Blocks h now o ∧ o.key = job.key ∧ o.id = i) :
    ps.Recorded (h ++ [.left now job]) s now := by
  refine ⟨hr.ids_append_left hf, hr.known_append_left, ?_, hr.marks_append ?_⟩
  · intro kind args
    refine (hr.owned kind args).congr fun token d _ => ?_
    rw [hr.claims_append_left hf]
    exact ⟨Or.inl, fun hc => hc.elim id fun hown => absurd ⟨hown.2.2.1, hown.2.2.2.1⟩ hidle⟩
  · rintro t j ⟨⟩
    exact hmark

theorem left_owner (hr : ps.Recorded h s now) (hf : job.id ∉ Happening.ids h) {ttl : Duration}
    (ha : (ps.claimOf job).applies now = true) (hd : job.duplicateOf = none)
    (hx : (ps.claimOf job).expiry? now = some ttl) (hfree : s.live? now job.key = none) :
    ps.Recorded (h ++ [.left now job])
      (Keyed.insert s job.key (Slot.ofToken job.id (now.deadline? ttl))) now := by
  refine ⟨hr.ids_append_left hf, hr.known_append_left, ?_, hr.marks_append ?_⟩
  · intro kind args
    by_cases hkey : job.key = IdempotencyKey.of kind args
    · rw [hkey] at hfree ⊢
      refine (hr.owned kind args).insert ?_ ?_ ?_
      · intro slot hl
        rw [hfree] at hl
        cases hl
      · exact (hr.claims_append_left hf).mpr (Or.inr ⟨hkey, rfl, ha, hd, ttl, hx, rfl⟩)
      · intro token d hc
        rcases (hr.claims_append_left hf).mp hc with hc | ⟨_, htoken, _, _, ttl', hx', hdl⟩
        · refine Or.inr ⟨hc, ?_⟩
          rintro rfl
          obtain ⟨o, ho, _, hid⟩ := hc
          obtain ⟨t, hmem⟩ := ho.left_mem
          exact hf (hid ▸ Happening.mem_ids hmem)
        · rw [hx] at hx'
          cases hx'
          exact Or.inl ⟨htoken, hdl⟩
    · have hother : MemoryStore.live?
          (Keyed.insert s job.key (Slot.ofToken job.id (now.deadline? ttl))) now
            (IdempotencyKey.of kind args) = s.live? now (IdempotencyKey.of kind args) := by
        rw [MemoryStore.live?_insert, if_neg hkey]
      refine ((hr.owned kind args).congr fun token d _ => ?_).of_live?_eq hother
      rw [hr.claims_append_left hf]
      exact ⟨Or.inl, fun hc => hc.elim id fun hown => absurd hown.1 hkey⟩
  · rintro t j ⟨⟩ i
    rw [hd]
    refine ⟨nofun, ?_⟩
    rintro ⟨_, o, hb, hkey, _⟩
    obtain ⟨d, hl⟩ := hr.live_of_blocks hb
    rw [hkey, hfree] at hl
    cases hl

section

variable {t : Instant}

theorem of_claims_id (hr : ps.Recorded h s now) (hj : .left t job ∈ h) {key : String}
    (hc : ps.claims h key job.id deadline) : job.isDuplicate = false ∧ job.key = key := by
  obtain ⟨o, howns, hkey, hid⟩ := hc
  obtain ⟨_, hmem⟩ := howns.left_mem
  obtain ⟨_, rfl⟩ := Happening.eq_of_id hr.ids hj hmem hid
  obtain ⟨⟨_, _, _, _, hd, _⟩, _⟩ := howns
  exact ⟨by rw [Job.isDuplicate, hd]; rfl, hkey⟩

/-- Ids are distinct, so nobody gives a claim up where another job begins or ends. -/
theorem eq_of_releases (hr : ps.Recorded h s now) (hj : .left t job ∈ h)
    (he : e = .begun job.id ∨ e = .ended job.id) (ho : ps.Owns h o deadline)
    (hrel : ps.Releases o e) : o = job := by
  obtain ⟨_, hmem⟩ := ho.left_mem
  have hid : o.id = job.id := by
    rcases hrel.eq with ho | ho <;> rcases he with hj | hj
    · exact Happening.begun.inj (ho.symm.trans hj)
    · cases ho.symm.trans hj
    · cases ho.symm.trans hj
    · exact Happening.ended.inj (ho.symm.trans hj)
  exact (Happening.eq_of_id hr.ids hmem hj hid).2

theorem claims_append_event (hr : ps.Recorded h s now) (hj : .left t job ∈ h)
    (he : e = .begun job.id ∨ e = .ended job.id) {key token : String} :
    ps.claims (h ++ [e]) key token deadline ↔
      ps.claims h key token deadline ∧ ¬ (ps.Releases job e ∧ token = job.id) := by
  have hleft : ∀ t j, e ≠ .left t j := by
    rintro t j rfl
    rcases he with he | he <;> cases he
  constructor
  · rintro ⟨o, ho, hkey, rfl⟩
    obtain ⟨howns, hnot⟩ := (owns_append_event hleft).mp ho
    refine ⟨⟨o, howns, hkey, rfl⟩, ?_⟩
    rintro ⟨hrel, hid⟩
    obtain ⟨_, hmem⟩ := howns.left_mem
    rw [(Happening.eq_of_id hr.ids hmem hj hid).2] at hnot
    exact hnot hrel
  · rintro ⟨⟨o, howns, hkey, rfl⟩, hnot⟩
    refine ⟨o, (owns_append_event hleft).mpr ⟨howns, ?_⟩, hkey, rfl⟩
    intro hrel
    have hsame := hr.eq_of_releases hj he howns hrel
    rw [hsame] at hrel hnot
    exact hnot ⟨hrel, rfl⟩

theorem owned_event (hr : ps.Recorded h s now) (hj : .left t job ∈ h)
    (he : e = .begun job.id ∨ e = .ended job.id)
    (hkept : ¬ (ps.Releases job e ∧ job.isDuplicate = false) → s' = s)
    (hgiven : ps.Releases job e → job.isDuplicate = false →
      s' = (s.call now (.deleteIfEq job.key job.id)).2) (kind : String) (args : List Json) :
    s'.Owned now (IdempotencyKey.of kind args)
      (ps.claims (h ++ [e]) (IdempotencyKey.of kind args)) := by
  by_cases hg : ps.Releases job e ∧ job.isDuplicate = false
  · rw [hgiven hg.1 hg.2]
    by_cases hkey : job.key = IdempotencyKey.of kind args
    · rw [hkey]
      refine (hr.owned kind args).call_deleteIfEq fun token d => ?_
      rw [hr.claims_append_event hj he, not_and]
      exact and_congr_right fun _ => ⟨fun hnot => hnot hg.1, fun hne _ => hne⟩
    · refine ((hr.owned kind args).congr fun token d _ => ?_).of_live?_eq
        (MemoryStore.call_live?_ne (.deleteIfEq job.key job.id) hkey)
      rw [hr.claims_append_event hj he]
      refine ⟨fun hc => ⟨hc, ?_⟩, And.left⟩
      rintro ⟨_, rfl⟩
      exact hkey (hr.of_claims_id hj hc).2
  · rw [hkept hg]
    refine (hr.owned kind args).congr fun token d _ => ?_
    rw [hr.claims_append_event hj he]
    refine ⟨fun hc => ⟨hc, ?_⟩, And.left⟩
    rintro ⟨hrel, rfl⟩
    exact hg ⟨hrel, (hr.of_claims_id hj hc).1⟩

theorem event (hr : ps.Recorded h s now) (hj : .left t job ∈ h)
    (he : e = .begun job.id ∨ e = .ended job.id)
    (hkept : ¬ (ps.Releases job e ∧ job.isDuplicate = false) → s' = s)
    (hgiven : ps.Releases job e → job.isDuplicate = false →
      s' = (s.call now (.deleteIfEq job.key job.id)).2) :
    ps.Recorded (h ++ [e]) s' now := by
  have hids : Happening.ids (h ++ [e]) = Happening.ids h := by
    rw [Happening.ids_append]
    rcases he with rfl | rfl <;> exact List.append_nil _
  refine ⟨hids ▸ hr.ids, ?_, hr.owned_event hj he hkept hgiven, hr.marks_append ?_⟩
  · intro id hid
    rw [hids]
    simp only [List.mem_append, List.mem_singleton] at hid
    by_cases hsame : id = job.id
    · rw [hsame]
      exact Happening.mem_ids hj
    · refine hr.known id ?_
      rcases he with rfl | rfl <;> simpa [hsame] using hid
  · rintro t j rfl
    rcases he with he | he <;> cases he

end

theorem begun (hr : ps.Recorded h s now) {t : Instant} (hj : .left t job ∈ h) :
    ps.Recorded (h ++ [.begun job.id]) (ps.giveUp job .untilExecuting s now) now := by
  have hrel : ps.Releases job (.begun job.id) ↔
      (ps.forKind job.kind).release = .untilExecuting := by
    unfold Releases
    split <;> simp_all
  refine hr.event hj (Or.inl rfl) ?_ ?_
  · intro hnot
    exact if_neg fun hg => hnot ⟨hrel.mpr hg.1, hg.2⟩
  · intro hg hd
    exact if_pos ⟨hrel.mp hg, hd⟩

theorem ended (hr : ps.Recorded h s now) {t : Instant} (hj : .left t job ∈ h) :
    ps.Recorded (h ++ [.ended job.id]) (ps.giveUp job .untilExecuted s now) now := by
  have hrel : ps.Releases job (.ended job.id) ↔
      (ps.forKind job.kind).release = .untilExecuted := by
    unfold Releases
    split <;> simp_all
  refine hr.event hj (Or.inr rfl) ?_ ?_
  · intro hnot
    exact if_neg fun hg => hnot ⟨hrel.mpr hg.1, hg.2⟩
  · intro hg hd
    exact if_pos ⟨hrel.mp hg, hd⟩

end Recorded

end DedupPolicies

/-! ### Machines that keep records -/

namespace Machine

/-- A move of a machine that leaves clock, queues and records under idempotency keys alone. -/
structure Spares (s s' : Machine) : Prop extends Observed s s' where
  quiet : s.Quiet → s'.Quiet
  live : s.Quiet → ∀ kind args, s'.store.live? s.clock (IdempotencyKey.of kind args) =
    s.store.live? s.clock (IdempotencyKey.of kind args)

namespace Spares

variable {s s' s'' : Machine} {ps : DedupPolicies} {h : List Happening}

theorem of_eq (ho : s.Observed s') (hp : s'.plans = s.plans) (hs : s'.store = s.store) :
    s.Spares s' :=
  { ho with
    quiet := fun hq method => hp ▸ hq method
    live := fun _ _ _ => by rw [hs] }

theorem trans (h : s.Spares s') (h' : s'.Spares s'') : s.Spares s'' :=
  { h.toObserved.trans h'.toObserved with
    quiet := fun hq => h'.quiet (h.quiet hq)
    live := by
      intro hq kind args
      have hlive := h'.live (h.quiet hq) kind args
      rw [h.clock] at hlive
      rw [hlive, h.live hq kind args] }

instance : IsPreorder Machine Spares where
  refl s := of_eq (.refl s) rfl rfl
  trans _ _ _ := trans

theorem of_callStore {c : StoreCall} (hc : ∀ kind args, c.key ≠ IdempotencyKey.of kind args) :
    s.Spares (s.callStore c).2 :=
  { observed_callStore s c with
    quiet := fun hq => (callStore_eq hq c).2.2
    live := by
      intro hq kind args
      rw [(callStore_eq hq c).2.1, MemoryStore.call_live?_ne c (hc kind args)] }

theorem recorded (hs : s.Spares s') (hq : s.Quiet) (hr : ps.Recorded h s.store s.clock) :
    ps.Recorded h s'.store s'.clock := by
  rw [hs.clock]
  exact hr.of_live?_eq (hs.live hq)

end Spares

end Machine

end Turnstile
