import Turnstile.Duplicate.Releasing
import Turnstile.Proofs.Duplicate.Keys
import Turnstile.Proofs.Engine.Dialogue
import Turnstile.Proofs.Store.Ownership

/-!
# Releases around work

The work of a job runs once, and its outcome is passed on, whatever the store answers. Around it at most
one call is made, which takes away nothing but the job's own id from under the job's own key; the policy
of the job's kind says on which side of the work.
-/

namespace Turnstile

variable {ρ : Type}

namespace Job

abbrev leaving (job : Job) : StoreCall := .deleteIfEq job.key job.id

/-- The job's id is under its key at the next inquiry. -/
def HeldAt (job : Job) (w : Partner ρ) (past : Past ρ) : Prop :=
  (w.store past).holds (w.clock past) job.key job.id = true

/-- Nobody stores the job's id under its key between two inquiries, unless it is the work itself. -/
def Unclaimed (job : Job) (w : Partner ρ) : Prop :=
  ∀ past q, q.flags = [] → job.HeldAt w (w.said past q) →
    (w.after past q).holds (w.clock past) job.key job.id = true

variable {job : Job} {w : Partner ρ} {past : Past ρ}

/-! ### The call that gives a claim up -/

/-- What a call of a program leaves alone: all but the job's id under the job's key. -/
structure Spared (job : Job) (w : Partner ρ) (past : Past ρ) (c : StoreCall) : Prop where
  call : c = job.leaving
  unheld : ¬ job.HeldAt w past → w.left past c = w.store past
  others : ∀ key, key ≠ job.key → (w.left past c).get? key = (w.store past).get? key

theorem spared_leaving (hw : w.Faithful) : job.Spared w past job.leaving := by
  refine ⟨rfl, fun hheld => ?_, fun key hkey => ?_⟩
  · rcases hw past job.leaving with hleft | hleft
    · exact hleft
    · rw [hleft, MemoryStore.call, MemoryStore.deleteIfEq]
      unfold HeldAt at hheld
      rw [if_neg hheld]
  · rcases hw past job.leaving with hleft | hleft
    · rw [hleft]
    · rw [hleft]
      exact MemoryStore.call_get?_ne job.leaving (Ne.symm hkey)

theorem not_holds_left {deleted : Bool} (h : w.reply past (.store job.leaving) = .ok deleted) :
    (w.left past job.leaving).holds (w.clock past) job.key job.id = false := by
  obtain ⟨-, hleft⟩ := Partner.call_eq h
  rcases (w.store past).call_deleteIfEq (w.clock past) job.key job.id with ⟨-, hcall⟩ | ⟨hh, hcall⟩
  · have herased : MemoryStore.live? (Keyed.erase (w.store past) job.key) (w.clock past) job.key =
        none := by rw [MemoryStore.live?_erase, if_pos rfl]
    rw [hleft, hcall, MemoryStore.holds, herased]
  · rw [hleft, hcall]
    exact hh

end Job

namespace DedupPolicies

variable (ps : DedupPolicies) (w : Partner ρ) (job : Job) {past : Past ρ}

/-- What has been exchanged once a claim was given up. -/
def parted (past : Past ρ) : Past ρ := (w.course (ps.release job : Dialogue ρ Unit) past).1

theorem release_of_duplicate (h : job.isDuplicate = true) :
    (ps.release job : Dialogue ρ Unit) = pure () := by
  unfold release Claim.release
  simp only [Claim.of, h, if_true]
  rfl

theorem release_of_unmarked (h : job.isDuplicate = false) : ∃ next,
    (ps.release job : Dialogue ρ Unit) = .ask (.store job.leaving) next ∧
      next (.ok true) = .ask (.record (.notice (.keyReleased job.kind job.id))) .done ∧
      next (.ok false) = .done () ∧
      ∀ f, next (.error f) = .ask (.record (.notice (.keyNotReleased job.kind job.id f))) .done := by
  unfold release Claim.release
  simp only [Claim.of, h]
  exact ⟨_, rfl, rfl, rfl, fun _ => rfl⟩

theorem parted_of_duplicate (h : job.isDuplicate = true) : ps.parted w job past = past := by
  rw [parted, ps.release_of_duplicate job h]
  rfl

/-- Giving up a claim is one call, and perhaps a remark on it. -/
theorem parted_of_unmarked (h : job.isDuplicate = false) :
    ps.parted w job past = w.said past (.store job.leaving) ∨
      ∃ n, ps.parted w job past = w.said (w.said past (.store job.leaving)) (.record (.notice n)) := by
  obtain ⟨next, hrun, htrue, hfalse, hfault⟩ := ps.release_of_unmarked (ρ := ρ) job h
  rw [parted, hrun, Partner.course]
  cases hreply : w.reply past (.store job.leaving) with
  | error f =>
    rw [hfault]
    exact Or.inr ⟨_, rfl⟩
  | ok deleted =>
    cases deleted with
    | true =>
      rw [htrue]
      exact Or.inr ⟨_, rfl⟩
    | false =>
      rw [hfalse]
      exact Or.inl rfl

theorem entered_parted : (ps.parted w job past).entered = past.entered := by
  cases h : job.isDuplicate with
  | true => rw [ps.parted_of_duplicate w job h]
  | false =>
    rcases ps.parted_of_unmarked w job h with he | ⟨n, he⟩
    · rw [he, Past.entered_said]
      exact List.append_nil _
    · rw [he, Past.entered_said, Past.entered_said]
      exact (List.append_nil _).trans (List.append_nil _)

theorem exists_parted : ∃ more, ps.parted w job past = past ++ more := by
  cases h : job.isDuplicate with
  | true => exact ⟨[], by rw [ps.parted_of_duplicate w job h, List.append_nil]⟩
  | false =>
    rcases ps.parted_of_unmarked w job h with he | ⟨n, he⟩
    · exact ⟨_, he⟩
    · exact ⟨_, by rw [he, Partner.said, Partner.said, List.append_assoc]⟩

theorem eachCall_parted (hw : w.Faithful) (h : Partner.EachCall (job.Spared w) past) :
    Partner.EachCall (job.Spared w) (ps.parted w job past) := by
  cases hd : job.isDuplicate with
  | true =>
    rw [ps.parted_of_duplicate w job hd]
    exact h
  | false =>
    have hcalled := h.said (w := w) (q := .store job.leaving) fun c hc => by
      cases hc
      exact Job.spared_leaving hw
    rcases ps.parted_of_unmarked w job hd with he | ⟨n, he⟩
    · rw [he]
      exact hcalled
    · rw [he]
      exact hcalled.aside (by simp)

/-- Once the call has been answered, the claim is given up for good. -/
theorem not_heldAt_parted {deleted : Bool} (ha : job.Unclaimed w) (hd : job.isDuplicate = false)
    (h : w.reply past (.store job.leaving) = .ok deleted) :
    ¬ job.HeldAt w (ps.parted w job past) := by
  have hcalled : ¬ job.HeldAt w (w.said past (.store job.leaving)) := by
    intro hheld
    have hkept := ha past (.store job.leaving) rfl hheld
    rw [Partner.after, Job.not_holds_left h] at hkept
    cases hkept
  rcases ps.parted_of_unmarked w job hd with he | ⟨n, he⟩
  · rw [he]
    exact hcalled
  · rw [he]
    exact fun hheld => hcalled (ha _ (.record (.notice n)) rfl hheld)

/-! ### Work -/

/-- All that is exchanged around the work of a job, and what comes out. -/
def worked : Past ρ × ρ := w.course (ps.around job (Dialogue.block false : Dialogue ρ ρ)) []

/-- What has been exchanged when the work of a job begins. -/
def begun : Past ρ :=
  if (ps.forKind job.kind).release = .untilExecuting then ps.parted w job [] else []

/-- What has been exchanged when the work of a job is over. -/
def ended : Past ρ := w.said (ps.begun w job) (.block false)

theorem worked_eq : ps.worked w job =
    (if (ps.forKind job.kind).release = .untilExecuted then ps.parted w job (ps.ended w job)
      else ps.ended w job, w.reply (ps.begun w job) (.block false)) := by
  unfold ended begun worked around
  cases (ps.forKind job.kind).release with
  | none => rfl
  | untilExecuting =>
    rw [Partner.course_bind]
    rfl
  | untilExecuted =>
    change w.course ((Dialogue.block false : Dialogue ρ ρ) >>= fun result =>
      ps.release job >>= fun _ => pure result) [] = _
    rw [Partner.course_bind, Partner.course_bind]
    rfl

/-- What holds of the work of a job, whatever the store answers and however the work ends. -/
structure Surrounds : Prop where
  once : (ps.worked w job).1.entered = [false]
  /-- The outcome of the work, a value or a panic, is passed on. -/
  outcome : (ps.worked w job).2 = w.reply (ps.begun w job) (.block false)
  order : ∃ more, (ps.worked w job).1 = ps.ended w job ++ more
  spared : Partner.EachCall (job.Spared w) (ps.worked w job).1
  duplicate : job.isDuplicate = true → (ps.worked w job).1.called = []
  none : (ps.forKind job.kind).release = .none → (ps.worked w job).1.called = []
  /-- Where claims end before the work, the job's is gone when the work begins. -/
  untilExecuting : (ps.forKind job.kind).release = .untilExecuting → job.isDuplicate = false →
    (∃ deleted, w.reply [] (.store job.leaving) = .ok deleted) → ¬ job.HeldAt w (ps.begun w job)
  /-- Where claims end after the work, nothing comes before it, and the job's is gone in the end. -/
  untilExecuted : (ps.forKind job.kind).release = .untilExecuted → ps.begun w job = [] ∧
    (job.isDuplicate = false →
      (∃ deleted, w.reply (ps.ended w job) (.store job.leaving) = .ok deleted) →
        ¬ job.HeldAt w (ps.worked w job).1)

theorem begun_of_ne (h : (ps.forKind job.kind).release ≠ .untilExecuting) :
    ps.begun w job = [] := if_neg h

theorem entered_ended : (ps.ended w job).entered = [false] := by
  have hbegun : (ps.begun w job).entered = [] := by
    unfold begun
    split
    · exact ps.entered_parted w job
    · rfl
  rw [ended, Past.entered_said, hbegun]
  rfl

theorem eachCall_ended (hw : w.Faithful) : Partner.EachCall (job.Spared w) (ps.ended w job) := by
  have hbegun : Partner.EachCall (job.Spared w) (ps.begun w job) := by
    unfold begun
    split
    · exact ps.eachCall_parted w job hw Partner.eachCall_nil
    · exact Partner.eachCall_nil
  exact hbegun.aside (by simp)

/-- A claim is given up just where the policy says so, and nothing else is touched. -/
theorem around_surrounds (hw : w.Faithful) (ha : job.Unclaimed w) : ps.Surrounds w job where
  once := by
    rw [worked_eq]
    split
    · rw [entered_parted, entered_ended]
    · exact ps.entered_ended w job
  outcome := by rw [worked_eq]
  order := by
    rw [worked_eq]
    split
    · exact ps.exists_parted w job
    · exact ⟨[], (List.append_nil _).symm⟩
  spared := by
    rw [worked_eq]
    split
    · exact ps.eachCall_parted w job hw (ps.eachCall_ended w job hw)
    · exact ps.eachCall_ended w job hw
  duplicate hd := by
    have hbegun : ps.begun w job = [] := by
      unfold begun
      rw [ps.parted_of_duplicate w job hd, ite_self]
    rw [worked_eq, ps.parted_of_duplicate w job hd, ite_self, ended, hbegun]
    rfl
  none hn := by
    have hbegun : ps.begun w job = [] := ps.begun_of_ne w job (by simp [hn])
    rw [worked_eq, if_neg (by simp [hn]), ended, hbegun]
    rfl
  untilExecuting hp hd := by
    rintro ⟨deleted, hreply⟩
    rw [begun, if_pos hp]
    exact ps.not_heldAt_parted w job ha hd hreply
  untilExecuted hp := by
    refine ⟨ps.begun_of_ne w job (by simp [hp]), ?_⟩
    rintro hd ⟨deleted, hreply⟩
    rw [worked_eq, if_pos hp]
    exact ps.not_heldAt_parted w job ha hd hreply

/-- A job that owns its key panics, and its policy lets it keep the key until then. -/
theorem around_surrounds_of_panic :
    let job : Job := Job.create "export" [] "a"
    let ps : DedupPolicies := .ofPolicy .untilExecuted
    let held : MemoryStore := Keyed.empty.insert job.key { value := .text "a", deadline := none }
    let w : Partner (Except Halt Unit) := Partner.reliable
      (fun | [] => held | [⟨.block _, _⟩] => held | _ => Keyed.empty) (fun _ => Instant.epoch)
      "token" (.error .panic)
    w.Faithful ∧ job.Unclaimed w ∧ ps.Surrounds w job := by
  intro job ps held w
  have hw : w.Faithful := fun _ _ => Or.inr rfl
  have ha : job.Unclaimed w := by
    intro past q hq hheld
    cases past with
    | nil =>
      cases q with
      | block flag => cases hq
      | _ => cases hheld
    | cons e rest =>
      have hnone : w.store (w.said (e :: rest) q) = Keyed.empty := by
        obtain ⟨asked, reply⟩ := e
        cases rest <;> cases asked <;> rfl
      rw [Job.HeldAt, hnone] at hheld
      exact absurd hheld (by simp [MemoryStore.holds, MemoryStore.live?])
  exact ⟨hw, ha, ps.around_surrounds w job hw ha⟩

end DedupPolicies

end Turnstile
