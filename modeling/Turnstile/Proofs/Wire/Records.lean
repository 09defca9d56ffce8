import Turnstile.Job.Running
import Turnstile.Lease.Backoff
import Turnstile.Duplicate.Policy
import Turnstile.Proofs.Wire.Reread
import Turnstile.Store.Call

/-!
# Rereading of records

The records that jobs, their errors, the store, policies and backoffs are written as.
-/

namespace Turnstile

open Json

theorem RunningJob.reread : Reread ofJson? toJson ofJson? := by
  intro v job h
  simp only [ofJson?, Option.bind_eq_bind, Option.bind_eq_some_iff, Option.pure_def,
    Option.some.injEq] at h
  obtain ⟨fs, -, id, -, registeredAt, hat, rfl⟩ := h
  have hat := Fields.reread_required instant_reread hat
  simp [ofJson?, toJson, fields?_obj, Fields.required?, Fields.get?, hat]

theorem SetMember.reread : Reread ofJson? toJson ofJson? := by
  intro v m h
  simp only [ofJson?, Option.bind_eq_bind, Option.bind_eq_some_iff, Option.pure_def,
    Option.some.injEq] at h
  obtain ⟨fs, -, member, -, addedAt, hat, rfl⟩ := h
  have hat := Fields.reread_required instant_reread hat
  simp [ofJson?, toJson, fields?_obj, Fields.required?, Fields.get?, hat]

theorem Job.reread : Reread ofJson? toJson ofJson? := by
  intro v job h
  simp only [ofJson?, Option.bind_eq_bind, Option.bind_eq_some_iff, Option.pure_def,
    Option.some.injEq] at h
  obtain ⟨fs, -, kind, -, args, hargs, id, -, duplicateOf, hdup, scheduledAt, hscheduled,
    enqueuedAt, henqueued, rfl⟩ := h
  have hargs : reading.listOf? (fun v => some v.normalize) (.arr args) = some args := by
    simpa [ofList] using Fields.reread_required (list_reread value_reread) hargs
  have hdup := reread_optional (.of_forall text?_str) (fun _ => rfl) hdup
  have hscheduled := reread_optional instant_reread (fun _ => rfl) hscheduled
  have henqueued := reread_optional instant_reread (fun _ => rfl) henqueued
  simp [ofJson?, toJson, fields?_ofFields, Fields.required?, Fields.defaulted?_eq_elim, hargs, hdup,
    hscheduled, henqueued]

theorem WorkError.reread : Reread ofJson? toJson ofJson? := by
  intro v e h
  simp only [ofJson?, Option.bind_eq_bind, Option.bind_eq_some_iff, Option.pure_def,
    Option.some.injEq] at h
  obtain ⟨fs, -, message, -, code, hcode, context, hcontext, rfl⟩ := h
  have hcode := reread_optional (.of_forall text?_str) (fun _ => rfl) hcode
  -- A context is not null, since a null one reads as none.
  have hcontext : (context.map id).elim (some none) (reading.optional? fun v => some v.normalize) =
      some context := by
    refine optional?_written fun c hc => ?_
    obtain ⟨w, hnull, hw⟩ := exists_of_optional hcontext c hc
    obtain rfl := Option.some.inj hw
    exact ⟨(isNull_normalize w).trans hnull, value_reread hw⟩
  rw [Option.map_id_apply] at hcontext
  simp [ofJson?, toJson, fields?_ofFields, Fields.required?, Fields.defaulted?_eq_elim, hcode,
    hcontext]

theorem FaultDetails.reread : Reread ofJson? toJson ofJson? := by
  intro v d h
  simp only [ofJson?, Option.bind_eq_bind, Option.bind_eq_some_iff, Option.pure_def,
    Option.some.injEq] at h
  obtain ⟨fs, -, context, hcontext, kind, hkind, id, hid, rfl⟩ := h
  have hcontext : reading.tableOf? (fun v => some v.normalize) (.obj context) = some context := by
    simpa using Fields.reread_defaulted (table_reread value_reread) rfl hcontext
  have hkind := reread_optional (.of_forall text?_str) (fun _ => rfl)
    (Fields.defaulted?_of_named? hkind)
  have hid := reread_optional (.of_forall text?_str) (fun _ => rfl)
    (Fields.defaulted?_of_named? hid)
  cases context <;>
    simp [ofJson?, toJson, fields?_ofFields, Fields.named?_given,
      Fields.defaulted?_eq_elim, hcontext, hkind, hid]

/-! ### Policies -/

@[simp]
theorem ReleasePoint.ofJson?_toJson (p : ReleasePoint) :
    reading.ofChoice? labels p.toJson = some p := by
  cases p <;> rfl

theorem DedupPolicy.duration?_defaultTtl :
    reading.duration? (spelled defaultTtl) = some defaultTtl :=
  duration?_spelled (by decide)

theorem DedupPolicy.reread : Reread ofJson? toJson ofJson? := by
  intro v p h
  simp only [ofJson?, Option.bind_eq_bind, Option.bind_eq_some_iff, Option.pure_def,
    Option.some.injEq] at h
  obtain ⟨fs, -, release, -, scheduled, -, ttl, httl, rfl⟩ := h
  have httl := Fields.reread_defaulted duration_reread duration?_defaultTtl httl
  simp [ofJson?, toJson, fields?_obj, Fields.required?, Fields.defaulted?, Fields.get?, httl]

/-! ### Backoffs -/

namespace Backoff

theorem reread (lists lists' : Bool) : Reread (readJson? lists) toJson (readJson? lists') := by
  intro v b h
  simp only [readJson?, Option.bind_eq_bind, Option.bind_eq_some_iff] at h
  obtain ⟨⟨name, body⟩, -, h⟩ := h
  split at h
  · simp only [Option.bind_eq_some_iff, Option.pure_def, Option.some.injEq] at h
    obtain ⟨fs, -, delayMs, hdelay, rfl⟩ := h
    have hdelay := Fields.reread_required (word_reread 64) hdelay
    simp [readJson?, toJson, soleEntry?, fields?_obj, Fields.required?, Fields.get?, hdelay]
  · simp only [Option.bind_eq_some_iff, Option.pure_def, Option.some.injEq] at h
    obtain ⟨fs, -, initialMs, hinitial, incrementMs, hincrement, maxMs, hmax, rfl⟩ := h
    have hinitial := Fields.reread_required (word_reread 64) hinitial
    have hincrement := Fields.reread_required (word_reread 64) hincrement
    have hmax := Fields.reread_required (word_reread 64) hmax
    simp [readJson?, toJson, soleEntry?, fields?_obj, Fields.required?, Fields.get?, hinitial,
      hincrement, hmax]
  · simp only [Option.bind_eq_some_iff, Option.pure_def, Option.some.injEq] at h
    obtain ⟨fs, -, initialMs, hinitial, multiplier, -, maxMs, hmax, rfl⟩ := h
    have hinitial := Fields.reread_required (word_reread 64) hinitial
    have hmax := Fields.reread_required (word_reread 64) hmax
    simp [readJson?, toJson, soleEntry?, fields?_obj, Fields.required?, Fields.get?, hinitial, hmax]
  · simp only [Option.bind_eq_some_iff, Option.pure_def, Option.some.injEq] at h
    obtain ⟨fs, -, initialMs, hinitial, multiplier, -, maxMs, hmax, factor, -, rfl⟩ := h
    have hinitial := Fields.reread_required (word_reread 64) hinitial
    have hmax := Fields.reread_required (word_reread 64) hmax
    simp [readJson?, toJson, soleEntry?, fields?_obj, Fields.required?, Fields.get?, hinitial, hmax]
  · cases h

end Backoff

end Turnstile
