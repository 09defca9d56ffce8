import Turnstile.Proofs.Wire.Records

/-!
# Errors of work that are built and read back

A context may be any value, null among them. An error without a context is written without the field,
and a field that is null reads as no context, so that a null context is the one thing that is lost.
-/

namespace Turnstile.WorkError

open Json

/-- The errors that are built step by step. A context is kept with its keys in order. -/
inductive Built : WorkError → Prop
  | ofMessage (message : String) : Built (ofMessage message)
  | withCode {e : WorkError} (h : Built e) (code : String) : Built (e.withCode code)
  | withContext {e : WorkError} (h : Built e) (context : Json) :
    Built (e.withContext context.normalize)

variable {e : WorkError} {c : Json}

/-- The error without a context that is null. -/
def dropNull (e : WorkError) : WorkError :=
  { e with context := e.context.filter fun c => !c.isNull }

theorem normalize_context (h : Built e) (hc : e.context = some c) : c.normalize = c := by
  induction h with
  | ofMessage message => cases hc
  | withCode _ code ih => exact ih hc
  | withContext _ context _ =>
    obtain rfl := Option.some.inj hc
    exact normalize_normalize context

theorem isNull_iff : c.isNull = true ↔ c = .null := by
  cases c <;> simp [isNull]

theorem dropNull_eq_self_iff : e.dropNull = e ↔ e.context ≠ some .null := by
  obtain ⟨message, code, context⟩ := e
  cases context with
  | none => simp [dropNull]
  | some c => simp [dropNull, Option.filter_some, isNull_iff, ← Bool.not_eq_true]

/-- A context is read as it was written, and a null one as none. -/
theorem context_reread (h : ∀ c, e.context = some c → c.normalize = c) :
    e.context.elim (some none) (reading.optional? fun v => some v.normalize) =
      some e.dropNull.context := by
  unfold dropNull
  cases hc : e.context with
  | none => rfl
  | some c =>
    have hnormal := h c hc
    show (if c.isNull then some none else some (some c.normalize)) = _
    rw [hnormal, Option.filter_some]
    cases c.isNull <;> rfl

theorem ofJson?_toJson (h : ∀ c, e.context = some c → c.normalize = c) :
    ofJson? e.toJson = some e.dropNull := by
  have hcode : (e.code.map str).elim (some none) (reading.optional? reading.text?) = some e.code :=
    optional?_written fun code _ => ⟨rfl, text?_str code⟩
  have hcontext := context_reread h
  simp [ofJson?, toJson, fields?_ofFields, Fields.required?, Fields.defaulted?_eq_elim, hcode,
    hcontext]
  rfl

/-- Whatever an error was built from, it can be read back, and it is the same one exactly if its context
is not null. -/
theorem built_reread_iff (h : Built e) :
    ofJson? e.toJson = some e.dropNull ∧
      (ofJson? e.toJson = some e ↔ e.context ≠ some .null) := by
  have hread := ofJson?_toJson fun _ => normalize_context h
  refine ⟨hread, ?_⟩
  rw [hread, Option.some_inj]
  exact dropNull_eq_self_iff

/-- Null is not lost inside a context. -/
theorem built_reread_of_inner_null :
    let e := ((ofMessage "m").withCode "C1").withContext (.obj [("cause", .null)])
    Built e ∧ ofJson? e.toJson = some e := by
  intro e
  have hbuilt : Built e := ((Built.ofMessage "m").withCode "C1").withContext (.obj [("cause", .null)])
  have hcontext : e.context ≠ some .null := by simp [e, withContext]
  exact ⟨hbuilt, (built_reread_iff hbuilt).2.mpr hcontext⟩

/-- A null context is written as a field, and read as none. -/
theorem null_context_lost :
    let e := (ofMessage "m").withContext .null
    Built e ∧ e.toJson = .obj [("message", .str "m"), ("context", .null)] ∧
      ofJson? e.toJson = some (ofMessage "m") ∧ ofMessage "m" ≠ e := by
  intro e
  refine ⟨(Built.ofMessage "m").withContext .null, rfl, rfl, ?_⟩
  intro h
  have hcontext : none = some Json.null := congrArg WorkError.context h
  cases hcontext

end Turnstile.WorkError
