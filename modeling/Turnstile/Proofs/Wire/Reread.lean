import Turnstile.Proofs.Json.Normal
import Turnstile.Proofs.Time.Spelled
import Turnstile.Proofs.Time.Timestamp
import Turnstile.Wire.Reading

/-!
# Reading what was written of what was read

A value has many spellings that a reader takes for the same: fields in any order or as a list,
defaults left out, offsets of time, spelled lengths of time. What is written of the value is one
more spelling of it. `Reread` says so of a reader and a writer; the lemmas carry it from the values
of fields to lists, tables and the fields of a record.
-/

namespace Turnstile

variable {V α : Type}

/-- What `read` gives for some value, `read'` gives for the value written of it. -/
def Reread (read : V → Option α) (write : α → V) (read' : V → Option α) : Prop :=
  ∀ ⦃v a⦄, read v = some a → read' (write a) = some a

namespace Reread

variable {read read' : V → Option α} {write : α → V}

/-- Where everything that is written can be read, it does not matter what was read before. -/
theorem of_forall (h : ∀ a, read' (write a) = some a) : Reread read write read' := fun _ a _ => h a

theorem mapM (hr : Reread read write read') {vs : List V} {as : List α}
    (h : vs.mapM read = some as) : (as.map write).mapM read' = some as := by
  induction vs generalizing as with
  | nil =>
    obtain rfl : [] = as := Option.some.inj h
    rfl
  | cons v rest ih =>
    simp only [List.mapM_cons, Option.bind_eq_bind, Option.bind_eq_some_iff, Option.pure_def,
      Option.some.injEq] at h
    obtain ⟨a, hv, as, hrest, rfl⟩ := h
    simp [List.mapM_cons, hr hv, ih hrest]

end Reread

namespace Json

/-! ### Single values -/

@[simp]
theorem text?_str (text : String) : reading.text? (str text) = some text := rfl

@[simp]
theorem bool?_bool (b : Bool) : reading.bool? (bool b) = some b := rfl

@[simp]
theorem double?_double (x : Double) : reading.double? (double x) = some x := rfl

theorem word?_ofNat {width n : Nat} (h : n < Nat.pow 2 width) :
    reading.word? width (ofNat n) = some n := by
  have hnat : (ofNat n).nat? = some n := rfl
  simp only [reading, hnat, Option.bind_eq_bind, Option.bind_some, if_pos h]

theorem word_reread (width : Nat) : Reread (reading.word? width) ofNat (reading.word? width) := by
  intro v n h
  simp only [reading, Option.bind_eq_bind, Option.bind_eq_some_iff] at h
  obtain ⟨m, -, hm⟩ := h
  split at hm
  case isTrue hlt =>
    obtain rfl := Option.some.inj hm
    exact word?_ofNat hlt
  case isFalse => cases hm

theorem duration?_str (text : String) : reading.duration? (str text) = Spelled.read? text := by
  simp [Reading.duration?, reading, text?]

theorem instant?_str (text : String) : reading.instant? (str text) = Timestamp.read? text := by
  simp [Reading.instant?, reading, text?]

theorem duration?_spelled {d : Duration} (h : d ≤ Duration.max) :
    reading.duration? (spelled d) = some d := by
  rw [spelled, duration?_str, Spelled.read?_render h]

theorem duration_reread : Reread reading.duration? spelled reading.duration? := by
  intro v d h
  obtain ⟨text, -, hd⟩ := Option.bind_eq_some_iff.mp h
  rw [spelled, duration?_str, Spelled.read?_render_of_read? hd]

theorem instant_reread : Reread reading.instant? stamped reading.instant? := by
  intro v t h
  obtain ⟨text, -, ht⟩ := Option.bind_eq_some_iff.mp h
  rw [stamped, instant?_str, Timestamp.read?_render_of_read? ht]

theorem value_reread :
    Reread (fun v : Json => some v.normalize) id fun v => some v.normalize := by
  intro v w h
  obtain rfl := Option.some.inj h
  exact congrArg some (normalize_normalize v)

/-! ### Lists and tables -/

variable {read read' : Json → Option α} {write : α → Json}

theorem list_reread (hr : Reread read write read') :
    Reread (reading.listOf? read) (ofList write) (reading.listOf? read') := by
  intro v as h
  obtain ⟨items, -, has⟩ := Option.bind_eq_some_iff.mp h
  exact hr.mapM has

theorem ascending_of_table? {v : Json} {entries : List (String × Json)}
    (h : reading.table? v = some entries) : Ascending entries := by
  cases v with
  | obj es =>
    obtain rfl : sortEntries es = entries := Option.some.inj h
    exact ascending_sortEntries es
  | _ => cases h

theorem keys_of_mapM {entries : List (String × Json)} {es : List (String × α)}
    (h : (entries.mapM fun e => (read e.2).map fun a => (e.1, a)) = some es) :
    es.map Prod.fst = entries.map Prod.fst := by
  induction entries generalizing es with
  | nil =>
    obtain rfl : [] = es := Option.some.inj h
    rfl
  | cons e rest ih =>
    simp only [List.mapM_cons, Option.bind_eq_bind, Option.bind_eq_some_iff, Option.pure_def,
      Option.some.injEq, Option.map_eq_some_iff] at h
    obtain ⟨_, ⟨a, -, rfl⟩, es, hrest, rfl⟩ := h
    simp [ih hrest]

theorem table_reread (hr : Reread read write read') :
    Reread (reading.tableOf? read) (fun es => obj (es.map fun e => (e.1, write e.2)))
      (reading.tableOf? read') := by
  intro v es h
  obtain ⟨entries, hv, hes⟩ := Option.bind_eq_some_iff.mp h
  have hasc : Ascending es := (ascending_of_table? hv).congr (keys_of_mapM hes)
  have htable : reading.table? (obj (es.map fun e => (e.1, write e.2))) =
      some (es.map fun e => (e.1, write e.2)) :=
    congrArg some (sortEntries_of_ascending (hasc.congr (by simp)))
  have hentry : Reread (fun e : String × Json => (read e.2).map fun a => (e.1, a))
      (fun e => (e.1, write e.2)) fun e => (read' e.2).map fun a => (e.1, a) := by
    intro e ea he
    obtain ⟨a, ha, rfl⟩ := Option.map_eq_some_iff.mp he
    simp [hr ha]
  simp only [Reading.tableOf?, htable, Option.bind_eq_bind, Option.bind_some]
  exact hentry.mapM hes

end Json

/-! ### Fields of a record -/

namespace Fields

variable {fs : Fields V} {name : String} {read read' : V → Option α} {write : α → V} {a d : α}

theorem reread_required (hr : Reread read write read') (h : fs.required? name read = some a) :
    read' (write a) = some a := by
  obtain ⟨v, -, hv⟩ := Option.bind_eq_some_iff.mp h
  exact hr hv

theorem reread_defaulted (hr : Reread read write read') (hd : read' (write d) = some d)
    (h : fs.defaulted? name d read = some a) : read' (write a) = some a := by
  unfold defaulted? at h
  split at h
  · obtain rfl := Option.some.inj h
    exact hd
  · exact hr h

theorem defaulted?_eq_elim : fs.defaulted? name d read = (fs.get? name).elim (some d) read := by
  unfold defaulted?
  cases fs.get? name <;> rfl

/-- Where a named field that is missing is accepted, it reads as nothing. -/
theorem defaulted?_of_named? {read : V → Option (Option α)} {a : Option α}
    (h : fs.named? name read = some a) : fs.defaulted? name none read = some a := by
  unfold named? at h
  unfold defaulted?
  split at h
  case h_1 hmissing =>
    split at h
    · cases h
    · simpa only [hmissing] using h
  case h_2 v hv => simpa only [hv] using h

/-- The fields of a record by name, some of which may be left out. -/
def given (fields : List (String × Option V)) : Fields V :=
  { present := fields.filterMap fun e => e.2.map fun v => (e.1, v), positional := false }

@[simp]
theorem get?_given_nil : (given [] : Fields V).get? name = none := rfl

@[simp]
theorem get?_given_cons (key : String) (o : Option V) (fields : List (String × Option V)) :
    (given ((key, o) :: fields)).get? name =
      if key = name then o.or ((given fields).get? name) else (given fields).get? name := by
  cases o with
  | none => simp [given]
  | some v =>
    by_cases hkey : key = name
    · simp [given, get?, hkey]
    · simp [given, get?, hkey]

theorem named?_given (fields : List (String × Option V)) (read : V → Option (Option α)) :
    (given fields).named? name read = (given fields).defaulted? name none read := rfl

theorem keys_given_sublist (fields : List (String × Option V)) :
    ((given fields).present.map Prod.fst).Sublist (fields.map Prod.fst) := by
  induction fields with
  | nil => exact .slnil
  | cons e rest ih =>
    obtain ⟨key, o⟩ := e
    cases o with
    | none => exact ih.cons key
    | some v => exact ih.cons_cons key

end Fields

namespace Json

variable {names : List String}

/-- An object with some of the known fields, in their order, has these. -/
theorem fields?_obj {entries : List (String × Json)} (hn : names.Nodup)
    (hk : (entries.map Prod.fst).Sublist names) :
    reading.fields? names (obj entries) = some { present := entries, positional := false } := by
  have hknown : (entries.filter fun e => names.contains e.1) = entries := by
    refine List.filter_eq_self.mpr fun e he => ?_
    exact List.contains_iff_mem.mpr (hk.subset (List.mem_map_of_mem he))
  simp only [reading, fields?, hknown]
  exact if_pos (hk.nodup hn)

theorem fields?_ofFields {fields : List (String × Option Json)} (hn : names.Nodup)
    (hk : fields.map Prod.fst = names) :
    reading.fields? names (ofFields fields) = some (Fields.given fields) := by
  refine fields?_obj hn ?_
  rw [← hk]
  exact Fields.keys_given_sublist fields

/-! ### Fields that may be null -/

variable {read read' : Json → Option α} {write : α → Json} {fs : Fields Json} {name : String}
  {o : Option α}

/-- What an optional field has was read from a value that is not null. -/
theorem exists_of_optional (h : fs.defaulted? name none (reading.optional? read) = some o) :
    ∀ a ∈ o, ∃ v, v.isNull = false ∧ read v = some a := by
  intro a ha
  obtain rfl : o = some a := ha
  unfold Fields.defaulted? at h
  split at h
  · cases h
  case h_2 v hv =>
    unfold Reading.optional? at h
    split at h
    case isTrue => cases h
    case isFalse hnull =>
      obtain ⟨a', ha', heq⟩ := Option.map_eq_some_iff.mp h
      obtain rfl := Option.some.inj heq
      exact ⟨v, eq_false_of_ne_true hnull, ha'⟩

/-- A field that is left out where there is nothing, and is never written as null. -/
theorem optional?_written (hr : ∀ a ∈ o, (write a).isNull = false ∧ read' (write a) = some a) :
    (o.map write).elim (some none) (reading.optional? read') = some o := by
  cases o with
  | none => rfl
  | some a =>
    obtain ⟨hnull, ha⟩ := hr a rfl
    have hwrite : reading.isNull (write a) = false := hnull
    simp [Reading.optional?, hwrite, ha]

theorem reread_optional (hr : Reread read write read') (hnull : ∀ a, (write a).isNull = false)
    (h : fs.defaulted? name none (reading.optional? read) = some o) :
    (o.map write).elim (some none) (reading.optional? read') = some o := by
  refine optional?_written fun a ha => ⟨hnull a, ?_⟩
  obtain ⟨v, -, hv⟩ := exists_of_optional h a ha
  exact hr hv

end Json

end Turnstile
