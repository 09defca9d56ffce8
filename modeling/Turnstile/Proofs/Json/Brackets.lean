import Turnstile.Proofs.Json.Unambiguous

/-!
# The last array of a text

A reader that follows brackets and quotes is through with the text of an array at its last character
and not before. So a text that ends in a colon and an array ends so in one way only, whatever colons,
brackets and quotes come first.
-/

namespace Turnstile.Json

/-- Where a reader of an array stands. -/
inductive Reader
  /-- Before the array. -/
  | fresh
  /-- Outside of strings, below so many more brackets than the first. -/
  | out (depth : Nat)
  /-- In a string. -/
  | inside (depth : Nat)
  /-- In a string, after a backslash. -/
  | escaped (depth : Nat)
  /-- After the closing bracket. -/
  | ended
  /-- After anything that no array is written with. -/
  | stuck
deriving DecidableEq

namespace Reader

def closed : Nat → Reader
  | 0 => ended
  | depth + 1 => out depth

def next : Reader → Char → Reader
  | fresh, c => if c = '[' then out 0 else stuck
  | out depth, c =>
    if c = '"' then inside depth
    else if c = '\\' then stuck
    else if c = '[' ∨ c = '\x7b' then out (depth + 1)
    else if c = ']' ∨ c = '\x7d' then closed depth
    else out depth
  | inside depth, c =>
    if c = '"' then out depth else if c = '\\' then escaped depth else inside depth
  | escaped depth, _ => inside depth
  | ended, _ => stuck
  | stuck, _ => stuck

def read (st : Reader) (cs : List Char) : Reader := cs.foldl next st

variable {st : Reader} {c : Char} {cs ds : List Char} {depth : Nat}

@[simp] theorem read_nil : st.read [] = st := rfl

@[simp] theorem read_cons : st.read (c :: cs) = (st.next c).read cs := rfl

@[simp] theorem read_append : st.read (cs ++ ds) = (st.read cs).read ds := List.foldl_append

@[simp] theorem read_stuck : stuck.read cs = stuck := by
  induction cs with
  | nil => rfl
  | cons c cs ih => exact ih

/-- Whatever was read before it, after a colon the reader is inside of an array or lost. -/
theorem next_colon (st : Reader) :
    (∃ depth, st.next ':' = out depth) ∨ (∃ depth, st.next ':' = inside depth) ∨
      st.next ':' = stuck := by
  cases st with
  | out depth => exact Or.inl ⟨depth, rfl⟩
  | inside depth => exact Or.inr (Or.inl ⟨depth, rfl⟩)
  | escaped depth => exact Or.inr (Or.inl ⟨depth, rfl⟩)
  | _ => exact Or.inr (Or.inr rfl)

theorem eq_nil_of_read_ended (h : ended.read cs = ended) : cs = [] := by
  cases cs with
  | nil => rfl
  | cons c cs =>
    have hstuck : stuck.read cs = ended := h
    rw [read_stuck] at hstuck
    cases hstuck

/-- One reader that is in a string and one that is not do not both come to the end. -/
theorem not_both_ended (cs : List Char) :
    ∀ depth depth', (out depth).read cs = ended → (inside depth').read cs ≠ ended := by
  induction cs with
  | nil => exact fun _ _ h => nomatch h
  | cons c cs ih =>
    intro depth depth' hout hinside
    simp only [read_cons, next] at hout hinside
    by_cases hquote : c = '"'
    · rw [if_pos hquote] at hout hinside
      exact ih _ _ hinside hout
    · by_cases hslash : c = '\\'
      · rw [if_neg hquote, if_pos hslash, read_stuck] at hout
        cases hout
      · rw [if_neg hquote, if_neg hslash] at hout hinside
        split at hout
        · exact ih _ _ hout hinside
        · split at hout
          · cases depth with
            | zero =>
              rw [eq_nil_of_read_ended hout] at hinside
              cases hinside
            | succ depth => exact ih _ _ hout hinside
          · exact ih _ _ hout hinside

/-! ### Texts of values -/

/-- The characters that mean something to a reader outside of strings. -/
def marks : List Char := ['"', '\\', '[', ']', '\x7b', '\x7d']

theorem read_unmarked (h : ∀ c ∈ cs, c ∉ marks) : (out depth).read cs = out depth := by
  induction cs with
  | nil => rfl
  | cons c cs ih =>
    obtain ⟨hc, hcs⟩ := List.forall_mem_cons.mp h
    have hnext : (out depth).next c = out depth := by
      simp only [marks, List.mem_cons, List.not_mem_nil, or_false, not_or] at hc
      simp [next, hc]
    rw [read_cons, hnext, ih hcs]

theorem read_numeric {text : String} (h : Numeric text) :
    (out depth).read text.toList = out depth := by
  have hnone : marks.all fun c => !isNumberChar c := by decide
  refine read_unmarked fun c hc hmark => ?_
  have hnot := List.all_eq_true.mp hnone c hmark
  rw [h c hc] at hnot
  cases hnot

theorem read_inside (h : ∀ c ∈ cs, c ≠ '"' ∧ c ≠ '\\') : (inside depth).read cs = inside depth := by
  induction cs with
  | nil => rfl
  | cons c cs ih =>
    obtain ⟨hc, hcs⟩ := List.forall_mem_cons.mp h
    rw [read_cons, next, if_neg hc.1, if_neg hc.2, ih hcs]

theorem read_escapeChar (c : Char) : (inside depth).read (escapeChar c) = inside depth := by
  by_cases h : c ∈ escapedChars
  · obtain ⟨x, rest, he, hrest⟩ := escapeChar_of_escaped h
    rw [he]
    change (inside depth).read rest = _
    exact read_inside hrest
  · rw [escapeChar_of_plain h]
    refine read_inside ?_
    simp only [escapedChars, List.mem_cons, not_or] at h
    simpa using ⟨h.1, h.2.1⟩

theorem read_quote (text : String) : (out depth).read (quote text).toList = out depth := by
  have hescaped (cs : List Char) : (inside depth).read (cs.flatMap escapeChar) = inside depth := by
    induction cs with
    | nil => rfl
    | cons c cs ih => rw [List.flatMap_cons, read_append, read_escapeChar, ih]
  rw [toList_quote, read_cons, read_append]
  change (Reader.read ((inside depth).read _) _) = _
  rw [hescaped]
  rfl

theorem read_listed {α : Type} {text : α → String} {close : Char} {xs : List α}
    (h : ∀ a ∈ xs, (out depth).read (text a).toList = out depth) :
    (out depth).read (listed text close [] xs) = (out depth).next close := by
  induction xs with
  | nil => rfl
  | cons a xs ih =>
    obtain ⟨ha, hxs⟩ := List.forall_mem_cons.mp h
    rw [listed_cons, read_append, ha]
    cases xs with
    | nil => rfl
    | cons b xs => exact ih hxs

theorem read_render_double (x : Double) :
    (out depth).read (render (.double x)).toList = out depth := by
  by_cases h : x.isFinite = true
  · have htext : render (.double x) = numberStyle.render x := by simp [render, renderLeaf, h]
    rw [htext]
    exact read_numeric (pointed_render h).numeric
  · have htext : render (.double x) = "null" := by simp [render, renderLeaf, h]
    rw [htext]
    rfl

/-- A reader is at the end of a value where it was at the beginning. -/
theorem read_render (v : Json) : ∀ depth, (out depth).read (render v).toList = out depth := by
  induction v using inductOn with
  | null => exact fun _ => rfl
  | bool b => exact fun _ => by cases b <;> rfl
  | int n => exact fun _ => read_numeric (numeric_int n)
  | double x => exact fun _ => read_render_double x
  | str s => exact fun _ => read_quote s
  | arr items ih =>
    intro depth
    rw [← List.append_nil (render _).toList, toList_render_arr, read_cons]
    exact read_listed fun v hv => ih v hv (depth + 1)
  | obj entries ih =>
    intro depth
    rw [← List.append_nil (render _).toList, toList_render_obj, read_cons]
    refine read_listed fun e he => ?_
    rw [renderEntry, String.toList_append, String.toList_append, read_append, read_append,
      read_quote]
    exact ih e he (depth + 1)

theorem read_render_arr (items : List Json) : fresh.read (render (.arr items)).toList = ended := by
  rw [← List.append_nil (render _).toList, toList_render_arr, read_cons]
  exact read_listed fun v _ => read_render v 0

end Reader

/-- The text of an array does not end in a colon and another array. -/
theorem render_arr_ne_append_colon (items items' : List Json) (front : List Char) :
    (render (.arr items)).toList ≠ front ++ ':' :: (render (.arr items')).toList := by
  intro h
  have hread := Reader.read_render_arr items
  rw [h, Reader.read_append, Reader.read_cons] at hread
  rcases Reader.next_colon (Reader.fresh.read front) with ⟨depth, hout⟩ | ⟨depth, hin⟩ | hstuck
  · rw [hout, Reader.read_render] at hread
    cases hread
  · -- a reader of the second array alone is outside of strings where this one is in one
    have hread' := Reader.read_render_arr items'
    rw [← List.append_nil (render _).toList, toList_render_arr, Reader.read_cons] at hread hread'
    rw [hin] at hread
    exact Reader.not_both_ended _ _ _ hread' hread
  · rw [hstuck, Reader.read_stuck] at hread
    cases hread

/-- A text ends in a colon and an array in one way only. -/
theorem append_colon_render_arr_inj {front front' : List Char} {items items' : List Json}
    (h : front ++ ':' :: (render (.arr items)).toList =
      front' ++ ':' :: (render (.arr items')).toList) :
    front = front' ∧ (render (.arr items)).toList = (render (.arr items')).toList := by
  rcases List.append_eq_append_iff.mp h with ⟨mid, hfront, hmid⟩ | ⟨mid, hfront, hmid⟩
  · cases mid with
    | nil =>
      rw [List.append_nil] at hfront
      exact ⟨hfront.symm, (List.cons.inj hmid).2⟩
    | cons c mid => exact absurd (List.cons.inj hmid).2 (render_arr_ne_append_colon _ _ _)
  · cases mid with
    | nil =>
      rw [List.append_nil] at hfront
      exact ⟨hfront, (List.cons.inj hmid).2.symm⟩
    | cons c mid => exact absurd (List.cons.inj hmid).2 (render_arr_ne_append_colon _ _ _)

end Turnstile.Json
