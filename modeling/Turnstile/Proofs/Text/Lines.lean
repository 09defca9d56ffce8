import Mathlib.Data.List.Basic
import Turnstile.Text.Scan

/-!
# Lines of a text

Splitting a text at a character and putting the character between pieces undo each other. So a text
tells its lines, and a code tells what was coded where no character's code begins another's.
-/

namespace Turnstile.Text

variable {α : Type} {sep c : Char} {cs ds piece r s : List Char} {pieces : List (List Char)}

/-! ### Pieces -/

theorem splitOnChar_cons_self (sep : Char) (cs : List Char) :
    splitOnChar sep (sep :: cs) = [] :: splitOnChar sep cs := by
  simp only [splitOnChar, List.foldr_cons, if_true]

theorem splitOnChar_cons_of_ne (h : c ≠ sep) (cs : List Char) :
    ∃ first rest, splitOnChar sep cs = first :: rest ∧
      splitOnChar sep (c :: cs) = (c :: first) :: rest := by
  refine ⟨_, _, rfl, ?_⟩
  simp only [splitOnChar, List.foldr_cons, if_neg h]

theorem not_mem_of_mem_splitOnChar (h : piece ∈ splitOnChar sep cs) : sep ∉ piece := by
  induction cs generalizing piece with
  | nil =>
    obtain rfl := List.mem_singleton.mp h
    exact List.not_mem_nil
  | cons c cs ih =>
    by_cases hc : c = sep
    · subst hc
      rw [splitOnChar_cons_self] at h
      rcases List.mem_cons.mp h with rfl | hrest
      · exact List.not_mem_nil
      · exact ih hrest
    · obtain ⟨first, rest, hcs, hsplit⟩ := splitOnChar_cons_of_ne hc cs
      rw [hcs] at ih
      rw [hsplit] at h
      rcases List.mem_cons.mp h with rfl | hrest
      · rw [List.mem_cons]
        rintro (he | hmem)
        · exact hc he.symm
        · exact ih List.mem_cons_self hmem
      · exact ih (List.mem_cons_of_mem _ hrest)

theorem splitOnChar_append (sep : Char) (cs r : List Char) :
    splitOnChar sep (cs ++ sep :: r) = splitOnChar sep cs ++ splitOnChar sep r := by
  induction cs with
  | nil => exact splitOnChar_cons_self sep r
  | cons c cs ih =>
    by_cases hc : c = sep
    · subst hc
      rw [List.cons_append, splitOnChar_cons_self, splitOnChar_cons_self, ih, List.cons_append]
    · obtain ⟨first, rest, hcs, hsplit⟩ := splitOnChar_cons_of_ne hc cs
      obtain ⟨first', rest', hr, hsplit'⟩ := splitOnChar_cons_of_ne hc (cs ++ sep :: r)
      rw [ih, hcs, List.cons_append] at hr
      obtain ⟨rfl, rfl⟩ := List.cons.inj hr
      rw [List.cons_append, hsplit', hsplit, List.cons_append]

theorem splitOnChar_of_not_mem (h : sep ∉ cs) : splitOnChar sep cs = [cs] := by
  induction cs with
  | nil => rfl
  | cons c cs ih =>
    obtain ⟨hc, hcs⟩ := not_or.mp (mt List.mem_cons.mpr h)
    obtain ⟨first, rest, hr, hsplit⟩ := splitOnChar_cons_of_ne (Ne.symm hc) cs
    obtain ⟨rfl, rfl⟩ := List.cons.inj (hr.symm.trans (ih hcs))
    exact hsplit

theorem splitOnChar_intercalate (hne : pieces ≠ []) (h : ∀ piece ∈ pieces, sep ∉ piece) :
    splitOnChar sep ([sep].intercalate pieces) = pieces := by
  induction pieces with
  | nil => exact absurd rfl hne
  | cons piece rest ih =>
    have hpiece := h piece List.mem_cons_self
    cases rest with
    | nil =>
      rw [List.intercalate_singleton]
      exact splitOnChar_of_not_mem hpiece
    | cons next rest =>
      have hrest := ih (List.cons_ne_nil _ _) fun piece hp => h piece (List.mem_cons_of_mem _ hp)
      rw [List.intercalate_cons_cons, List.append_assoc, List.singleton_append,
        splitOnChar_append, splitOnChar_of_not_mem hpiece, hrest]
      rfl

theorem intercalate_splitOnChar (sep : Char) (cs : List Char) :
    [sep].intercalate (splitOnChar sep cs) = cs := by
  induction cs with
  | nil => rfl
  | cons c cs ih =>
    by_cases hc : c = sep
    · subst hc
      rw [splitOnChar_cons_self]
      cases hcs : splitOnChar c cs with
      | nil => cases hcs
      | cons first rest => rw [List.intercalate_cons_cons, ← hcs, ih]; rfl
    · obtain ⟨first, rest, hcs, hsplit⟩ := splitOnChar_cons_of_ne hc cs
      rw [hsplit]
      rw [hcs] at ih
      cases rest with
      | nil =>
        rw [List.intercalate_singleton] at ih ⊢
        rw [ih]
      | cons next rest =>
        rw [List.intercalate_cons_cons] at ih ⊢
        rw [List.cons_append, List.cons_append, ih]

/-- A text and what follows a character are told by the whole, where the text is free of it. -/
theorem cut_inj (hc : sep ∉ cs) (hd : sep ∉ ds) (h : cs ++ sep :: r = ds ++ sep :: s) :
    cs = ds ∧ r = s := by
  have hsplit := congrArg (splitOnChar sep) h
  rw [splitOnChar_append, splitOnChar_append, splitOnChar_of_not_mem hc,
    splitOnChar_of_not_mem hd] at hsplit
  obtain rfl := (List.cons.inj hsplit).1
  exact ⟨rfl, (List.cons.inj (List.append_cancel_left h)).2⟩

/-! ### Joined parts -/

theorem join_singleton (sep part : String) : join sep [part] = part := String.intercalate_singleton

theorem join_cons_cons (sep part next : String) (rest : List String) :
    join sep (part :: next :: rest) = part ++ sep ++ join sep (next :: rest) :=
  String.intercalate_cons_cons

theorem join_cons (sep part : String) (rest : List String) :
    ∃ more, join sep (part :: rest) = part ++ more := by
  cases rest with
  | nil => exact ⟨"", by rw [join_singleton, String.append_empty]⟩
  | cons next rest => exact ⟨_, by rw [join_cons_cons, String.append_assoc]⟩

theorem not_mem_join {sep : String} {parts : List String} (hsep : c ∉ sep.toList)
    (h : ∀ part ∈ parts, c ∉ part.toList) : c ∉ (join sep parts).toList := by
  induction parts with
  | nil => exact List.not_mem_nil
  | cons part rest ih =>
    have hpart := h part List.mem_cons_self
    cases rest with
    | nil =>
      rw [join_singleton]
      exact hpart
    | cons next rest =>
      have hrest := ih fun part hp => h part (List.mem_cons_of_mem _ hp)
      rw [join_cons_cons, String.toList_append, String.toList_append, List.mem_append,
        List.mem_append]
      rintro ((hc | hc) | hc)
      · exact hpart hc
      · exact hsep hc
      · exact hrest hc

/-- Parts between separators of one character are told where they are free of it. -/
theorem join_inj {sep : String} {parts parts' : List String} (hsep : sep.toList = [c])
    (hne : parts ≠ []) (hne' : parts' ≠ []) (hparts : ∀ part ∈ parts, c ∉ part.toList)
    (hparts' : ∀ part ∈ parts', c ∉ part.toList) (h : join sep parts = join sep parts') :
    parts = parts' := by
  have hsplit {parts : List String} (hne : parts ≠ []) (hparts : ∀ part ∈ parts, c ∉ part.toList) :
      splitOnChar c (join sep parts).toList = parts.map String.toList := by
    rw [join, String.toList_intercalate, hsep, splitOnChar_intercalate]
    · exact mt List.map_eq_nil_iff.mp hne
    · intro piece hp
      obtain ⟨part, hm, rfl⟩ := List.mem_map.mp hp
      exact hparts part hm
  have htexts : parts.map String.toList = parts'.map String.toList := by
    rw [← hsplit hne hparts, ← hsplit hne' hparts', h]
  exact List.map_injective_iff.mpr (fun _ _ => String.toList_injective) htexts

/-! ### Codes -/

theorem flatMap_injective_of_code {code : Char → List Char} (hne : ∀ c, code c ≠ [])
    (hcode : ∀ c d r s, code c ++ r = code d ++ s → c = d ∧ r = s) :
    Function.Injective (List.flatMap code) := by
  intro cs ds h
  induction cs generalizing ds with
  | nil =>
    cases ds with
    | nil => rfl
    | cons d ds => exact absurd (List.append_eq_nil_iff.mp h.symm).1 (hne d)
  | cons c cs ih =>
    cases ds with
    | nil => exact absurd (List.append_eq_nil_iff.mp h).1 (hne c)
    | cons d ds =>
      rw [List.flatMap_cons, List.flatMap_cons] at h
      obtain ⟨rfl, hrest⟩ := hcode _ _ _ _ h
      rw [ih hrest]

/-! ### Texts in a text -/

/-- The texts stand in a text, one after the other. -/
def InOrder : List String → String → Prop
  | [], _ => True
  | part :: parts, text => ∃ before after, text = before ++ part ++ after ∧ InOrder parts after

variable {part : String} {parts parts' : List String} {text text' : String}

theorem InOrder.prepend (before : String) (h : InOrder parts text) :
    InOrder parts (before ++ text) := by
  cases parts with
  | nil => trivial
  | cons part parts =>
    obtain ⟨front, after, rfl, hafter⟩ := h
    refine ⟨before ++ front, after, ?_, hafter⟩
    rw [String.append_assoc, String.append_assoc, String.append_assoc]

theorem InOrder.append (h : InOrder parts text) (h' : InOrder parts' text') :
    InOrder (parts ++ parts') (text ++ text') := by
  induction parts generalizing text with
  | nil => exact h'.prepend text
  | cons part parts ih =>
    obtain ⟨front, after, rfl, hafter⟩ := h
    exact ⟨front, after ++ text', String.append_assoc, ih hafter⟩

theorem InOrder.extend (after : String) (h : InOrder parts text) :
    InOrder parts (text ++ after) := by
  have happend : InOrder (parts ++ []) (text ++ after) := h.append trivial
  rwa [List.append_nil] at happend

theorem InOrder.sublist (h : InOrder parts text) (hs : List.Sublist parts' parts) :
    InOrder parts' text := by
  induction hs generalizing text with
  | slnil => trivial
  | cons part _ ih =>
    obtain ⟨front, after, rfl, hafter⟩ := h
    exact (ih hafter).prepend (front ++ part)
  | cons_cons part _ ih =>
    obtain ⟨front, after, rfl, hafter⟩ := h
    exact ⟨front, after, rfl, ih hafter⟩

theorem inOrder_self (text : String) : InOrder [text] text :=
  ⟨"", "", by rw [String.empty_append, String.append_empty], trivial⟩

theorem inOrder_join (sep : String) {shown : α → List String} {line : α → String} (xs : List α)
    (h : ∀ x ∈ xs, InOrder (shown x) (line x)) :
    InOrder (xs.flatMap shown) (join sep (xs.map line)) := by
  induction xs with
  | nil => trivial
  | cons x xs ih =>
    have hx := h x List.mem_cons_self
    cases xs with
    | nil =>
      rw [List.flatMap_cons, List.flatMap_nil, List.append_nil, List.map_singleton, join_singleton]
      exact hx
    | cons y ys =>
      have hrest := ih fun y hy => h y (List.mem_cons_of_mem _ hy)
      rw [List.flatMap_cons, List.map_cons, List.map_cons, join_cons_cons]
      exact (hx.extend sep).append hrest

end Turnstile.Text
