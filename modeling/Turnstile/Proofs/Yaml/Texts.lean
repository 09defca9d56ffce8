import Turnstile.Proofs.Text.Digits
import Turnstile.Proofs.Text.Lines
import Turnstile.Yaml.Printer

/-!
# Texts of YAML that tell what is written

A text on one line is told by what is written for it, in double quotes, in single quotes or plain. As
a literal block it takes several lines; these tell it, and where it ends, if the line that follows is
not empty and not indented as far as the block.
-/

namespace Turnstile.Yaml

open Text

variable {c d : Char} {cs ds r s : List Char}

/-! ### Double quotes -/

/-- The marks of the short escapes, with the numbers of their characters. -/
def shortEscapes : List (Char × Nat) :=
  [ ('"', 0x22), ('\\', 0x5C), ('0', 0), ('a', 7), ('b', 8), ('t', 9), ('n', 10), ('v', 11), ('f', 12),
    ('r', 13), ('e', 27), ('N', 0x85), ('L', 0x2028), ('P', 0x2029) ]

/-- The marks of the escapes by number, with the counts of their digits. -/
def numberEscapes : List (Char × Nat) := [('x', 2), ('u', 4), ('U', 8)]

/-- How a character stands in double quotes. -/
inductive Escaped (c : Char) : List Char → Prop
  | plain : c ≠ '\\' → c ≠ '\n' → Escaped c [c]
  | short {mark : Char} : (mark, c.toNat) ∈ shortEscapes → Escaped c ['\\', mark]
  | number {mark : Char} {count : Nat} : (mark, count) ∈ numberEscapes → c.toNat < 16 ^ count →
    Escaped c ('\\' :: mark :: upperHex count c.toNat)

theorem doubleQuotedChar_of_short {mark : Char} (h : (mark, c.toNat) ∈ shortEscapes) :
    doubleQuotedChar c = ['\\', mark] := by
  have hall : shortEscapes.all fun e => doubleQuotedChar (Char.ofNat e.2) = ['\\', e.1] := by
    decide +kernel
  have hc := of_decide_eq_true (List.all_eq_true.mp hall _ h)
  rwa [Char.ofNat_toNat] at hc

theorem doubleQuotedChar_of_not_short (h : ∀ e ∈ shortEscapes, c.toNat ≠ e.2) :
    doubleQuotedChar c =
      if isShown c && !isBreak c then [c]
      else if c.toNat < 0x100 then '\\' :: 'x' :: upperHex 2 c.toNat
      else if c.toNat < 0x10000 then '\\' :: 'u' :: upperHex 4 c.toNat
      else '\\' :: 'U' :: upperHex 8 c.toNat := by
  have hquote : c ≠ '"' := fun he => h ('"', 0x22) (by decide) (congrArg Char.toNat he)
  have hslash : c ≠ '\\' := fun he => h ('\\', 0x5C) (by decide) (congrArg Char.toNat he)
  simp only [shortEscapes, List.forall_mem_cons] at h
  simp only [doubleQuotedChar, hquote, hslash, h, if_false]

theorem escaped_doubleQuotedChar (c : Char) : Escaped c (doubleQuotedChar c) := by
  by_cases hshort : ∃ e ∈ shortEscapes, c.toNat = e.2
  · obtain ⟨⟨mark, n⟩, he, rfl⟩ := hshort
    rw [doubleQuotedChar_of_short he]
    exact .short he
  · rw [doubleQuotedChar_of_not_short fun e he hn => hshort ⟨e, he, hn⟩]
    split
    · refine .plain ?_ ?_
      · rintro rfl
        exact hshort ⟨('\\', 0x5C), by decide, rfl⟩
      · rintro rfl
        exact hshort ⟨('n', 10), by decide, rfl⟩
    split
    · next h => exact .number (by decide) h
    split
    · next h => exact .number (by decide) h
    · exact .number (by decide) (Nat.lt_of_lt_of_le c.val.toNat_lt (by decide))

theorem length_upperHex (count n : Nat) : (upperHex count n).length = count := by
  rw [upperHex, List.length_map, length_hexDigits]

theorem mod_eq_of_upperHex {count a b : Nat} (h : upperHex count a = upperHex count b) :
    a % 16 ^ count = b % 16 ^ count := by
  have hlower : ∀ d < 16, (hexDigit d).toUpper.toLower = hexDigit d := by decide
  have hback (n : Nat) : (upperHex count n).map Char.toLower = hexDigits count n := by
    rw [upperHex, List.map_map]
    refine (List.map_congr_left ?_).trans (List.map_id _)
    intro c hc
    obtain ⟨d, hd, rfl⟩ := mem_hexDigits hc
    exact hlower d hd
  apply mod_eq_of_hexDigits
  rw [← hback a, ← hback b, h]

theorem Escaped.append_inj (hc : Escaped c cs) (hd : Escaped d ds) (h : cs ++ r = ds ++ s) :
    c = d ∧ r = s := by
  -- No mark of one table is in the other, and no mark stands twice in its own.
  have hshort : ∀ e ∈ shortEscapes, ∀ e' ∈ shortEscapes, e.1 = e'.1 → e.2 = e'.2 := by decide
  have hnumber : ∀ e ∈ numberEscapes, ∀ e' ∈ numberEscapes, e.1 = e'.1 → e.2 = e'.2 := by decide
  have hapart : ∀ e ∈ shortEscapes, ∀ e' ∈ numberEscapes, e.1 ≠ e'.1 := by decide
  cases hc with
  | plain hslash =>
    cases hd with
    | plain => exact List.cons.inj h
    | short => exact absurd (List.cons.inj h).1 hslash
    | number => exact absurd (List.cons.inj h).1 hslash
  | short hm =>
    cases hd with
    | plain hslash => exact absurd (List.cons.inj h).1.symm hslash
    | short hm' =>
      obtain ⟨hmark, hrest⟩ := List.cons.inj (List.cons.inj h).2
      exact ⟨Char.toNat_inj.mp (hshort _ hm _ hm' hmark), hrest⟩
    | number hm' => exact absurd (List.cons.inj (List.cons.inj h).2).1 (hapart _ hm _ hm')
  | number hm hlt =>
    cases hd with
    | plain hslash => exact absurd (List.cons.inj h).1.symm hslash
    | short hm' => exact absurd (List.cons.inj (List.cons.inj h).2).1.symm (hapart _ hm' _ hm)
    | number hm' hlt' =>
      obtain ⟨hmark, hrest⟩ := List.cons.inj (List.cons.inj h).2
      obtain rfl := hnumber _ hm _ hm' hmark
      obtain ⟨hdigits, hrs⟩ :=
        List.append_inj hrest ((length_upperHex _ _).trans (length_upperHex _ _).symm)
      have hmod := mod_eq_of_upperHex hdigits
      rw [Nat.mod_eq_of_lt hlt, Nat.mod_eq_of_lt hlt'] at hmod
      exact ⟨Char.toNat_inj.mp hmod, hrs⟩

theorem Escaped.not_mem_newline (h : Escaped c cs) : '\n' ∉ cs := by
  have hshort : ∀ e ∈ shortEscapes, '\n' ∉ ['\\', e.1] := by decide
  have hnumber : ∀ e ∈ numberEscapes, '\n' ∉ ['\\', e.1] := by decide
  have hdigit : ∀ d < 16, '\n' ≠ (hexDigit d).toUpper := by decide
  cases h with
  | plain _ hne => exact fun hmem => hne (List.mem_singleton.mp hmem).symm
  | short hm => exact hshort _ hm
  | @number mark count hm _ =>
    have hsplit : '\\' :: mark :: upperHex count c.toNat = ['\\', mark] ++ upperHex count c.toNat := rfl
    rw [hsplit, List.mem_append]
    rintro (hmark | hhex)
    · exact hnumber _ hm hmark
    · obtain ⟨x, hx, he⟩ := List.mem_map.mp hhex
      obtain ⟨d, hd, rfl⟩ := mem_hexDigits hx
      exact hdigit d hd he.symm

theorem toList_doubleQuoted (cs : List Char) :
    (doubleQuoted cs).toList = '"' :: (cs.flatMap doubleQuotedChar ++ ['"']) := by
  simp only [doubleQuoted, String.toList_append, String.toList_ofList]
  rfl

theorem doubleQuoted_injective : Function.Injective doubleQuoted := by
  intro cs ds h
  have hl := congrArg String.toList h
  rw [toList_doubleQuoted, toList_doubleQuoted] at hl
  refine flatMap_injective_of_code ?_ ?_ (List.append_cancel_right (List.cons.inj hl).2)
  · intro c hnil
    cases hnil ▸ escaped_doubleQuotedChar c
  · intro c d r s
    exact (escaped_doubleQuotedChar c).append_inj (escaped_doubleQuotedChar d)

/-! ### Single quotes -/

theorem toList_singleQuoted (cs : List Char) : (singleQuoted cs).toList =
    '\'' :: (cs.flatMap (fun c => if c = '\'' then ['\'', '\''] else [c]) ++ ['\'']) := by
  simp only [singleQuoted, String.toList_append, String.toList_ofList]
  rfl

theorem singleQuoted_injective : Function.Injective singleQuoted := by
  intro cs ds h
  have hl := congrArg String.toList h
  rw [toList_singleQuoted, toList_singleQuoted] at hl
  refine flatMap_injective_of_code ?_ ?_ (List.append_cancel_right (List.cons.inj hl).2)
  · intro c
    split <;> exact List.cons_ne_nil _ _
  · intro c d r s he
    by_cases hc : c = '\''
    · by_cases hd : d = '\''
      · rw [if_pos hc, if_pos hd] at he
        exact ⟨hc.trans hd.symm, List.append_cancel_left he⟩
      · rw [if_pos hc, if_neg hd] at he
        exact absurd (List.cons.inj he).1.symm hd
    · by_cases hd : d = '\''
      · rw [if_neg hc, if_pos hd] at he
        exact absurd (List.cons.inj he).1 hc
      · rw [if_neg hc, if_neg hd] at he
        exact List.cons.inj he

/-! ### One line -/

/-- How a text is written on one line. -/
inductive Inline (text : String) : String → Prop
  | doubled : Inline text (doubleQuoted text.toList)
  | single : '\n' ∉ text.toList → Inline text (singleQuoted text.toList)
  | plain : '\n' ∉ text.toList → mayStandPlain text.toList = true → Inline text text

variable {text text' line line' : String}

theorem inline_inlineText (text : String) : Inline text (inlineText text) := by
  unfold inlineText
  extract_lets cs
  split
  · exact .doubled
  · next hshown =>
    have hline : '\n' ∉ cs := by
      intro hmem
      rw [List.contains_iff_mem.mpr hmem, Bool.or_true] at hshown
      exact hshown rfl
    split
    · exact .single hline
    · next hplain =>
      rw [Bool.or_eq_true, not_or, Bool.not_eq_true', Bool.not_eq_false] at hplain
      exact .plain hline hplain.2

/-- What stands plain begins neither with a quotation mark nor with a bar, and not with a blank. -/
theorem head_of_mayStandPlain (h : mayStandPlain cs = true) (hc : cs.head? = some c) :
    c ≠ '"' ∧ c ≠ '\'' ∧ c ≠ '|' ∧ c ≠ ' ' := by
  cases cs with
  | nil => cases hc
  | cons x cs =>
    obtain rfl := Option.some.inj hc
    simp only [mayStandPlain, Bool.not_eq_true', Bool.or_eq_false_iff] at h
    obtain ⟨⟨⟨⟨houter, hmark⟩, _⟩, _⟩, _⟩ := h
    simp only [beginsWithMark, Bool.or_eq_false_iff] at hmark
    have hnot : x ∉ "#,[]\x7b\x7d&*!|>'\"%@\x60".toList := by
      intro hmem
      rw [List.contains_iff_mem.mpr hmem] at hmark
      cases hmark.1
    refine ⟨?_, ?_, ?_, ?_⟩
    · rintro rfl
      exact hnot (by decide)
    · rintro rfl
      exact hnot (by decide)
    · rintro rfl
      exact hnot (by decide)
    · rintro rfl
      cases houter

theorem Inline.head (h : Inline text line) (hc : line.toList.head? = some c) : c ≠ '|' ∧ c ≠ ' ' := by
  cases h with
  | doubled =>
    rw [toList_doubleQuoted] at hc
    obtain rfl := Option.some.inj hc
    decide
  | single =>
    rw [toList_singleQuoted] at hc
    obtain rfl := Option.some.inj hc
    decide
  | plain _ hplain => exact (head_of_mayStandPlain hplain hc).2.2

theorem Inline.not_mem_newline (h : Inline text line) : '\n' ∉ line.toList := by
  cases h with
  | doubled =>
    rw [toList_doubleQuoted, List.mem_cons, List.mem_append, List.mem_flatMap]
    rintro (hquote | ⟨c, _, hmem⟩ | hquote)
    · cases hquote
    · exact (escaped_doubleQuotedChar c).not_mem_newline hmem
    · cases List.mem_singleton.mp hquote
  | single hline =>
    rw [toList_singleQuoted, List.mem_cons, List.mem_append, List.mem_flatMap]
    rintro (hquote | ⟨c, hc, hmem⟩ | hquote)
    · cases hquote
    · split at hmem
      · exact absurd hmem (by decide)
      · exact hline (List.mem_singleton.mp hmem ▸ hc)
    · cases List.mem_singleton.mp hquote
  | plain hline => exact hline

theorem Inline.inj (h : Inline text line) (h' : Inline text' line) : text = text' := by
  have hdouble (cs : List Char) : (doubleQuoted cs).toList.head? = some '"' := by
    rw [toList_doubleQuoted, List.head?_cons]
  have hsingle (cs : List Char) : (singleQuoted cs).toList.head? = some '\'' := by
    rw [toList_singleQuoted, List.head?_cons]
  generalize hl : line = line' at h'
  cases h with
  | doubled =>
    cases h' with
    | doubled => exact String.toList_inj.mp (doubleQuoted_injective hl)
    | single => cases (hdouble _).symm.trans (hl ▸ hsingle _)
    | plain _ hplain => exact absurd rfl (head_of_mayStandPlain hplain (hl ▸ hdouble _)).1
  | single =>
    cases h' with
    | doubled => cases (hsingle _).symm.trans (hl ▸ hdouble _)
    | single => exact String.toList_inj.mp (singleQuoted_injective hl)
    | plain _ hplain => exact absurd rfl (head_of_mayStandPlain hplain (hl ▸ hsingle _)).2.1
  | plain _ hplain =>
    cases h' with
    | doubled => exact absurd rfl (head_of_mayStandPlain hplain (hl ▸ hdouble _)).1
    | single => exact absurd rfl (head_of_mayStandPlain hplain (hl ▸ hsingle _)).2.1
    | plain => exact hl

theorem inlineText_injective : Function.Injective inlineText := by
  intro a b h
  exact (inline_inlineText a).inj (h ▸ inline_inlineText b)

/-! ### Literal blocks -/

def literalLines (cs : List Char) : List (List Char) :=
  if cs.getLast? = some '\n' then (splitOnChar '\n' cs).dropLast else splitOnChar '\n' cs

/-- A line of a block; empty lines are not indented. -/
def indented (depth : Nat) : List Char → List Char
  | [] => []
  | c :: line => (indentation depth).toList ++ c :: line

/-- The lines of a block, each after a line break. -/
def block (depth : Nat) (lines : List (List Char)) : List Char :=
  lines.flatMap fun line => '\n' :: indented depth line

/-- A text that goes on in a new line, neither empty nor indented to a depth. -/
def Outdented (depth : Nat) (r : List Char) : Prop :=
  ∃ line, r = '\n' :: line ∧ line.head? ≠ some '\n' ∧ ¬ (indentation depth).toList <+: line

theorem toList_literal (depth : Nat) (cs : List Char) : (literal depth cs).toList =
    '|' :: ((literalHints cs).toList ++ block depth (literalLines cs)) := by
  have hlines (lines : List (List Char)) : (String.join (lines.map fun line =>
      "\n" ++ if line.isEmpty then "" else indentation depth ++ String.ofList line)).toList =
        block depth lines := by
    induction lines with
    | nil => rfl
    | cons line rest ih =>
      rw [List.map_cons, String.join_cons, String.toList_append, ih, block, block, List.flatMap_cons]
      cases line <;> simp [indented]
  simp only [literal, String.toList_append, hlines, literalLines]
  rfl

theorem indented_injective (depth : Nat) : Function.Injective (indented depth) := by
  intro a b h
  cases a with
  | nil =>
    cases b with
    | nil => rfl
    | cons => exact absurd (List.append_eq_nil_iff.mp h.symm).2 (List.cons_ne_nil _ _)
  | cons =>
    cases b with
    | nil => exact absurd (List.append_eq_nil_iff.mp h).2 (List.cons_ne_nil _ _)
    | cons => exact List.append_cancel_left h

theorem not_mem_indented {line : List Char} (depth : Nat) (h : '\n' ∉ line) :
    '\n' ∉ indented depth line := by
  cases line with
  | nil => exact h
  | cons c line =>
    rw [indented, List.mem_append, indentation, String.toList_ofList]
    rintro (hblank | hline)
    · cases List.eq_of_mem_replicate hblank
    · exact h hline

theorem not_mem_of_mem_literalLines {line : List Char} (h : line ∈ literalLines cs) : '\n' ∉ line := by
  unfold literalLines at h
  split at h
  · exact not_mem_of_mem_splitOnChar (List.dropLast_subset _ h)
  · exact not_mem_of_mem_splitOnChar h

/-- The hints of a block end in a minus sign where its text does not end in a line break. -/
theorem literalHints_eq (cs : List Char) : ∃ front ∈ ["", "2"], ∃ tail ∈ ["+", "", "-"],
    literalHints cs = front ++ tail ∧ (tail = "-" ↔ cs.getLast? ≠ some '\n') := by
  unfold literalHints
  extract_lets leads tail
  refine ⟨if leads then "2" else "", ?_, tail, ?_, rfl, ?_⟩
  · split <;> decide
  · unfold tail
    split <;> decide
  · rw [← List.head?_reverse]
    unfold tail
    split
    · next h => exact iff_of_false (by decide) fun hne => hne (h ▸ rfl)
    · next h => exact iff_of_false (by decide) fun hne => hne (h ▸ rfl)
    · next h => exact iff_of_false (by decide) fun hne => hne (h ▸ rfl)
    · next hbreak =>
      refine iff_of_true rfl fun hhead => ?_
      obtain ⟨rest, hrest⟩ := List.head?_eq_some_iff.mp hhead
      exact hbreak rest hrest

theorem getLast?_literalHints (cs : List Char) :
    (literalHints cs).toList.getLast? = some '-' ↔ cs.getLast? ≠ some '\n' := by
  obtain ⟨front, hfront, tail, htail, he, hminus⟩ := literalHints_eq cs
  have hall : ∀ front ∈ ["", "2"], ∀ tail ∈ ["+", "", "-"],
      ((front ++ tail).toList.getLast? = some '-' ↔ tail = "-") := by decide
  rw [he, hall front hfront tail htail, hminus]

theorem not_mem_literalHints (cs : List Char) : '\n' ∉ (literalHints cs).toList := by
  obtain ⟨front, hfront, tail, htail, he, _⟩ := literalHints_eq cs
  have hall : ∀ front ∈ ["", "2"], ∀ tail ∈ ["+", "", "-"], '\n' ∉ (front ++ tail).toList := by decide
  rw [he]
  exact hall front hfront tail htail

theorem intercalate_literalLines (cs : List Char) : ['\n'].intercalate (literalLines cs) ++
    (if cs.getLast? = some '\n' then ['\n'] else []) = cs := by
  unfold literalLines
  split
  · next h =>
    obtain ⟨front, rfl⟩ := List.getLast?_eq_some_iff.mp h
    have hnone : splitOnChar '\n' [] = [[]] := rfl
    rw [splitOnChar_append, hnone, List.dropLast_concat, intercalate_splitOnChar]
  · rw [intercalate_splitOnChar, List.append_nil]

theorem literal_inj (hhints : literalHints cs = literalHints ds)
    (hlines : literalLines cs = literalLines ds) : cs = ds := by
  have hend : cs.getLast? = some '\n' ↔ ds.getLast? = some '\n' := by
    have hsame := getLast?_literalHints cs
    rw [hhints, getLast?_literalHints] at hsame
    exact (not_iff_not.mp hsame).symm
  rw [← intercalate_literalLines cs, ← intercalate_literalLines ds, hlines]
  simp only [hend]

/-! ### Where a block ends -/

section

variable {depth : Nat} {lines lines' : List (List Char)}

/-- Whatever comes after a line begins in a new line. -/
theorem block_append (lines : List (List Char)) (hr : Outdented depth r) :
    ∃ rest, block depth lines ++ r = '\n' :: rest := by
  cases lines with
  | nil => exact ⟨_, hr.choose_spec.1⟩
  | cons line rest => exact ⟨_, rfl⟩

theorem Outdented.ne_block_append (hr : Outdented depth r) (hs : Outdented depth s)
    (line : List Char) (lines : List (List Char)) : r ≠ block depth (line :: lines) ++ s := by
  rintro rfl
  obtain ⟨more, hmore, hbreak, hdeep⟩ := hr
  obtain ⟨rest, hrest⟩ := block_append lines hs
  rw [block, List.flatMap_cons, ← block, List.append_assoc, hrest, List.cons_append] at hmore
  obtain rfl := (List.cons.inj hmore).2
  cases line with
  | nil => exact hbreak rfl
  | cons c line =>
    refine hdeep ?_
    rw [indented, List.append_assoc]
    exact List.prefix_append _ _

/-- A block is told, and where it ends. -/
theorem block_append_inj (hl : ∀ line ∈ lines, '\n' ∉ line) (hl' : ∀ line ∈ lines', '\n' ∉ line)
    (hr : Outdented depth r) (hs : Outdented depth s)
    (h : block depth lines ++ r = block depth lines' ++ s) : lines = lines' ∧ r = s := by
  induction lines generalizing lines' with
  | nil =>
    cases lines' with
    | nil => exact ⟨rfl, h⟩
    | cons line' lines' => exact absurd h (hr.ne_block_append hs line' lines')
  | cons line lines ih =>
    cases lines' with
    | nil => exact absurd h.symm (hs.ne_block_append hr line lines)
    | cons line' lines' =>
      obtain ⟨rest, hrest⟩ := block_append lines hr
      obtain ⟨rest', hrest'⟩ := block_append lines' hs
      rw [block, block, List.flatMap_cons, List.flatMap_cons, ← block, ← block, List.append_assoc,
        List.append_assoc, hrest, hrest'] at h
      obtain ⟨hline, hmore⟩ := cut_inj (not_mem_indented depth (hl line List.mem_cons_self))
        (not_mem_indented depth (hl' line' List.mem_cons_self)) (List.cons.inj h).2
      obtain rfl := indented_injective depth hline
      rw [← hmore, ← hrest] at hrest'
      obtain ⟨rfl, hrs⟩ := ih (fun line hm => hl line (List.mem_cons_of_mem _ hm))
        (fun line hm => hl' line (List.mem_cons_of_mem _ hm)) hrest'.symm
      exact ⟨rfl, hrs⟩

end

/-! ### Values of entries -/

section

variable {depth : Nat}

theorem Inline.ne_literal (h : Inline text line) (hr : Outdented depth r) (cs s : List Char) :
    line.toList ++ r ≠ (literal depth cs).toList ++ s := by
  obtain ⟨more, rfl, _⟩ := hr
  rw [toList_literal, List.cons_append]
  cases hline : line.toList with
  | nil => exact fun he => absurd (List.cons.inj he).1 (by decide)
  | cons c rest => exact fun he => (h.head (congrArg List.head? hline)).1 (List.cons.inj he).1

/-- A text as a value is told by what is written for it, and where this ends. -/
theorem textValue_append_inj {a b : String} (hr : Outdented depth r) (hs : Outdented depth s)
    (h : (textValue depth a).toList ++ r = (textValue depth b).toList ++ s) : a = b ∧ r = s := by
  unfold textValue at h
  extract_lets cs ds at h
  split at h
  · split at h
    · rw [toList_literal, toList_literal, List.cons_append, List.cons_append, List.append_assoc,
        List.append_assoc] at h
      obtain ⟨rest, hrest⟩ := block_append (literalLines cs) hr
      obtain ⟨rest', hrest'⟩ := block_append (literalLines ds) hs
      rw [hrest, hrest'] at h
      obtain ⟨hhints, hmore⟩ := cut_inj (not_mem_literalHints cs) (not_mem_literalHints ds)
        (List.cons.inj h).2
      rw [← hmore, ← hrest] at hrest'
      obtain ⟨hlines, hrs⟩ := block_append_inj (fun _ hm => not_mem_of_mem_literalLines hm)
        (fun _ hm => not_mem_of_mem_literalLines hm) hr hs hrest'.symm
      exact ⟨String.toList_inj.mp (literal_inj (String.toList_inj.mp hhints) hlines), hrs⟩
    · exact absurd h.symm ((inline_inlineText b).ne_literal hs _ _)
  · split at h
    · exact absurd h ((inline_inlineText a).ne_literal hr _ _)
    · obtain ⟨more, rfl, _⟩ := hr
      obtain ⟨more', rfl, _⟩ := hs
      obtain ⟨hline, rfl⟩ := cut_inj (inline_inlineText a).not_mem_newline
        (inline_inlineText b).not_mem_newline h
      exact ⟨inlineText_injective (String.toList_inj.mp hline), rfl⟩

end

end Turnstile.Yaml
