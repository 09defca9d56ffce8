import Mathlib.Data.List.DropRight
import Mathlib.Data.List.Forall2
import Turnstile.Console.Table
import Turnstile.Proofs.Text.Lines

/-!
# Tables that tell what is in them

The lines at the top of a table tell how wide its columns are, and with that each line tells its
cells. Blanks at the end of a line of a cell are lost among those that fill the column.
-/

namespace Turnstile.Console.Table

open Text

variable {w : Nat} {ws vs : List Nat} {cs ds r s : List Char} {cells cells' : List (List Char)}
  {row : List String} {rows : List (List String)} {t t' : Table}

/-! ### Cells that fill their columns -/

theorem width_cons (c : Char) (cs : List Char) : width (c :: cs) = charWidth c + width cs := by
  have hfold (sum : Nat) (cs : List Char) :
      cs.foldl (fun sum c => sum + charWidth c) sum = sum + width cs := by
    induction cs generalizing sum with
    | nil => rfl
    | cons d ds ih => rw [width, List.foldl_cons, List.foldl_cons, ih, ih, Nat.zero_add, Nat.add_assoc]
  rw [width, List.foldl_cons, hfold, Nat.zero_add]

theorem width_append (cs ds : List Char) : width (cs ++ ds) = width cs + width ds := by
  induction cs with
  | nil => exact (Nat.zero_add _).symm
  | cons c cs ih => rw [List.cons_append, width_cons, width_cons, ih, Nat.add_assoc]

theorem width_replicate (n : Nat) : width (List.replicate n ' ') = n := by
  induction n with
  | zero => rfl
  | succ n ih =>
    have hblank : charWidth ' ' = 1 := rfl
    rw [List.replicate_succ, width_cons, ih, hblank, Nat.add_comm]

/-- What stands before a blank is told by its width. -/
theorem append_blank_inj (hw : width cs = width ds) (h : cs ++ ' ' :: r = ds ++ ' ' :: s) :
    cs = ds ∧ r = s := by
  have hlonger {cs ds r s : List Char} (hw : width cs = width ds)
      (h : cs ++ ' ' :: r = ds ++ ' ' :: s) (hp : cs <+: ds) : cs = ds := by
    obtain ⟨more, rfl⟩ := hp
    rw [width_append] at hw
    rw [List.append_assoc] at h
    cases more with
    | nil => exact (List.append_nil cs).symm
    | cons c more =>
      obtain rfl := (List.cons.inj (List.append_cancel_left h)).1
      have hblank : charWidth ' ' = 1 := rfl
      rw [width_cons, hblank] at hw
      omega
  have hcs : cs = ds := by
    have hp : cs <+: ds ++ ' ' :: s := ⟨_, h⟩
    rcases List.prefix_or_prefix_of_prefix hp (List.prefix_append _ _) with hp | hp
    · exact hlonger hw h hp
    · exact (hlonger hw.symm h.symm hp).symm
  subst hcs
  exact ⟨rfl, (List.cons.inj (List.append_cancel_left h)).2⟩

def padded (w : Nat) (cs : List Char) : List Char := cs ++ List.replicate (w - width cs) ' '

/-- A line without the blanks at its end. -/
def trimmed (cs : List Char) : List Char := cs.rdropWhile (· == ' ')

theorem width_padded (h : width cs ≤ w) : width (padded w cs) = w := by
  rw [padded, width_append, width_replicate]
  omega

theorem trimmed_padded (w : Nat) (cs : List Char) : trimmed (padded w cs) = trimmed cs := by
  rw [trimmed, trimmed, List.rdropWhile, List.rdropWhile, padded, List.reverse_append,
    List.reverse_replicate, List.dropWhile_append_of_pos]
  intro c hc
  rw [List.eq_of_mem_replicate hc]
  rfl

/-! ### Lines -/

/-- The cells of a line, from the first one to the frame. -/
def inside (ws : List Nat) (cells : List (List Char)) : List Char :=
  [' ', '│', ' '].intercalate (List.zipWith padded ws cells) ++ [' ', '│']

theorem toList_rowLine (ws : List Nat) (cells : List (List Char)) :
    (rowLine ws cells).toList = '│' :: ' ' :: inside ws cells := by
  have hpadded : (fun w cs => String.toList (String.ofList cs ++ blanks (w - width cs))) = padded := by
    funext w cs
    rw [String.toList_append, String.toList_ofList, blanks, String.toList_ofList, padded]
  rw [rowLine, String.toList_append, String.toList_append, join, String.toList_intercalate,
    List.map_zipWith, hpadded]
  rfl

/-- What comes after a cell. -/
def beside (ws : List Nat) (cells : List (List Char)) : List Char :=
  match ws, cells with
  | w :: ws, cs :: cells => ' ' :: inside (w :: ws) (cs :: cells)
  | _, _ => []

theorem inside_cons (w : Nat) (ws : List Nat) (cs : List Char) (cells : List (List Char)) :
    inside (w :: ws) (cs :: cells) = padded w cs ++ ' ' :: '│' :: beside ws cells := by
  cases ws with
  | nil => simp [inside, beside]
  | cons w' ws =>
    cases cells with
    | nil => simp [inside, beside]
    | cons cs' cells => simp [inside, beside]

/-- A line tells its cells where each fits into its column. -/
theorem rowLine_inj (hc : List.Forall₂ (fun w cs => width cs ≤ w) ws cells)
    (hc' : List.Forall₂ (fun w cs => width cs ≤ w) ws cells')
    (h : rowLine ws cells = rowLine ws cells') : cells.map trimmed = cells'.map trimmed := by
  have hl := congrArg String.toList h
  rw [toList_rowLine, toList_rowLine] at hl
  replace hl := (List.cons.inj (List.cons.inj hl).2).2
  clear h
  induction hc generalizing cells' with
  | nil =>
    cases hc'
    rfl
  | @cons w cs ws cells hw hmore ih =>
    cases hc' with
    | @cons _ cs' _ cells' hw' hmore' =>
      rw [inside_cons, inside_cons] at hl
      obtain ⟨hcell, hrest⟩ :=
        append_blank_inj ((width_padded hw).trans (width_padded hw').symm) hl
      have hfirst : trimmed cs = trimmed cs' := by
        rw [← trimmed_padded w cs, ← trimmed_padded w cs', hcell]
      rw [List.map_cons, List.map_cons, hfirst]
      congr 1
      cases hmore with
      | nil =>
        cases hmore'
        rfl
      | cons =>
        cases hmore' with
        | cons hw'' hmore'' =>
          exact ih (.cons hw'' hmore'') (List.cons.inj (List.cons.inj hrest).2).2

/-! ### Widths of columns -/

def Fits (ws : List Nat) (row : List String) : Prop :=
  List.Forall₂ (fun w cell => cellWidth cell ≤ w) ws row

theorem le_foldl_max {n m : Nat} {ns : List Nat} (h : n ≤ m ∨ n ∈ ns) : n ≤ ns.foldl max m := by
  induction ns generalizing m with
  | nil => exact h.resolve_right List.not_mem_nil
  | cons k ns ih =>
    apply ih
    rcases h with hm | hmem
    · exact Or.inl (hm.trans (Nat.le_max_left _ _))
    · rcases List.mem_cons.mp hmem with rfl | hns
      · exact Or.inl (Nat.le_max_right _ _)
      · exact Or.inr hns

theorem width_le_cellWidth {cell : String} (h : cs ∈ cellLines cell) : width cs ≤ cellWidth cell :=
  le_foldl_max (Or.inr (List.mem_map_of_mem h))

theorem Fits.widen (h : Fits ws row) (hv : vs.length = ws.length) :
    Fits (List.zipWith max ws vs) row := by
  induction h generalizing vs with
  | nil =>
    obtain rfl := List.length_eq_zero_iff.mp hv
    exact .nil
  | cons hcell _ ih =>
    obtain ⟨v, vs, rfl⟩ := List.exists_cons_of_length_eq_add_one hv
    exact .cons (hcell.trans (Nat.le_max_left _ _)) (ih (Nat.succ.inj hv))

theorem fits_zipWith (h : row.length = ws.length) :
    Fits (List.zipWith max ws (row.map cellWidth)) row := by
  induction ws generalizing row with
  | nil =>
    obtain rfl := List.length_eq_zero_iff.mp h
    exact .nil
  | cons w ws ih =>
    obtain ⟨cell, row, rfl⟩ := List.exists_cons_of_length_eq_add_one h
    exact .cons (Nat.le_max_right _ _) (ih (Nat.succ.inj h))

/-- Every row has one cell a column. -/
def Rectangular (t : Table) : Prop := ∀ row ∈ t.rows, row.length = t.header.length

theorem fits_widths (ht : t.Rectangular) :
    Fits t.widths t.header ∧ ∀ row ∈ t.rows, Fits t.widths row := by
  -- Further rows only widen the columns.
  have hfold (rows : List (List String)) (ws : List Nat) (hr : ∀ row ∈ rows, row.length = ws.length) :
      let out := rows.foldl (fun ws row => List.zipWith max ws (row.map cellWidth)) ws
      (∀ row, Fits ws row → Fits out row) ∧ ∀ row ∈ rows, Fits out row := by
    induction rows generalizing ws with
    | nil => exact ⟨fun _ h => h, fun _ h => absurd h List.not_mem_nil⟩
    | cons row rows ih =>
      have hrow := hr row List.mem_cons_self
      have hlength : (row.map cellWidth).length = ws.length := by rw [List.length_map, hrow]
      have hwidened : (List.zipWith max ws (row.map cellWidth)).length = ws.length := by
        rw [List.length_zipWith, hlength, Nat.min_self]
      obtain ⟨hkeep, hall⟩ := ih (List.zipWith max ws (row.map cellWidth))
        fun row hm => (hr row (List.mem_cons_of_mem _ hm)).trans hwidened.symm
      refine ⟨fun row' h => hkeep row' (h.widen hlength), ?_⟩
      intro row' hm
      rcases List.mem_cons.mp hm with rfl | hm
      · exact hkeep row' (fits_zipWith hrow)
      · exact hall row' hm
  have hheader : Fits (t.header.map cellWidth) t.header :=
    List.forall₂_map_left_iff.mpr (List.forall₂_refl _)
  have hrows : ∀ row ∈ t.rows, row.length = (t.header.map cellWidth).length := fun row hm => by
    rw [ht row hm, List.length_map]
  obtain ⟨hkeep, hall⟩ := hfold t.rows _ hrows
  exact ⟨hkeep _ hheader, hall⟩

/-! ### The text of a table -/

/-- What stands in one of the lines of a row, cell by cell. -/
def lineCells (row : List String) (i : Nat) : List (List Char) :=
  row.map fun cell => (cellLines cell).getD i []

/-- How many lines a row takes. -/
def height (row : List String) : Nat := (row.map fun cell => (cellLines cell).length).foldl max 1

def rowCells (row : List String) : List (List (List Char)) :=
  (List.range (height row)).map (lineCells row)

theorem rowLines_eq (ws : List Nat) (row : List String) :
    rowLines ws row = (rowCells row).map (rowLine ws) := by
  simp only [rowLines, rowCells, height, lineCells, List.map_map, Function.comp_def]

theorem flatMap_rowLines (ws : List Nat) (rows : List (List String)) :
    rows.flatMap (rowLines ws) = (rows.flatMap rowCells).map (rowLine ws) := by
  rw [List.map_flatMap]
  exact congrArg (rows.flatMap ·) (funext (rowLines_eq ws))

theorem mem_getD_cellLines (cell : String) (i : Nat) :
    (cellLines cell).getD i [] = [] ∨ (cellLines cell).getD i [] ∈ cellLines cell := by
  rw [List.getD_eq_getElem?_getD]
  cases h : (cellLines cell)[i]? with
  | none => exact Or.inl rfl
  | some line => exact Or.inr (List.mem_of_getElem? h)

theorem Fits.lineCells (hf : Fits ws row) (i : Nat) :
    List.Forall₂ (fun w cs => width cs ≤ w) ws (lineCells row i) := by
  refine List.forall₂_map_right_iff.mpr (hf.imp ?_)
  intro w cell hcell
  rcases mem_getD_cellLines cell i with h | h
  · rw [h]
    exact Nat.zero_le w
  · exact (width_le_cellWidth h).trans hcell

theorem Fits.of_mem_rowCells (hf : Fits ws row) (h : cells ∈ rowCells row) :
    List.Forall₂ (fun w cs => width cs ≤ w) ws cells := by
  obtain ⟨i, _, rfl⟩ := List.mem_map.mp h
  exact hf.lineCells i

/-- The lines of the text of a table. -/
def lines (t : Table) : List String :=
  [rule "╭" "┬" "╮" t.widths] ++ rowLines t.widths t.header ++ [rule "├" "┼" "┤" t.widths] ++
    t.rows.flatMap (rowLines t.widths) ++ [rule "╰" "┴" "╯" t.widths]

theorem not_mem_rule {left between right : String} (hleft : '\n' ∉ left.toList)
    (hbetween : '\n' ∉ between.toList) (hright : '\n' ∉ right.toList) (ws : List Nat) :
    '\n' ∉ (rule left between right ws).toList := by
  have hjoin : '\n' ∉ (join between
      (ws.map fun w => String.ofList (List.replicate (w + 2) '─'))).toList := by
    apply not_mem_join hbetween
    intro part hp
    obtain ⟨w, _, rfl⟩ := List.mem_map.mp hp
    rw [String.toList_ofList]
    exact fun hm => absurd (List.eq_of_mem_replicate hm) (by decide)
  rw [rule, String.toList_append, String.toList_append, List.mem_append, List.mem_append]
  rintro ((hm | hm) | hm)
  · exact hleft hm
  · exact hjoin hm
  · exact hright hm

theorem not_mem_rowLine (hc : ∀ cs ∈ cells, '\n' ∉ cs) (ws : List Nat) :
    '\n' ∉ (rowLine ws cells).toList := by
  have hjoin : '\n' ∉ (join " │ "
      (List.zipWith (fun w cs => String.ofList cs ++ blanks (w - width cs)) ws cells)).toList := by
    apply not_mem_join (by decide)
    intro part hp
    rw [← List.map_uncurry_zip_eq_zipWith] at hp
    obtain ⟨⟨w, cs⟩, hm, rfl⟩ := List.mem_map.mp hp
    rw [Function.uncurry_apply_pair, String.toList_append, String.toList_ofList, blanks,
      String.toList_ofList, List.mem_append]
    rintro (hcs | hblank)
    · exact hc cs (List.of_mem_zip hm).2 hcs
    · exact absurd (List.eq_of_mem_replicate hblank) (by decide)
  rw [rowLine, String.toList_append, String.toList_append, List.mem_append, List.mem_append]
  rintro ((hm | hm) | hm)
  · exact absurd hm (by decide)
  · exact hjoin hm
  · exact absurd hm (by decide)

theorem not_mem_of_mem_rowLines {line : String} (h : line ∈ rowLines ws row) : '\n' ∉ line.toList := by
  rw [rowLines_eq] at h
  obtain ⟨cells, hcells, rfl⟩ := List.mem_map.mp h
  obtain ⟨i, _, rfl⟩ := List.mem_map.mp hcells
  refine not_mem_rowLine ?_ ws
  intro cs hcs
  obtain ⟨cell, _, rfl⟩ := List.mem_map.mp hcs
  rcases mem_getD_cellLines cell i with hnil | hm
  · rw [hnil]
    exact List.not_mem_nil
  · exact not_mem_of_mem_splitOnChar hm

theorem lines_ne_nil (t : Table) : t.lines ≠ [] := by
  simp only [lines, List.append_ne_nil_of_right_ne_nil, ne_eq, List.cons_ne_nil, not_false_iff]

theorem not_mem_of_mem_lines {line : String} (h : line ∈ t.lines) : '\n' ∉ line.toList := by
  simp only [lines, List.mem_append, List.mem_singleton, List.mem_flatMap] at h
  rcases h with (((rfl | hheader) | rfl) | ⟨row, _, hrow⟩) | rfl
  · exact not_mem_rule (by decide) (by decide) (by decide) _
  · exact not_mem_of_mem_rowLines hheader
  · exact not_mem_rule (by decide) (by decide) (by decide) _
  · exact not_mem_of_mem_rowLines hrow
  · exact not_mem_rule (by decide) (by decide) (by decide) _

theorem head?_render (t : Table) : t.render.toList.head? = some '╭' := by
  obtain ⟨more, hmore⟩ := join_cons "\n" (rule "╭" "┬" "╮" t.widths) (rowLines t.widths t.header ++
    [rule "├" "┼" "┤" t.widths] ++ t.rows.flatMap (rowLines t.widths) ++ [rule "╰" "┴" "╯" t.widths])
  have hrender : t.render = rule "╭" "┬" "╮" t.widths ++ more := hmore
  rw [hrender, rule, String.toList_append, String.toList_append, String.toList_append]
  rfl

theorem lines_eq_of_render (h : t.render = t'.render) : t.lines = t'.lines :=
  join_inj rfl (lines_ne_nil t) (lines_ne_nil t') (fun _ => not_mem_of_mem_lines)
    (fun _ => not_mem_of_mem_lines) h

/-- The line at the top tells how wide the columns are. -/
theorem rule_inj (hne : ws ≠ []) (hne' : vs ≠ []) (h : rule "╭" "┬" "╮" ws = rule "╭" "┬" "╮" vs) :
    ws = vs := by
  have hl := congrArg String.toList h
  simp only [rule, String.toList_append] at hl
  have hjoin := String.toList_inj.mp (List.append_cancel_left (List.append_cancel_right hl))
  have hfree (ws : List Nat) :
      ∀ part ∈ ws.map fun w => String.ofList (List.replicate (w + 2) '─'), '┬' ∉ part.toList := by
    intro part hp
    obtain ⟨w, _, rfl⟩ := List.mem_map.mp hp
    rw [String.toList_ofList]
    exact fun hm => absurd (List.eq_of_mem_replicate hm) (by decide)
  have hparts := join_inj rfl (mt List.map_eq_nil_iff.mp hne) (mt List.map_eq_nil_iff.mp hne')
    (hfree ws) (hfree vs) hjoin
  refine List.map_injective_iff.mpr ?_ hparts
  intro w v hwv
  have hlength := congrArg List.length (String.ofList_injective hwv)
  rw [List.length_replicate, List.length_replicate] at hlength
  exact Nat.add_right_cancel hlength

theorem map_eq_of_map_eq {α β γ : Type} {f : α → β} {g : α → γ} {P : α → Prop} {xs ys : List α}
    (hfg : ∀ a b, P a → P b → f a = f b → g a = g b) (hxs : ∀ a ∈ xs, P a) (hys : ∀ b ∈ ys, P b)
    (h : xs.map f = ys.map f) : xs.map g = ys.map g := by
  induction xs generalizing ys with
  | nil =>
    obtain rfl := List.map_eq_nil_iff.mp h.symm
    rfl
  | cons a xs ih =>
    cases ys with
    | nil => cases h
    | cons b ys =>
      obtain ⟨hab, hrest⟩ := List.cons.inj h
      rw [List.map_cons, List.map_cons,
        hfg a b (hxs a List.mem_cons_self) (hys b List.mem_cons_self) hab,
        ih (fun a hm => hxs a (List.mem_cons_of_mem _ hm))
          (fun b hm => hys b (List.mem_cons_of_mem _ hm)) hrest]

/-- The text of a table tells what its rows show, line by line. -/
theorem render_inj (ht : t.Rectangular) (ht' : t'.Rectangular) (hheader : t.header = t'.header)
    (hne : t.header ≠ []) (h : t.render = t'.render) :
    (t.rows.flatMap rowCells).map (List.map trimmed) =
      (t'.rows.flatMap rowCells).map (List.map trimmed) := by
  obtain ⟨hfits, hrows⟩ := fits_widths ht
  obtain ⟨hfits', hrows'⟩ := fits_widths ht'
  have hnonempty {ws : List Nat} {row : List String} (hf : Fits ws row) (hne : row ≠ []) : ws ≠ [] := by
    rintro rfl
    cases hf
    exact hne rfl
  have hlines := lines_eq_of_render h
  have hwidths : t.widths = t'.widths :=
    rule_inj (hnonempty hfits hne) (hnonempty hfits' (hheader ▸ hne)) (List.cons.inj hlines).1
  simp only [lines, hwidths, hheader, List.append_assoc] at hlines
  have hbody := List.append_cancel_right
    (List.append_cancel_left (List.append_cancel_left (List.append_cancel_left hlines)))
  have hcells {rows : List (List String)} (hr : ∀ row ∈ rows, Fits t'.widths row) :
      ∀ cells ∈ rows.flatMap rowCells, List.Forall₂ (fun w cs => width cs ≤ w) t'.widths cells := by
    intro cells hm
    obtain ⟨row, hrow, hcells⟩ := List.mem_flatMap.mp hm
    exact (hr row hrow).of_mem_rowCells hcells
  rw [flatMap_rowLines, flatMap_rowLines] at hbody
  exact map_eq_of_map_eq (fun _ _ => rowLine_inj) (hcells (hwidths ▸ hrows)) (hcells hrows') hbody

/-! ### The order of the cells -/

theorem inOrder_rowLine (h : ws.length = cells.length) :
    InOrder (cells.map String.ofList) (rowLine ws cells) := by
  have hcells : (ws.zip cells).flatMap (fun p => [String.ofList p.2]) = cells.map String.ofList := by
    have hmap : (ws.zip cells).map (fun p => String.ofList p.2) =
        ((ws.zip cells).map Prod.snd).map String.ofList := by
      rw [List.map_map]
      rfl
    rw [← List.map_eq_flatMap, hmap, List.map_snd_zip h.ge]
  rw [← hcells, rowLine, ← List.map_uncurry_zip_eq_zipWith]
  refine ((inOrder_join _ _ ?_).prepend _).extend _
  intro p _
  exact (inOrder_self _).extend _

/-- The cells stand in the text of a table line by line. -/
theorem inOrder_render (ht : t.Rectangular) :
    InOrder ((t.rows.flatMap rowCells).flatMap (List.map String.ofList)) t.render := by
  -- Each line with the texts that are looked for in it: none in the lines of the frame.
  let frame (lines : List String) : List (List String × String) := lines.map fun line => ([], line)
  let items := frame ([rule "╭" "┬" "╮" t.widths] ++ rowLines t.widths t.header ++
      [rule "├" "┼" "┤" t.widths]) ++
    (t.rows.flatMap rowCells).map (fun cells => (cells.map String.ofList, rowLine t.widths cells)) ++
    frame [rule "╰" "┴" "╯" t.widths]
  have hitems : ∀ item ∈ items, InOrder item.1 item.2 := by
    intro item hm
    rcases List.mem_append.mp hm with hm | hm
    · rcases List.mem_append.mp hm with hm | hm
      · obtain ⟨line, _, rfl⟩ := List.mem_map.mp hm
        trivial
      · obtain ⟨cells, hcells, rfl⟩ := List.mem_map.mp hm
        obtain ⟨row, hrow, hcells⟩ := List.mem_flatMap.mp hcells
        exact inOrder_rowLine (((fits_widths ht).2 row hrow).of_mem_rowCells hcells).length_eq
    · obtain ⟨line, _, rfl⟩ := List.mem_map.mp hm
      trivial
  have hframe (lines : List String) : (frame lines).flatMap Prod.fst = [] ∧
      (frame lines).map Prod.snd = lines := by
    constructor
    · simp [frame]
    · simp [frame, Function.comp_def]
  have hlines : items.map Prod.snd = t.lines := by
    simp only [items, List.map_append, (hframe _).2, List.map_map, lines, flatMap_rowLines,
      Function.comp_def]
  have hparts : items.flatMap Prod.fst =
      (t.rows.flatMap rowCells).flatMap (List.map String.ofList) := by
    simp only [items, List.flatMap_append, (hframe _).1, List.flatMap_map, List.nil_append,
      List.append_nil]
  have hall := inOrder_join "\n" items hitems
  rwa [hlines, hparts] at hall

end Turnstile.Console.Table
