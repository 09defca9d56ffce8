import Mathlib.Data.List.Flatten
import Turnstile.Proofs.Console.Printing
import Turnstile.Proofs.Console.Table
import Turnstile.Proofs.Json.Unambiguous
import Turnstile.Proofs.Yaml.Texts

/-!
# Listings that tell what they list

A listing of running jobs shows a row for each: its id, when it was registered and how long it has
been running. In each format the texts of the rows stand in the order of the rows, and the listing
tells them: two listings of one text have the same rows, in a table up to blanks at the ends of
lines.
-/

namespace Turnstile.Console

open Text

/-- What a listing shows of a job. -/
structure Row where
  id : String
  registered : String
  age : String

/-- The row of a member of a running set. -/
def Row.of (now : Instant) (x : SetMember) : Row :=
  { id := x.member, registered := Timestamp.renderNumericOffset x.addedAt,
    age := (Instant.timeLeft x.addedAt now).clockText }

def Row.cells (r : Row) : List String := [r.id, r.registered, r.age]

def listedText (format : Format) (rows : List Row) : String :=
  listText format { header := ["ID", "Registered", "Age"], rows := rows.map Row.cells }
    ["id", "registered_at", "age"]

/-- What can be seen of a text in a format: in a table, blanks at the ends of lines cannot. -/
def seen (format : Format) (text : String) : List (List Char) :=
  match format with
  | .table => (Table.cellLines text).map Table.trimmed
  | _ => [text.toList]

def Row.seen (format : Format) (r : Row) : List (List (List Char)) :=
  r.cells.map (Console.seen format)

/-- What is written for a row, in the order in which it is written. An id with line breaks goes on
below the rest of its row. -/
def Row.texts (format : Format) (r : Row) : List String :=
  match format with
  | .table =>
    let lines := (Table.cellLines r.id).map String.ofList
    lines.take 1 ++ [r.registered, r.age] ++ lines.drop 1
  | .json => r.cells.map Json.quote
  | .yaml => r.cells.map (Yaml.textValue 2)

/-! ### Rows of texts that stand one after the other -/

/-- What is written for a text, around the three texts of a row, and between and after the rows. -/
structure Layout where
  code : String → String
  front : String
  second : String
  third : String
  back : String
  between : String
  close : String

namespace Layout

variable (l : Layout)

def row (r : Row) : String :=
  l.front ++ l.code r.id ++ (l.second ++ l.code r.registered) ++ (l.third ++ l.code r.age) ++ l.back

def text (rows : List Row) : String := join l.between (rows.map l.row) ++ l.close

/-- A layout of which each text tells what was written, as long as it is followed by such a text. -/
structure Sound (follows : List Char → Prop) : Prop where
  code_inj : ∀ {a b r s}, follows r → follows s →
    (l.code a).toList ++ r = (l.code b).toList ++ s → a = b ∧ r = s
  second : ∀ r, follows (l.second.toList ++ r)
  third : ∀ r, follows (l.third.toList ++ r)
  between : ∀ r, follows (l.back.toList ++ (l.between.toList ++ (l.front.toList ++ r)))
  close : follows (l.back.toList ++ l.close.toList)
  ends : ∀ r, l.close.toList ≠ l.between.toList ++ (l.front.toList ++ r)

variable {l} {follows : List Char → Prop} {x y : List Char} {r r' : Row} {rows rows' : List Row}

theorem toList_row (r : Row) (x : List Char) : (l.row r).toList ++ x =
    l.front.toList ++ ((l.code r.id).toList ++ (l.second.toList ++ ((l.code r.registered).toList ++
      (l.third.toList ++ ((l.code r.age).toList ++ (l.back.toList ++ x)))))) := by
  simp only [row, String.toList_append, List.append_assoc]

theorem Sound.row_append_inj (hl : l.Sound follows) (hx : follows (l.back.toList ++ x))
    (hy : follows (l.back.toList ++ y)) (h : (l.row r).toList ++ x = (l.row r').toList ++ y) :
    r = r' ∧ x = y := by
  rw [toList_row, toList_row] at h
  obtain ⟨hid, h⟩ := hl.code_inj (hl.second _) (hl.second _) (List.append_cancel_left h)
  obtain ⟨hregistered, h⟩ := hl.code_inj (hl.third _) (hl.third _) (List.append_cancel_left h)
  obtain ⟨hage, h⟩ := hl.code_inj hx hy (List.append_cancel_left h)
  refine ⟨?_, List.append_cancel_left h⟩
  cases r
  cases r'
  cases hid
  cases hregistered
  cases hage
  rfl

/-- What comes after a row when the rows `rows` are still to come. -/
def further (l : Layout) : List Row → List Char
  | [] => l.close.toList
  | r :: rows => l.between.toList ++ (l.text (r :: rows)).toList

theorem toList_text_cons (r : Row) (rows : List Row) :
    (l.text (r :: rows)).toList = (l.row r).toList ++ l.further rows := by
  cases rows with
  | nil => rw [text, List.map_singleton, join_singleton, String.toList_append, further]
  | cons r' rows =>
    simp only [text, List.map_cons, join_cons_cons, String.toList_append, further, List.append_assoc]

theorem further_cons (r : Row) (rows : List Row) :
    ∃ x, l.further (r :: rows) = l.between.toList ++ (l.front.toList ++ x) := by
  rw [further, toList_text_cons, toList_row]
  exact ⟨_, rfl⟩

theorem Sound.follows_further (hl : l.Sound follows) (rows : List Row) :
    follows (l.back.toList ++ l.further rows) := by
  cases rows with
  | nil => exact hl.close
  | cons r rows =>
    obtain ⟨x, hx⟩ := further_cons (l := l) r rows
    rw [hx]
    exact hl.between x

/-- Rows are told by their text. -/
theorem Sound.text_inj (hl : l.Sound follows) (hne : rows ≠ []) (hne' : rows' ≠ [])
    (h : l.text rows = l.text rows') : rows = rows' := by
  have hl' := congrArg String.toList h
  clear h
  induction rows generalizing rows' with
  | nil => exact absurd rfl hne
  | cons r rows ih =>
    cases rows' with
    | nil => exact absurd rfl hne'
    | cons r' rows' =>
      rw [toList_text_cons, toList_text_cons] at hl'
      obtain ⟨rfl, hrest⟩ :=
        hl.row_append_inj (hl.follows_further rows) (hl.follows_further rows') hl'
      cases rows with
      | nil =>
        cases rows' with
        | nil => rfl
        | cons r' rows' =>
          obtain ⟨x, hx⟩ := further_cons (l := l) r' rows'
          exact absurd (hrest.trans hx) (hl.ends x)
      | cons r'' rows =>
        cases rows' with
        | nil =>
          obtain ⟨x, hx⟩ := further_cons (l := l) r'' rows
          exact absurd (hrest.symm.trans hx) (hl.ends x)
        | cons r' rows' =>
          rw [ih (List.cons_ne_nil _ _) (List.cons_ne_nil _ _) (List.append_cancel_left hrest)]

theorem inOrder_row (l : Layout) (r : Row) : InOrder (r.cells.map l.code) (l.row r) :=
  ((((inOrder_self _).prepend l.front).append ((inOrder_self _).prepend l.second)).append
    ((inOrder_self _).prepend l.third)).extend l.back

theorem inOrder_text (l : Layout) (rows : List Row) :
    InOrder (rows.flatMap fun r => r.cells.map l.code) (l.text rows) :=
  (inOrder_join l.between rows fun r _ => l.inOrder_row r).extend l.close

end Layout

/-! ### Rows as objects -/

def Row.json (r : Row) : Json :=
  .obj [("id", .str r.id), ("registered_at", .str r.registered), ("age", .str r.age)]

theorem listedText_eq_item {format : Format} (hf : format ≠ .table) (rows : List Row) :
    listedText format rows = itemText format (.arr (rows.map Row.json)) := by
  have hitems : (rows.map Row.cells).map (fun row =>
      Json.obj (["id", "registered_at", "age"].zip (row.map .str))) = rows.map Row.json := by
    rw [List.map_map]
    rfl
  cases format with
  | table => exact absurd rfl hf
  | json => exact congrArg (fun items => itemText .json (.arr items)) hitems
  | yaml => exact congrArg (fun items => itemText .yaml (.arr items)) hitems

def jsonLayout : Layout where
  code := Json.quote
  front := Json.newLine 1 ++ "\x7b" ++ Json.newLine 2 ++ Json.quote "id" ++ ": "
  second := "," ++ Json.newLine 2 ++ Json.quote "registered_at" ++ ": "
  third := "," ++ Json.newLine 2 ++ Json.quote "age" ++ ": "
  back := Json.newLine 1 ++ "\x7d"
  between := ","
  close := Json.newLine 0 ++ "]" ++ "\n"

theorem renderItemsAt_eq (depth : Nat) (items : List Json) : Json.renderItemsAt depth items =
    join "," (items.map fun v => Json.newLine depth ++ v.renderAt depth) := by
  induction items with
  | nil => rfl
  | cons v rest ih =>
    cases rest with
    | nil => rw [List.map_singleton, join_singleton, Json.renderItemsAt]
    | cons w rest =>
      rw [Json.renderItemsAt, ih]
      simp only [List.map_cons, join_cons_cons]

theorem jsonLayout_row (r : Row) : jsonLayout.row r = Json.newLine 1 ++ r.json.renderAt 1 := by
  simp only [Layout.row, jsonLayout, Row.json, Json.renderAt, Json.renderEntriesAt, Json.renderLeaf,
    String.append_assoc]

theorem listedText_json {rows : List Row} (hne : rows ≠ []) :
    listedText .json rows = "[" ++ jsonLayout.text rows := by
  obtain ⟨r, rest, rfl⟩ := List.exists_cons_of_ne_nil hne
  have hrows : ((r :: rest).map Row.json).map (fun v => Json.newLine 1 ++ v.renderAt 1) =
      (r :: rest).map jsonLayout.row := by
    rw [List.map_map]
    exact List.map_congr_left fun r _ => (jsonLayout_row r).symm
  have hitem (v : Json) : itemText .json v = v.renderAt 0 ++ "\n" := rfl
  rw [listedText_eq_item (by decide), hitem, List.map_cons, Json.renderAt, ← List.map_cons,
    renderItemsAt_eq, hrows]
  simp only [Layout.text, jsonLayout, String.append_assoc]

theorem sound_jsonLayout : jsonLayout.Sound fun _ => True where
  code_inj _ _ h := Json.quote_append_inj h
  second _ := trivial
  third _ := trivial
  between _ := trivial
  close := trivial
  ends r h := by
    have hhead := congrArg List.head? h
    cases hhead

def yamlLayout : Layout where
  code := Yaml.textValue 2
  front := "- " ++ Yaml.inlineText "id" ++ ": "
  second := "\n" ++ Yaml.indentation 1 ++ Yaml.inlineText "registered_at" ++ ": "
  third := "\n" ++ Yaml.indentation 1 ++ Yaml.inlineText "age" ++ ": "
  back := ""
  between := "\n"
  close := "\n"

theorem renderItems_eq (depth : Nat) (items : List Json) : Yaml.renderItems depth items =
    join ("\n" ++ Yaml.indentation depth) (items.map fun v => "- " ++ Yaml.renderAt (depth + 1) v) := by
  induction items with
  | nil => rfl
  | cons v rest ih =>
    cases rest with
    | nil => rw [List.map_singleton, join_singleton, Yaml.renderItems]
    | cons w rest =>
      rw [Yaml.renderItems, ih]
      simp only [List.map_cons, join_cons_cons, String.append_assoc]

theorem yamlLayout_row (r : Row) : yamlLayout.row r = "- " ++ Yaml.renderAt 1 r.json := by
  have hcolon (text : String) : ":" ++ (" " ++ text) = ": " ++ text := by
    rw [← String.append_assoc]
    rfl
  simp only [Layout.row, yamlLayout, Row.json, Yaml.renderAt, Yaml.renderEntries, Yaml.renderValue,
    Yaml.leaf, String.append_assoc, hcolon, String.append_empty]

theorem listedText_yaml {rows : List Row} (hne : rows ≠ []) :
    listedText .yaml rows = yamlLayout.text rows := by
  obtain ⟨r, rest, rfl⟩ := List.exists_cons_of_ne_nil hne
  have hrows : ((r :: rest).map Row.json).map (fun v => "- " ++ Yaml.renderAt (0 + 1) v) =
      (r :: rest).map yamlLayout.row := by
    rw [List.map_map]
    exact List.map_congr_left fun r _ => (yamlLayout_row r).symm
  rw [listedText_eq_item (by decide), itemText, Yaml.render, List.map_cons, Yaml.renderAt,
    ← List.map_cons, renderItems_eq, hrows]
  rfl

theorem outdented_entry (name : String) (r : List Char) :
    Yaml.Outdented 2 (("\n" ++ Yaml.indentation 1 ++ Yaml.inlineText name ++ ": ").toList ++ r) := by
  have hinner : (Yaml.indentation 1).toList = [' ', ' '] := rfl
  have houter : (Yaml.indentation 2).toList = [' ', ' ', ' ', ' '] := rfl
  refine ⟨' ' :: ' ' :: ((Yaml.inlineText name).toList ++ ':' :: ' ' :: r), ?_, by simp, ?_⟩
  · simp only [String.toList_append, hinner, List.append_assoc]
    rfl
  · rw [houter, List.cons_prefix_cons, List.cons_prefix_cons]
    rintro ⟨_, _, hdeep⟩
    -- The name of an entry does not begin with a blank.
    cases hname : (Yaml.inlineText name).toList with
    | nil =>
      rw [hname] at hdeep
      exact absurd (List.cons_prefix_cons.mp hdeep).1 (by decide)
    | cons c rest =>
      rw [hname] at hdeep
      have hhead := (Yaml.inline_inlineText name).head (congrArg List.head? hname)
      exact hhead.2 (List.cons_prefix_cons.mp hdeep).1.symm

theorem sound_yamlLayout : yamlLayout.Sound (Yaml.Outdented 2) where
  code_inj hr hs h := Yaml.textValue_append_inj hr hs h
  second r := outdented_entry _ r
  third r := outdented_entry _ r
  between r := by
    have houter : (Yaml.indentation 2).toList = [' ', ' ', ' ', ' '] := rfl
    have hdash : "- ".toList = ['-', ' '] := rfl
    refine ⟨yamlLayout.front.toList ++ r, rfl, ?_, ?_⟩
    · simp [yamlLayout, hdash]
    · simp [yamlLayout, hdash, houter]
  close := ⟨[], rfl, by nofun, by decide⟩
  ends r h := by
    have hlength := congrArg List.length h
    simp [yamlLayout] at hlength

/-! ### Rows of a table -/

def tableOf (rows : List Row) : Table :=
  { header := ["ID", "Registered", "Age"], rows := rows.map Row.cells }

theorem rectangular_tableOf (rows : List Row) : (tableOf rows).Rectangular := by
  intro row hm
  obtain ⟨r, _, rfl⟩ := List.mem_map.mp hm
  rfl

/-- A row whose time and age stand on one line each, of which the time is not blank. -/
structure Row.Plain (r : Row) : Prop where
  registered : '\n' ∉ r.registered.toList
  visible : Table.trimmed r.registered.toList ≠ []
  age : '\n' ∉ r.age.toList

variable {r : Row} {rows rows' : List Row}

/-- The first line of a row has all of its cells, and the others go on with the id. -/
theorem Row.Plain.rowCells (hr : r.Plain) : ∃ first further,
    Table.cellLines r.id = first :: further ∧ Table.rowCells r.cells =
      [first, r.registered.toList, r.age.toList] :: further.map fun line => [line, [], []] := by
  have hregistered : Table.cellLines r.registered = [r.registered.toList] :=
    splitOnChar_of_not_mem hr.registered
  have hage : Table.cellLines r.age = [r.age.toList] := splitOnChar_of_not_mem hr.age
  obtain ⟨first, further, hid⟩ : ∃ first further, Table.cellLines r.id = first :: further :=
    ⟨_, _, rfl⟩
  have hheight : Table.height r.cells = further.length + 1 := by
    simp only [Table.height, Row.cells, List.map_cons, List.map_nil, List.foldl_cons, List.foldl_nil,
      hid, hregistered, hage, List.length_cons, List.length_nil]
    omega
  have hfirst : Table.lineCells r.cells 0 = [first, r.registered.toList, r.age.toList] := by
    simp only [Table.lineCells, Row.cells, List.map_cons, List.map_nil, hid, hregistered, hage,
      List.getD_cons_zero]
  have hnext (i : Nat) : Table.lineCells r.cells (i + 1) = [further.getD i [], [], []] := by
    simp only [Table.lineCells, Row.cells, List.map_cons, List.map_nil, hid, hregistered, hage,
      List.getD_cons_succ, List.getD_nil]
  have hfurther : (List.range further.length).map (fun i => [further.getD i [], [], []]) =
      further.map fun line => [line, [], []] := by
    refine List.ext_getElem (by simp) fun i hi hi' => ?_
    have hlt : i < further.length := by simpa using hi'
    simp [hlt]
  refine ⟨first, further, hid, ?_⟩
  rw [Table.rowCells, hheight, List.range_succ_eq_map, List.map_cons, List.map_map, hfirst, ← hfurther]
  exact congrArg _ (List.map_congr_left fun i _ => hnext i)

/-- Groups are told where only the first of each group has a mark. -/
theorem groups_inj {α β : Type} {head : α → β} {tail : α → List β} {p : β → Bool} {xs ys : List α}
    (hxs : ∀ a ∈ xs, p (head a) = false) (hys : ∀ a ∈ ys, p (head a) = false)
    (htail : ∀ a, ∀ b ∈ tail a, p b = true)
    (h : xs.flatMap (fun a => head a :: tail a) = ys.flatMap fun a => head a :: tail a) :
    xs.map (fun a => (head a, tail a)) = ys.map fun a => (head a, tail a) := by
  have hends {zs : List α} (hzs : ∀ a ∈ zs, p (head a) = false) :
      ∀ b, (zs.flatMap fun a => head a :: tail a).head? = some b → p b = false := by
    intro b hb
    cases zs with
    | nil => cases hb
    | cons a zs =>
      obtain rfl := Option.some.inj hb
      exact hzs a List.mem_cons_self
  induction xs generalizing ys with
  | nil =>
    cases ys with
    | nil => rfl
    | cons b ys => cases h
  | cons a xs ih =>
    cases ys with
    | nil => cases h
    | cons b ys =>
      have hxs' : ∀ a ∈ xs, p (head a) = false := fun a hm => hxs a (List.mem_cons_of_mem _ hm)
      have hys' : ∀ a ∈ ys, p (head a) = false := fun a hm => hys a (List.mem_cons_of_mem _ hm)
      rw [List.flatMap_cons, List.flatMap_cons, List.cons_append, List.cons_append] at h
      obtain ⟨hhead, hrest⟩ := List.cons.inj h
      have hspan := congrArg (List.span p) hrest
      rw [span_append (htail a) (hends hxs'), span_append (htail b) (hends hys')] at hspan
      obtain ⟨htails, hmore⟩ := Prod.mk.inj hspan
      rw [List.map_cons, List.map_cons, hhead, htails, ih hxs' hys' hmore]

/-- The first line of a row as it is seen, and the lines below it. -/
def Row.top (r : Row) : List (List Char) :=
  [ Table.trimmed ((Table.cellLines r.id).headD []), Table.trimmed r.registered.toList,
    Table.trimmed r.age.toList ]

def Row.below (r : Row) : List (List (List Char)) :=
  (Table.cellLines r.id).tail.map fun line => [Table.trimmed line, [], []]

theorem Row.Plain.seen_eq (hr : r.Plain) : r.seen .table =
    [ r.top.headD [] :: r.below.map (List.headD · []), [r.top.getD 1 []], [r.top.getD 2 []] ] := by
  obtain ⟨first, further, hid, _⟩ := hr.rowCells
  have hregistered : Table.cellLines r.registered = [r.registered.toList] :=
    splitOnChar_of_not_mem hr.registered
  have hage : Table.cellLines r.age = [r.age.toList] := splitOnChar_of_not_mem hr.age
  simp [Row.seen, Console.seen, Row.cells, Row.top, Row.below, hid, hregistered, hage]

theorem Row.Plain.trimmed_rowCells (hr : r.Plain) :
    (Table.rowCells r.cells).map (List.map Table.trimmed) = r.top :: r.below := by
  obtain ⟨first, further, hid, hcells⟩ := hr.rowCells
  have hnone : Table.trimmed [] = [] := rfl
  simp [hcells, Row.top, Row.below, hid, hnone]

theorem Row.Plain.seen_inj (hrows : ∀ r ∈ rows, r.Plain) (hrows' : ∀ r ∈ rows', r.Plain)
    (h : (rows.flatMap fun r => Table.rowCells r.cells).map (List.map Table.trimmed) =
      (rows'.flatMap fun r => Table.rowCells r.cells).map (List.map Table.trimmed)) :
    rows.map (Row.seen .table) = rows'.map (Row.seen .table) := by
  have hgroups {rows : List Row} (hrows : ∀ r ∈ rows, r.Plain) :
      (rows.flatMap fun r => Table.rowCells r.cells).map (List.map Table.trimmed) =
        rows.flatMap fun r => r.top :: r.below := by
    rw [List.map_flatMap]
    exact List.flatMap_congr fun r hm => (hrows r hm).trimmed_rowCells
  have hseen {rows : List Row} (hrows : ∀ r ∈ rows, r.Plain) : rows.map (Row.seen .table) =
      (rows.map fun r => (r.top, r.below)).map fun p =>
        [p.1.headD [] :: p.2.map (List.headD · []), [p.1.getD 1 []], [p.1.getD 2 []]] := by
    rw [List.map_map]
    exact List.map_congr_left fun r hm => (hrows r hm).seen_eq
  -- Only the first line of a row has a time.
  have htop {rows : List Row} (hrows : ∀ r ∈ rows, r.Plain) :
      ∀ r ∈ rows, (r.top.getD 1 []).isEmpty = false := fun r hm =>
    List.isEmpty_eq_false_iff.mpr (hrows r hm).visible
  have hbelow (r : Row) : ∀ line ∈ r.below, (line.getD 1 []).isEmpty = true := by
    intro line hm
    obtain ⟨_, _, rfl⟩ := List.mem_map.mp hm
    rfl
  rw [hgroups hrows, hgroups hrows'] at h
  rw [hseen hrows, hseen hrows',
    groups_inj (p := fun line => (line.getD 1 []).isEmpty) (htop hrows) (htop hrows') hbelow h]

theorem listedText_table (hne : rows ≠ []) :
    listedText .table rows = (tableOf rows).render ++ "\n" := by
  have hsome : (tableOf rows).rows.isEmpty ≠ true := by
    rwa [Ne, List.isEmpty_iff, tableOf, List.map_eq_nil_iff]
  exact congrArg (· ++ "\n") (if_neg hsome)

theorem Row.Plain.texts_sublist (hr : r.Plain) :
    List.Sublist (r.texts .table) ((Table.rowCells r.cells).flatMap (List.map String.ofList)) := by
  obtain ⟨first, further, hid, hcells⟩ := hr.rowCells
  have hrest : List.Sublist (further.map String.ofList)
      ((further.map fun line => [line, [], []]).flatMap (List.map String.ofList)) := by
    rw [List.flatMap_map, List.map_eq_flatMap]
    apply List.Sublist.flatMap_right
    intro line _
    exact (List.nil_sublist _).cons_cons _
  rw [hcells, List.flatMap_cons]
  simp only [Row.texts, hid, List.map_cons, List.take_succ_cons, List.take_zero, List.drop_succ_cons,
    List.drop_zero, List.map_nil, String.ofList_toList]
  exact (List.Sublist.refl _).append hrest

/-! ### Listings -/

theorem listedText_ne_nil {format : Format} (hne : rows ≠ []) :
    listedText format rows ≠ listedText format [] := by
  intro h
  have hl := congrArg String.toList h
  obtain ⟨r, rest, rfl⟩ := List.exists_cons_of_ne_nil hne
  cases format with
  | table =>
    have hframe := Table.head?_render (tableOf (r :: rest))
    rw [listedText_table hne, String.toList_append] at hl
    have hhead := congrArg List.head? hl
    rw [List.head?_append, hframe] at hhead
    cases hhead
  | json =>
    have hfront : jsonLayout.front.toList.head? = some '\n' := by
      simp only [jsonLayout, Json.newLine, String.toList_append]
      rfl
    obtain ⟨more, hmore⟩ := List.head?_eq_some_iff.mp hfront
    rw [listedText_json hne, String.toList_append, Layout.toList_text_cons, Layout.toList_row,
      hmore] at hl
    cases congrArg (fun cs => (cs.drop 1).head?) hl
  | yaml =>
    have hfront : yamlLayout.front.toList.head? = some '-' := by
      simp only [yamlLayout, String.toList_append]
      rfl
    obtain ⟨more, hmore⟩ := List.head?_eq_some_iff.mp hfront
    rw [listedText_yaml hne, Layout.toList_text_cons, Layout.toList_row, hmore] at hl
    cases congrArg List.head? hl

/-- A listing tells what is seen of its rows. -/
theorem listedText_inj {format : Format} (hrows : ∀ r ∈ rows, r.Plain) (hrows' : ∀ r ∈ rows', r.Plain)
    (h : listedText format rows = listedText format rows') :
    rows.map (Row.seen format) = rows'.map (Row.seen format) := by
  by_cases hne : rows = []
  · by_cases hne' : rows' = []
    · rw [hne, hne']
    · rw [hne] at h
      exact absurd h.symm (listedText_ne_nil hne')
  · by_cases hne' : rows' = []
    · rw [hne'] at h
      exact absurd h (listedText_ne_nil hne)
    · cases format with
      | table =>
        rw [listedText_table hne, listedText_table hne'] at h
        have hcells := Table.render_inj (rectangular_tableOf rows) (rectangular_tableOf rows') rfl
          (List.cons_ne_nil _ _) ((String.append_left_inj _).mp h)
        refine Row.Plain.seen_inj hrows hrows' ?_
        rwa [tableOf, tableOf, List.flatMap_map, List.flatMap_map] at hcells
      | json =>
        rw [listedText_json hne, listedText_json hne'] at h
        rw [sound_jsonLayout.text_inj hne hne' ((String.append_right_inj _).mp h)]
      | yaml =>
        rw [listedText_yaml hne, listedText_yaml hne'] at h
        rw [sound_yamlLayout.text_inj hne hne' h]

/-- What is written for the rows stands in a listing in their order. -/
theorem inOrder_listedText (format : Format) (hrows : ∀ r ∈ rows, r.Plain) :
    InOrder (rows.flatMap (Row.texts format)) (listedText format rows) := by
  by_cases hne : rows = []
  · rw [hne]
    trivial
  · cases format with
    | table =>
      have hall := Table.inOrder_render (rectangular_tableOf rows)
      rw [listedText_table hne]
      refine (hall.sublist ?_).extend _
      rw [tableOf, List.flatMap_map, List.flatMap_assoc]
      exact List.Sublist.flatMap_right _ fun r hm => (hrows r hm).texts_sublist
    | json =>
      rw [listedText_json hne]
      exact (jsonLayout.inOrder_text rows).prepend _
    | yaml =>
      rw [listedText_yaml hne]
      exact yamlLayout.inOrder_text rows

/-! ### Rows of members -/

theorem not_mem_padZeros (width n : Nat) : '\n' ∉ (padZeros width n).toList :=
  fun hm => absurd (isDigit_of_mem_padZeros hm) (by decide)

theorem not_mem_renderNumericOffset (t : Instant) :
    '\n' ∉ (Timestamp.renderNumericOffset t).toList := by
  have hyear (y : Int) : '\n' ∉ (Timestamp.yearText y).toList := by
    unfold Timestamp.yearText
    split
    · exact not_mem_padZeros _ _
    · rw [String.toList_append, List.mem_append, not_or]
      refine ⟨?_, not_mem_padZeros _ _⟩
      split <;> decide
  have hfraction (nano : Nat) : '\n' ∉ (Timestamp.fractionText nano).toList := by
    unfold Timestamp.fractionText
    split
    · decide
    · split
      · simp [not_mem_padZeros]
      · split <;> simp [not_mem_padZeros]
  simp [Timestamp.renderNumericOffset, Timestamp.renderWith, not_mem_padZeros, hyear, hfraction]

theorem not_mem_clockText (d : Duration) : '\n' ∉ d.clockText.toList := by
  have hdigits (n : Nat) : '\n' ∉ Nat.toDigits 10 n := fun hm =>
    absurd (isDigit_of_mem_toDigits hm) (by decide)
  have hword (text : String) : toString text = text := rfl
  dsimp only [Duration.clockText]
  split
  · split <;> simp [hdigits, hword]
  · simp [hdigits, hword]

theorem Row.plain_of (now : Instant) (x : SetMember) : (Row.of now x).Plain where
  registered := not_mem_renderNumericOffset _
  visible := by
    have hmark : 'T' ∈ (Timestamp.renderNumericOffset x.addedAt).toList := by
      simp [Timestamp.renderNumericOffset, Timestamp.renderWith]
    intro hnone
    have hblank := List.rdropWhile_eq_nil_iff.mp hnone 'T' hmark
    cases hblank
  age := not_mem_clockText _

end Turnstile.Console
