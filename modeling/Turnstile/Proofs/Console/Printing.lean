import Turnstile.Console.Session
import Turnstile.Proofs.Simulation.Outages

/-!
# Sessions that are run by a thread

A session ends with an outcome, the text it has printed and a scene. `Prints` says what holds of the
three, and is proved along the binds of a session; printing leaves the scene alone.
-/

namespace Turnstile

/-! ### Truth values in texts

`false` is one letter longer than `true`, wherever it stands. -/

theorem Json.length_renderEntriesAt_false (depth : Nat) (name : String)
    (before after : List (String × Json)) :
    (renderEntriesAt depth (before ++ (name, .bool false) :: after)).length =
      (renderEntriesAt depth (before ++ (name, .bool true) :: after)).length + 1 := by
  have hword : "false".length = "true".length + 1 := rfl
  induction before with
  | nil =>
    cases after <;>
      simp only [List.nil_append, renderEntriesAt, renderAt, renderLeaf, String.length_append,
        Bool.false_eq_true, if_false, if_true, hword] <;> omega
  | cons e before ih =>
    cases before <;>
      simp only [List.nil_append, List.cons_append, renderEntriesAt, String.length_append] at ih ⊢ <;>
      omega

theorem Yaml.length_renderEntries_false (depth : Nat) (name : String)
    (before after : List (String × Json)) :
    (renderEntries depth (before ++ (name, .bool false) :: after)).length =
      (renderEntries depth (before ++ (name, .bool true) :: after)).length + 1 := by
  have hword : "false".length = "true".length + 1 := rfl
  induction before with
  | nil =>
    cases after <;>
      simp only [List.nil_append, renderEntries, renderValue, leaf, String.length_append,
        Bool.false_eq_true, if_false, if_true, hword] <;> omega
  | cons e before ih =>
    cases before <;>
      simp only [List.nil_append, List.cons_append, renderEntries, String.length_append] at ih ⊢ <;>
      omega

namespace Console

open Thread

variable {Q ρ α β : Type} {h : Host Q ρ} {p : Printed} {t : Scene Q ρ}

/-! ### Texts -/

/-- The text of a value in a format. -/
def itemText (format : Format) (v : Json) : String :=
  match format with
  | .yaml => Yaml.render v
  | _ => v.renderPretty ++ "\n"

/-- The text of a table, or of its rows as a list of objects. -/
def listText (format : Format) (table : Table) (names : List String) : String :=
  match format with
  | .table => (if table.rows.isEmpty then "No results found." else table.render) ++ "\n"
  | format => itemText format (Json.ofList (fun row => .obj (names.zip (row.map .str))) table.rows)

theorem length_itemText_false (format : Format) (name : String) (before after : List (String × Json)) :
    (itemText format (.obj (before ++ (name, .bool false) :: after))).length =
      (itemText format (.obj (before ++ (name, .bool true) :: after))).length + 1 := by
  have hjson := Json.length_renderEntriesAt_false 1 name before after
  have hyaml := Yaml.length_renderEntries_false 0 name before after
  cases format <;> cases before <;>
    simp only [itemText, Json.renderPretty, Json.renderAt, Yaml.render, Yaml.renderAt,
      List.nil_append, List.cons_append, String.length_append, Nat.zero_add] at hjson hyaml ⊢ <;>
    omega

theorem itemText_ne (format : Format) (name : String) (before after : List (String × Json)) :
    itemText format (.obj (before ++ (name, .bool true) :: after)) ≠
      itemText format (.obj (before ++ (name, .bool false) :: after)) := by
  intro he
  have hlength := length_itemText_false format name before after
  rw [← he] at hlength
  omega

def Printed.addOut (p : Printed) (text : String) : Printed := { p with out := p.out ++ text }

def Printed.addErr (p : Printed) (text : String) : Printed := { p with err := p.err ++ text }

/-! ### How a session ends -/

def Prints (h : Host Q ρ) (x : Session (Thread Q ρ) α)
    (post : Except Trouble α → Printed → Scene Q ρ → Prop) (p : Printed) (t : Scene Q ρ) : Prop :=
  Yields h (x.run.run p) (fun r t' => post r.1 r.2 t') t

variable {post : Except Trouble α → Printed → Scene Q ρ → Prop}

theorem Prints.and {x : Session (Thread Q ρ) α}
    {post' : Except Trouble α → Printed → Scene Q ρ → Prop} (hx : Prints h x post p t)
    (hx' : Prints h x post' p t) : Prints h x (fun r p' t' => post r p' t' ∧ post' r p' t') p t :=
  ⟨hx, hx'⟩

theorem prints_bind {x : Session (Thread Q ρ) α} {f : α → Session (Thread Q ρ) β}
    {post : Except Trouble β → Printed → Scene Q ρ → Prop}
    (hx : Prints h x (fun
      | .ok a => Prints h (f a) post
      | .error e => post (.error e)) p t) : Prints h (x >>= f) post p t := by
  unfold Prints at hx ⊢
  rw [ExceptT.run_bind, StateT.run_bind]
  refine yields_bind (hx.mono ?_)
  rintro ⟨e | a, p'⟩ t' hp
  · exact hp
  · exact hp

theorem prints_lift {x : Thread Q ρ α} (hx : Yields h x (fun a t' => post (.ok a) p t') t) :
    Prints h (liftM x : Session (Thread Q ρ) α) post p t := yields_bind (yields_bind hx)

theorem prints_attempt {x : Attempt (Thread Q ρ) α}
    (hx : Yields h x.run (fun
      | .ok a => post (.ok a) p
      | .error f => post (.error (.fault f)) p) t) :
    Prints h (Session.attempt x) post p t := by
  refine prints_bind (prints_lift (hx.mono ?_))
  rintro (f | a) t' hp
  · exact hp
  · exact hp

/-! ### Printing -/

variable {post : Except Trouble Unit → Printed → Scene Q ρ → Prop} {text : String}

theorem prints_raw (hp : post (.ok ()) (p.addOut text) t) :
    Prints h (Session.raw text) post p t := hp

theorem prints_line (hp : post (.ok ()) (p.addOut (text ++ "\n")) t) :
    Prints h (Session.line text) post p t := by
  rw [Printed.addOut, ← String.append_assoc] at hp
  exact hp

theorem prints_warning (hp : post (.ok ()) (p.addErr ("[WARN] " ++ text ++ "\n")) t) :
    Prints h (Session.warning text) post p t := by
  rw [Printed.addErr, ← String.append_assoc] at hp
  exact hp

theorem prints_item {format : Format} {v : Json} (hp : post (.ok ()) (p.addOut (itemText format v)) t) :
    Prints h (Session.item format v) post p t := by
  cases format with
  | yaml => exact prints_raw hp
  | table => exact prints_line hp
  | json => exact prints_line hp

theorem prints_list {format : Format} {table : Table} {names : List String}
    (hp : post (.ok ()) (p.addOut (listText format table names)) t) :
    Prints h (Session.list format table names) post p t := by
  cases format with
  | table => exact prints_line hp
  | json => exact prints_item hp
  | yaml => exact prints_item hp

end Console

end Turnstile
