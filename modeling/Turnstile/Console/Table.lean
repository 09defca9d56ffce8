import Turnstile.Text.Scan
import Turnstile.Text.Width

/-!
# Tables in a terminal

A table has a frame with round corners, a line under its header, and columns as wide as their widest
cell. A cell with line breaks takes several lines.
-/

namespace Turnstile.Console

open Text

/-- A table: the header and the rows, all with one cell a column. -/
structure Table where
  header : List String
  rows : List (List String)

namespace Table

def cellLines (cell : String) : List (List Char) := splitOnChar '\n' cell.toList

def cellWidth (cell : String) : Nat := ((cellLines cell).map width).foldl max 0

def widths (t : Table) : List Nat :=
  t.rows.foldl (fun ws row => List.zipWith max ws (row.map cellWidth)) (t.header.map cellWidth)

def blanks (count : Nat) : String := String.ofList (List.replicate count ' ')

def rule (left between right : String) (ws : List Nat) : String :=
  left ++ join between (ws.map fun w => String.ofList (List.replicate (w + 2) '─')) ++ right

def rowLine (ws : List Nat) (cells : List (List Char)) : String :=
  "│ " ++
    join " │ " (List.zipWith (fun w cs => String.ofList cs ++ blanks (w - width cs)) ws cells) ++ " │"

/-- The lines of a row. -/
def rowLines (ws : List Nat) (row : List String) : List String :=
  let cells := row.map cellLines
  let height := (cells.map List.length).foldl max 1
  (List.range height).map fun i => rowLine ws (cells.map fun lines => lines.getD i [])

/-- The text of the table, without a line break at its end. -/
def render (t : Table) : String :=
  let ws := t.widths
  join "\n"
    ([rule "╭" "┬" "╮" ws] ++ rowLines ws t.header ++ [rule "├" "┼" "┤" ws] ++
      t.rows.flatMap (rowLines ws) ++ [rule "╰" "┴" "╯" ws])

end Table

end Turnstile.Console
