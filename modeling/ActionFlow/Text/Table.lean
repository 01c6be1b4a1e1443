import ActionFlow.Text.Hex

/-!
# Tables

A table has a row of headings and rows of cells, one line each. A column is as wide as its widest
cell, with a blank at either side.
-/

namespace ActionFlow.Text

/-- A table. All rows have as many cells as there are headings. -/
structure Table where
  headings : List String
  rows : List (List String)
deriving DecidableEq, Repr

namespace Table

/-- The widths of the columns. -/
def widths (t : Table) : List Nat :=
  t.rows.foldl (fun ws row => List.zipWith max ws (row.map String.length))
    (t.headings.map String.length)

/-- A line between rows, from its first sign, its filling, its crossings and its last sign. -/
def rule (first : String) (filling : Char) (crossing last : String) (widths : List Nat) : String :=
  first ++ crossing.intercalate (widths.map fun w => String.ofList (List.replicate (w + 2) filling))
    ++ last

/-- The line of a row. -/
def line (widths : List Nat) (row : List String) : String :=
  "│" ++ "┆".intercalate (List.zipWith (fun w cell => " " ++ padRight w cell ++ " ") widths row)
    ++ "│"

/-- The lines of a table. -/
def render (t : Table) : String :=
  let ws := t.widths
  let body := (t.rows.map (line ws)).intersperse (rule "├" '╌' "┼" "┤" ws)
  "\n".intercalate
    ([rule "┌" '─' "┬" "┐" ws, line ws t.headings, rule "╞" '═' "╪" "╡" ws] ++ body
      ++ [rule "└" '─' "┴" "┘" ws])

end Table

end ActionFlow.Text
