import TableSpec.Catalog
import TableSpec.Text.Width

/-!
# `TableSpec.Listing` — tables and columns as boxes of text

A listing is a box with a header line. Columns are as wide as their widest cell; a cell with several
lines makes its row higher.

## Contents
- `Listing.box`: the box around rows.
- `Listing.ofTables`, `Listing.ofColumns`: the listings of tables and of the columns of a schema.
-/

namespace TableSpec
namespace Listing

/-! ## Boxes -/

/-- A line of text, as characters. -/
abbrev Line := List Char

/-- Split a text at its line ends. -/
def splitLines : List Char → List Line
  | [] => [[]]
  | c :: cs =>
    if c = '\n' then [] :: splitLines cs
    else match splitLines cs with
      | line :: rest => (c :: line) :: rest
      | [] => [[c]]

/-- The columns that the widest of several lines takes. -/
def widest (lines : List Line) : Nat := (lines.map Width.textColumns).foldl max 0

/-- The widths of the columns of a box, each that of the widest cell. -/
def columnWidths (rows : List (List (List Line))) : List Nat :=
  rows.foldl (fun widths row =>
    let own := row.map widest
    if widths.isEmpty then own else List.zipWith max widths own) []

/-- A line filled up to a width. -/
def pad (width : Nat) (line : Line) : Line :=
  line ++ List.replicate (width - Width.textColumns line) ' '

/-- A border, with its ends and what stands between two columns. -/
def border (left middle right : Char) (widths : List Nat) : Line :=
  left :: (List.intercalate [middle] (widths.map (fun w => List.replicate (w + 2) '─')) ++ [right])

/-- One line of a row. -/
def rowLine (widths : List Nat) (cells : List Line) : Line :=
  let padded := List.zipWith (fun w cell => ' ' :: (pad w cell ++ [' '])) widths cells
  '│' :: (List.intercalate ['│'] padded ++ ['│'])

/-- The lines of a row, which is as high as its highest cell. -/
def rowLines (widths : List Nat) (cells : List (List Line)) : List Line :=
  let height := (cells.map List.length).foldl max 0
  (List.range height).map (fun i => rowLine widths (cells.map (fun cell => (cell[i]?).getD [])))

/-- The box around a header and rows. -/
def box (header : List String) (rows : List (List String)) : String :=
  let cells := (header :: rows).map (fun row => row.map (fun cell => splitLines cell.toList))
  let widths := columnWidths cells
  let lines := match cells with
    | [] => []
    | head :: rest =>
      border '╭' '┬' '╮' widths :: rowLines widths head ++
        border '├' '┼' '┤' widths :: rest.flatMap (rowLines widths) ++ [border '╰' '┴' '╯' widths]
  String.ofList (List.intercalate ['\n'] lines)

/-! ## Listings -/

/-- The beginning of a text that is longer than `most` characters, with a mark that it goes on. -/
def shorten (most : Nat) (text : String) : String :=
  let cs := text.toList
  if cs.length ≤ most then text else String.ofList (cs.take (most - 1) ++ ['…'])

/-- The row of a table. -/
def tableRow (t : OwnedTable) : List String :=
  [t.owner.key, t.table.name, toString t.table.columnCount,
   ", ".intercalate t.table.extendedSchemas.keys, shorten 60 t.table.description]

/-- The listing of tables; without tables there is none. -/
def ofTables (tables : List OwnedTable) : String :=
  if tables.isEmpty then ""
  else box ["Namespace", "Table", "Columns", "Extended", "Description"] (tables.map tableRow)

/-- The row of a column. -/
def columnRow (c : Column) : List String :=
  [toString c.index, c.name, c.typeName,
   " ".intercalate (c.options.entries.map (fun e => e.1 ++ "=" ++ e.2.display))]

/-- The listing of columns; without columns there is none. -/
def ofColumns (columns : List Column) : String :=
  if columns.isEmpty then "" else box ["#", "Column", "Type", "Options"] (columns.map columnRow)

end Listing
end TableSpec
