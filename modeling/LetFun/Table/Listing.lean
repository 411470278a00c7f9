import LetFun.Table
import LetFun.Text.Layout
/-!
# Listings

A listing shows a table with one line a record: its number in four columns, its
form, and what else it says.
-/

namespace LetFun

/-- A value as it stands, with nothing around it. -/
def Scalar.plain : Scalar → String
  | int n => toString n
  | text s => s

/-- The line of a record. -/
def Record.line (r : Record) : String :=
  "  " ++ Text.alignRight 4 (toString r.id) ++ ": " ++ r.label ++ " " ++
    ", ".intercalate (r.details.map fun (key, value) => key ++ "=" ++ value.plain)

/-- The lines of a table, with newlines between them. -/
def Table.listing (t : Table) : String := "\n".intercalate (t.records.map Record.line)

/-- The listing of a tree, which shows no positions. -/
def Expr.listing (e : Expr) : String := (Table.ofExpr false e).listing

end LetFun
