import LetFun.Table
import LetFun.Text.JsonString
/-!
# Tables in JSON

A table is written as an object with the number of its root and the list of its
records.  Each level is indented by two spaces and no newline follows the last
brace.
-/

namespace LetFun

def Scalar.json : Scalar → String
  | int n => toString n
  | text s => Text.jsonString s

/-- A record as an object; a line for each field. -/
def Record.json (r : Record) : String :=
  let field := fun ((key, value) : String × Scalar) =>
    "      " ++ Text.jsonString key ++ ": " ++ value.json
  "    \x7b\n" ++ ",\n".intercalate (r.fields.map field) ++ "\n    \x7d"

/-- A table as an object. -/
def Table.json (t : Table) : String :=
  "\x7b\n  \"root\": 0,\n  \"nodes\": [\n" ++ ",\n".intercalate (t.records.map Record.json) ++
    "\n  ]\n\x7d"

end LetFun
