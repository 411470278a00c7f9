import LetFun.Text.Layout
import LetFun.Text.Printable
/-!
# Quoted text

A text between quotes, the way messages show a name or a path.  The quotes are
single unless the text holds a single quote and no double quote.  The backslash
and the quote in use are escaped, the three common control characters have
letters, and every other character that does not print is written by its number
in two, four or eight hexadecimal digits.
-/

namespace LetFun.Text

/-- A character inside quotes of the kind `q`. -/
def quoteChar (q c : Char) : List Char :=
  if c = q ∨ c = '\\' then ['\\', c]
  else if c = '\n' then ['\\', 'n']
  else if c = '\t' then ['\\', 't']
  else if c = '\r' then ['\\', 'r']
  else if isPrintable c then [c]
  else if c.toNat < 0x100 then '\\' :: 'x' :: hex 2 c.toNat
  else if c.toNat < 0x10000 then '\\' :: 'u' :: hex 4 c.toNat
  else '\\' :: 'U' :: hex 8 c.toNat

/-- The quote that `quoted` puts around a text. -/
def quoteFor (cs : List Char) : Char :=
  if '\'' ∈ cs ∧ '"' ∉ cs then '"' else '\''

/-- A text in quotes. -/
def quoted (s : String) : String :=
  let q := quoteFor s.toList
  String.ofList (q :: s.toList.flatMap (quoteChar q) ++ [q])

end LetFun.Text
