import LetFun.Text.Layout
/-!
# Strings in JSON

A string in JSON that holds printable ASCII only.  Quotes and backslashes are
escaped, five control characters have letters, and every other character is
written by its UTF-16 units in hexadecimal.
-/

namespace LetFun.Text

/-- A UTF-16 unit by its number. -/
def jsonUnit (n : Nat) : List Char := '\\' :: 'u' :: hex 4 n

/-- A character inside a JSON string. -/
def jsonChar (c : Char) : List Char :=
  if c = '"' ∨ c = '\\' then ['\\', c]
  else if c = '\n' then ['\\', 'n']
  else if c = '\r' then ['\\', 'r']
  else if c = '\t' then ['\\', 't']
  else if c = '\x08' then ['\\', 'b']
  else if c = '\x0c' then ['\\', 'f']
  else if 0x20 ≤ c.toNat ∧ c.toNat ≤ 0x7e then [c]
  else if c.toNat < 0x10000 then jsonUnit c.toNat
  else
    let n := c.toNat - 0x10000
    jsonUnit (0xd800 + n / 0x400) ++ jsonUnit (0xdc00 + n % 0x400)

/-- A string as JSON writes it. -/
def jsonString (s : String) : String :=
  String.ofList ('"' :: s.toList.flatMap jsonChar ++ ['"'])

end LetFun.Text
