/-!
# Blank characters

The characters that Unicode counts as white space by their bidirectional class
or as space separators, the four information separators among them.  Trimming
takes them off both ends of a text.
-/

namespace LetFun.Text

/-- The blank characters, as first and last code point of each run, in order. -/
def blanks : List (Nat × Nat) :=
  [(0x09, 0x0d), (0x1c, 0x20), (0x85, 0x85), (0xa0, 0xa0), (0x1680, 0x1680), (0x2000, 0x200a),
    (0x2028, 0x2029), (0x202f, 0x202f), (0x205f, 0x205f), (0x3000, 0x3000)]

def isBlank (c : Char) : Bool := blanks.any fun run => run.1 ≤ c.toNat && c.toNat ≤ run.2

/-- A text without the blanks at its ends. -/
def trim (s : String) : String :=
  String.ofList (((s.toList.dropWhile isBlank).reverse.dropWhile isBlank).reverse)

end LetFun.Text
