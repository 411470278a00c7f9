/-!
# Widths

Texts and numbers brought to a width.
-/

namespace LetFun.Text

/-- Pads a text with spaces on its left to `width` characters; a longer text stays as it is. -/
def alignRight (width : Nat) (s : String) : String :=
  String.ofList (List.replicate (width - s.length) ' ') ++ s

/-- The lower-case hexadecimal digits of `n`, padded with zeros to `width`. -/
def hex (width n : Nat) : List Char :=
  let digits := Nat.toDigits 16 n
  List.replicate (width - digits.length) '0' ++ digits

end LetFun.Text
