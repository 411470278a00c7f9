/-!
# Line ends

A text whose lines may end in a carriage return, a newline, or both in this
order is brought to newlines alone.  Newlines then cut a text into lines; the
last line needs none.

Results:
* `splitLines_append`: a line and its newline come off a text as its first line.
-/

namespace LetFun.Text

/-- The characters of a text with every line end written as one newline. -/
def unifyChars : List Char → List Char
  | [] => []
  | '\r' :: '\n' :: cs => '\n' :: unifyChars cs
  | c :: cs => (if c = '\r' then '\n' else c) :: unifyChars cs

/-- A text with every line end written as one newline. -/
def unifyNewlines (s : String) : String := String.ofList (unifyChars s.toList)

/-- The lines of a text, without their newlines. -/
def splitLines : List Char → List (List Char)
  | [] => []
  | c :: cs =>
    if c = '\n' then [] :: splitLines cs
    else
      match splitLines cs with
      | [] => [[c]]
      | line :: lines => (c :: line) :: lines

/-- The lines of a text, without their newlines. -/
def lines (s : String) : List String := (splitLines s.toList).map String.ofList

theorem splitLines_append {line : List Char} (h : '\n' ∉ line) (rest : List Char) :
    splitLines (line ++ '\n' :: rest) = line :: splitLines rest := by
  induction line with
  | nil => simp [splitLines]
  | cons c cs ih =>
    rw [List.mem_cons, not_or] at h
    simp [splitLines, Ne.symm h.1, ih h.2]

end LetFun.Text
