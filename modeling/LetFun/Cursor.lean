import LetFun.Pos
/-!
# The cursor in a text

A cursor cuts its text into three parts: what lies before the current token,
the characters taken into the token so far, and the rest.  The two parts behind
the cursor are kept nearest character first, so that a step moves one character
from one list to another and the text itself is never lost.

Results:
* `text_mark`, `text_advanceWhile`, `text_advance`: no operation changes the text.
* `rest_advance_length`: a step over a character makes the rest one shorter.
-/

namespace LetFun

/-- A text with a current token in it, and the position of the next character. -/
structure Cursor where
  /-- The characters before the current token, nearest first. -/
  before : List Char
  /-- The characters of the current token so far, nearest first. -/
  taken : List Char
  /-- The characters not yet read. -/
  rest : List Char
  /-- The position of the first character of `rest`. -/
  pos : Pos
deriving DecidableEq, Repr

namespace Cursor

/-- The cursor at the start of a text. -/
def ofText (s : String) : Cursor := ⟨[], [], s.toList, Pos.origin⟩

/-- The whole text. -/
def text (c : Cursor) : List Char := c.before.reverse ++ c.taken.reverse ++ c.rest

/-- Where the current token starts, in characters from the start of the text. -/
def start (c : Cursor) : Nat := c.before.length

/-- Where the next character stands, in characters from the start of the text. -/
def offset (c : Cursor) : Nat := c.before.length + c.taken.length

/-- The characters of the current token so far. -/
def lexeme (c : Cursor) : String := String.ofList c.taken.reverse

/-- The next character, if the text has not ended. -/
def char? (c : Cursor) : Option Char := c.rest.head?

/-- Starts a new token at the next character. -/
def mark (c : Cursor) : Cursor := { c with before := c.taken ++ c.before, taken := [] }

/-- Takes the next character into the current token; at the end nothing happens. -/
def advance (c : Cursor) : Cursor :=
  match c.rest with
  | [] => c
  | ch :: rest => { c with taken := ch :: c.taken, rest, pos := c.pos.next ch }

/-- Takes characters into the current token as long as they satisfy `p`. -/
def advanceWhile (p : Char → Bool) (c : Cursor) : Cursor :=
  let run := c.rest.takeWhile p
  { c with
    taken := run.reverse ++ c.taken
    rest := c.rest.dropWhile p
    pos := c.pos.after run }

@[simp] theorem text_mark (c : Cursor) : c.mark.text = c.text := by
  simp [mark, text]

@[simp] theorem text_advance (c : Cursor) : c.advance.text = c.text := by
  unfold advance; split <;> simp_all [text]

@[simp] theorem text_advanceWhile (p : Char → Bool) (c : Cursor) :
    (c.advanceWhile p).text = c.text := by
  simp [advanceWhile, text]

@[simp] theorem rest_mark (c : Cursor) : c.mark.rest = c.rest := rfl

theorem rest_advance_length (c : Cursor) : c.advance.rest.length = c.rest.length - 1 := by
  unfold advance; split <;> simp_all

theorem rest_advanceWhile_length_le (p : Char → Bool) (c : Cursor) :
    (c.advanceWhile p).rest.length ≤ c.rest.length :=
  (List.dropWhile_suffix p).length_le

end Cursor
end LetFun
