import LetFun.Lexer
/-!
# The stream of scans

Scanning again and again, whether or not a scan fails, gives a stream of
outcomes.  A text fixes its stream, and what a lexer hands out, keeps and refuses
is told in terms of it.
-/

namespace LetFun

namespace Cursor

/-- What one scan finds. -/
def outcome (c : Cursor) : Except LexError Token :=
  match c.scan with
  | .ok t _ => .ok t
  | .error e _ => .error e

/-- The cursor after one scan. -/
def scanned (c : Cursor) : Cursor :=
  match c.scan with
  | .ok _ c => c
  | .error _ c => c

/-- The cursor after `n` scans. -/
def after (c : Cursor) : Nat → Cursor
  | 0 => c
  | n + 1 => c.scanned.after n

/-- What the scan behind `n` others finds. -/
def stream (c : Cursor) (n : Nat) : Except LexError Token := (c.after n).outcome

/-- The cursor stands right behind a text that begins at `p`, having just taken it. -/
def JustRead (c : Cursor) (p : Pos) (s : String) : Prop := c.lexeme = s ∧ c.pos = p.after s.toList

end Cursor

/-- What a lexer is still going to find: the token read ahead, and then the stream. -/
def Lexer.stream (l : Lexer) (n : Nat) : Except LexError Token :=
  match l.look, n with
  | some t, 0 => .ok t
  | some _, n + 1 => l.cursor.stream n
  | none, n => l.cursor.stream n

/-- The cursor once the outcome with index `n` of the stream has been scanned. -/
def Lexer.behind (l : Lexer) (n : Nat) : Cursor :=
  l.cursor.after (if l.look.isSome then n else n + 1)

/-- The stream of a lexer begins with these tokens. -/
def Lexer.Begins (l : Lexer) (ts : List Token) : Prop :=
  ∀ i t, ts[i]? = some t → l.stream i = .ok t

end LetFun
