import LetFun.Lexer.Stream
/-!
# The ledger of a lexer

A lexer is drawn on for one token at a time, by looking at the next token or by
taking it.  A draw may fail, and the lexer is drawn on again.  The ledger of such a
run keeps what was handed over, what was refused, and how often the text was
scanned.

The other side of the account is the stream of scans: what the first `n` scans of
the text find and where they fail.
-/
namespace LetFun

/-- A draw on a lexer. -/
inductive Draw where
  /-- Looks at the next token. -/
  | peek
  /-- Takes the next token. -/
  | next
deriving DecidableEq, Repr

namespace Draw

def perform : Draw → Lexing Token
  | peek => Lexer.peek
  | next => Lexer.next

/-- How often a draw scans: once if there is no token read ahead, and once more behind a token
that is taken. -/
def scans (d : Draw) (l : Lexer) : Nat :=
  let first := if l.look.isSome then 0 else 1
  match d, l.peek with
  | next, .ok _ _ => first + 1
  | _, _ => first

end Draw

/-- A lexer that has been drawn on, and the account of its draws. -/
structure Ledger where
  lexer : Lexer
  /-- The tokens that were taken. -/
  taken : List Token
  /-- The errors that draws met. -/
  refused : List LexError
  /-- The number of scans that the draws performed. -/
  scans : Nat
deriving DecidableEq, Repr

namespace Ledger

def ofText (text : String) : Ledger := ⟨Lexer.ofText text, [], [], 0⟩

/-- Enters one draw. -/
def draw (b : Ledger) (d : Draw) : Ledger :=
  let scans := b.scans + d.scans b.lexer
  match d.perform b.lexer, d with
  | .ok _ lexer, .peek => { b with lexer, scans }
  | .ok t lexer, .next => { b with lexer, scans, taken := b.taken ++ [t] }
  | .error e lexer, _ => { b with lexer, scans, refused := b.refused ++ [e] }

/-- Enters draws in order. -/
def draws (b : Ledger) (ds : List Draw) : Ledger := ds.foldl draw b

end Ledger

namespace Cursor

/-- The tokens that the first `n` scans find. -/
def found (c : Cursor) (n : Nat) : List Token :=
  (List.range n).filterMap fun i =>
    match c.stream i with
    | .ok t => some t
    | .error _ => none

/-- The errors that the first `n` scans meet. -/
def failed (c : Cursor) (n : Nat) : List LexError :=
  (List.range n).filterMap fun i =>
    match c.stream i with
    | .ok _ => none
    | .error e => some e

end Cursor
end LetFun
