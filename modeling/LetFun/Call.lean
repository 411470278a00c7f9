import LetFun.Parse
/-!
# Calls

Every operation on a lexer as a value, and what it answers.  A lexer outlives
the errors of its operations, so a run of calls always has as many answers as
calls.
-/

namespace LetFun

/-- An operation on a lexer. -/
inductive Call where
  /-- The token read ahead, reading it if need be. -/
  | peek
  /-- Hands over a token. -/
  | next
  /-- Reads a token past the one read ahead. -/
  | scan
  /-- Hands over all tokens. -/
  | tokenize
  /-- The text of the current token. -/
  | lexeme
  /-- Takes one character. -/
  | advance
  /-- The next character. -/
  | peekChar
  /-- Takes the name characters at the cursor. -/
  | name
  /-- Takes a token of the given form. -/
  | token (f : Form)
  | ident
  | simpleExpr
  | application
  | expr
  | letExpr
  | funExpr
  | program
deriving DecidableEq, Repr

/-- What an operation answers. -/
inductive Answer where
  | token (t : Token)
  | tokens (ts : List Token)
  | text (s : String)
  | char (c : Option Char)
  | expr (e : Expr)
deriving DecidableEq, Repr

namespace Call

/-- A lexing operation among those that may also fail at tokens. -/
def lifted {α : Type} (wrap : α → Answer) (m : Lexing α) : Parsing Answer := fun l =>
  match m l with
  | .ok a l => .ok (wrap a) l
  | .error e l => .error (.lex e) l

/-- Performs an operation. -/
def perform : Call → Parsing Answer
  | peek => lifted .token Lexer.peek
  | next => lifted .token Lexer.next
  | scan => lifted .token Lexer.scan
  | tokenize => lifted .tokens Lexer.tokenize
  | lexeme => lifted .text Lexer.lexeme
  | advance => lifted .char Lexer.advance
  | peekChar => lifted .char Lexer.peekChar
  | name => lifted .text Lexer.name
  | token f => .token <$> Parse.token f
  | ident => .text <$> Parse.ident
  | simpleExpr => .expr <$> Parse.simpleExpr
  | application => .expr <$> Parse.application
  | expr => .expr <$> Parse.expr
  | letExpr => .expr <$> Parse.letExpr
  | funExpr => .expr <$> Parse.funExpr
  | program => .expr <$> Parse.program (some nestingLimit)

/-- What a call comes to: its answer, or the fault that it met. -/
abbrev Reply := Except Fault Answer

/-- The reply to a call, and the lexer after it. -/
def reply (c : Call) (l : Lexer) : Reply × Lexer :=
  match c.perform l with
  | .ok a l => (.ok a, l)
  | .error e l => (.error e, l)

/-- Performs calls in order, and gives for each its reply and the lexer after it. -/
def replies : List Call → Lexer → List (Reply × Lexer)
  | [], _ => []
  | c :: cs, l =>
    let r := c.reply l
    r :: replies cs r.2

end Call
end LetFun
