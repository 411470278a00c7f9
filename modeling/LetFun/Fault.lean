import LetFun.LexError
import LetFun.Token
/-!
# Faults in a text

What can be wrong with a text: it holds no sequence of tokens (`LexError`), or
its tokens form no program (`ParseError`).
-/

namespace LetFun

/-- What a parser needed when it met another token. -/
inductive Wanted where
  | identifier
  | simpleExpr
  | form (f : Form)
deriving DecidableEq, Repr

def Wanted.text : Wanted → String
  | identifier => "identifier"
  | simpleExpr => "simple expression"
  | form f => f.text

/-- Why tokens form no program. -/
inductive ParseCause where
  | unexpected (found : Lexeme) (wanted : Wanted)
  /-- The text ends where an expression should begin. -/
  | missingExpr
  /-- The nesting limit was passed. -/
  | tooDeep
deriving DecidableEq, Repr

def ParseCause.message : ParseCause → String
  | unexpected found wanted =>
    "unexpected token \"" ++ found.form.text ++ "\", expecting " ++ wanted.text
  | missingExpr => "unexpected EOF, expected expr"
  | tooDeep => "expression nested too deeply"

/-- An error of syntax, at the first token that cannot be right; the nesting limit is reported
at the cursor. -/
structure ParseError where
  cause : ParseCause
  pos : Pos
deriving DecidableEq, Repr

/-- A text's first fault. -/
inductive Fault where
  | lex (e : LexError)
  | parse (e : ParseError)
deriving DecidableEq, Repr

namespace Fault

def message : Fault → String
  | lex e => e.cause.message
  | parse e => e.cause.message

def pos : Fault → Pos
  | lex e => e.pos
  | parse e => e.pos

end Fault
end LetFun
