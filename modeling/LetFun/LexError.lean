import LetFun.Pos
/-!
# Lexical errors

A text stops being a sequence of tokens at a dash that begins no arrow, or at a
character that begins nothing.
-/

namespace LetFun

/-- Why a text cannot be read as tokens. -/
inductive LexCause where
  /-- A dash followed by something other than `>`, or by the end of the text. -/
  | brokenArrow (follower : Option Char)
  /-- A character that begins no token. -/
  | invalidChar (c : Char)
deriving DecidableEq, Repr

def LexCause.message : LexCause → String
  | brokenArrow none => "bad token \"-\""
  | brokenArrow (some c) => "bad token \"-" ++ c.toString ++ "\""
  | invalidChar c => "invalid character " ++ c.toString

/-- The characters that cannot be read. -/
def LexCause.bad : LexCause → String
  | brokenArrow none => "-"
  | brokenArrow (some c) => "-" ++ c.toString
  | invalidChar c => c.toString

/-- A lexical error, at the first character of the bad text. -/
structure LexError where
  cause : LexCause
  pos : Pos
deriving DecidableEq, Repr

end LetFun
