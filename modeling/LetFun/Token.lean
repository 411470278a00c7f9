import LetFun.Pos
import LetFun.Text.Quoted
/-!
# Tokens

A `Lexeme` is what a token says: a keyword, a mark, a name, or the end of the
text.  A `Token` is a lexeme together with the position of its first character.
A `Form` is the printed shape of a lexeme, a kind with an optional payload; an
expectation may be any form at all, also one that no lexeme has.

Results:
* `Lexeme.form_injective`: no two lexemes share a form.
* `Lexeme.ofWord_spelling`: a word spells the lexeme that it is read as.
-/

namespace LetFun

/-- The ten kinds of token. -/
inductive Kind where
  | letKw | inKw | funKw
  | equal | arrow | lparen | rparen
  | ident | con
  | eof
deriving DecidableEq, Repr

namespace Kind

/-- The printed name of a kind. -/
def name : Kind → String
  | letKw => "LET"
  | inKw => "IN"
  | funKw => "FUN"
  | equal => "EQUAL"
  | arrow => "ARROW"
  | lparen => "LPAREN"
  | rparen => "RPAREN"
  | ident => "IDENT"
  | con => "CON"
  | eof => "EOF"

def all : List Kind :=
  [letKw, inKw, funKw, equal, arrow, lparen, rparen, ident, con, eof]

/-- The kind with a given printed name. -/
def ofName? (s : String) : Option Kind := all.find? (·.name == s)

end Kind

/-- A kind with an optional payload: how a token prints and what it compares by. -/
structure Form where
  kind : Kind
  payload : Option String
deriving DecidableEq, Repr

namespace Form

/-- The short text of a form: the kind, and the payload in parentheses if there is one. -/
def text (f : Form) : String :=
  match f.payload with
  | none => f.kind.name
  | some s => f.kind.name ++ "(" ++ s ++ ")"

/-- The detailed text of a form, with the payload in quotes. -/
def detail (f : Form) : String :=
  let payload := match f.payload with
    | none => "None"
    | some s => Text.quoted s
  "Token(" ++ f.kind.name ++ ", " ++ payload ++ ")"

end Form

/-- What a token says. Only names carry a payload. -/
inductive Lexeme where
  | letKw | inKw | funKw
  | equal | arrow | lparen | rparen
  | ident (name : String)
  | con (name : String)
  | eof
deriving DecidableEq, Repr

namespace Lexeme

def form : Lexeme → Form
  | letKw => ⟨.letKw, none⟩
  | inKw => ⟨.inKw, none⟩
  | funKw => ⟨.funKw, none⟩
  | equal => ⟨.equal, none⟩
  | arrow => ⟨.arrow, none⟩
  | lparen => ⟨.lparen, none⟩
  | rparen => ⟨.rparen, none⟩
  | ident n => ⟨.ident, some n⟩
  | con n => ⟨.con, some n⟩
  | eof => ⟨.eof, none⟩

theorem form_injective {a b : Lexeme} (h : a.form = b.form) : a = b := by
  cases a <;> cases b <;> simp_all [form]

/-- The text that a lexeme stands for; nothing at the end of the text. -/
def spelling : Lexeme → String
  | letKw => "let"
  | inKw => "in"
  | funKw => "fun"
  | equal => "="
  | arrow => "->"
  | lparen => "("
  | rparen => ")"
  | ident n => n
  | con n => n
  | eof => ""

/-- The lexeme of a word that starts with a lower-case letter or an underscore:
a keyword if it is one, and an identifier otherwise. -/
def ofWord (w : String) : Lexeme :=
  if w = "let" then letKw
  else if w = "in" then inKw
  else if w = "fun" then funKw
  else ident w

theorem ofWord_spelling (w : String) : (ofWord w).spelling = w := by
  unfold ofWord; split
  · simp [spelling, *]
  · split
    · simp [spelling, *]
    · split <;> simp [spelling, *]

/-- Whether the lexeme can begin a simple expression, and so continue an application. -/
def startsSimple : Lexeme → Bool
  | lparen | ident _ | con _ => true
  | _ => false

end Lexeme

/-- A lexeme and the position of its first character. -/
structure Token where
  lexeme : Lexeme
  pos : Pos
deriving DecidableEq, Repr

/-- The short text of a token, as error messages and listings show it. -/
def Token.text (t : Token) : String := t.lexeme.form.text

end LetFun
