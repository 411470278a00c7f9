import LetFun.Lexer
import LetFun.Parse.State
/-!
# Parsing

A parse draws tokens from a lexer and feeds them to a state until its goal is
reached.  Since a lexer reads one token ahead of the one that it hands over, a
lexical error in the text behind a token precedes any error of syntax at that
token.  A whole program may be parsed under a nesting limit, which is looked at
after each token.

The goals differ in where they stop: a whole program ends with the text, a
phrase ends before the first token that cannot extend it, and a simple
expression ends with its last token.
-/

namespace LetFun

/-- Operations that draw tokens and may find the text at fault. -/
abbrev Parsing := EStateM Fault Lexer

namespace Lexer

theorem fill_ahead_le {l l' : Lexer} {t : Token} (h : fill l = .ok t l') : l'.ahead ≤ l.ahead := by
  have hf := fill_ahead l
  rw [h] at hf
  have : 2 * l.cursor.rest.length ≤ l.ahead := by simp [ahead]
  rcases hf with ⟨_, hz⟩ | ⟨_, hle⟩ <;> omega

theorem next_ahead_le {l l' : Lexer} {t : Token} (h : next l = .ok t l') : l'.ahead ≤ l.ahead := by
  rw [next_eq] at h
  have hp : ∀ {t l₁}, peek l = .ok t l₁ → l₁.ahead ≤ l.ahead := by
    intro t l₁ h₁
    unfold peek at h₁
    split at h₁
    · cases h₁; exact Nat.le_refl _
    · exact fill_ahead_le h₁
  split at h
  · cases h
  · next h₁ =>
    split at h
    · cases h
    · next h₂ => cases h; exact Nat.le_trans (fill_ahead_le h₂) (hp h₁)

end Lexer

namespace Parse

/-- What a parse is for. -/
inductive Goal where
  | program
  | phrase
  | simple
deriving DecidableEq, Repr

/-- The expression that ends at a token which does not extend it, if nothing is left open. -/
def closed? (e : Expr) : Context → Option Expr
  | .top => some e
  | .paren .. | .bound .. => none
  | .body x b p k => closed? (.letIn x b e p) k
  | .lam x p k => closed? (.lam x e p) k

/-- The result of a parse that has reached its goal, given the token read ahead. -/
def Goal.result? (goal : Goal) (s : State) (look : Option Token) : Option Expr :=
  match s.want, goal with
  | .done e, _ => some e
  | .more e, .phrase =>
    match look with
    | some t => if t.lexeme.startsSimple then none else closed? e s.context
    | none => none
  | .more e, .simple => if s.context = .top then some e else none
  | _, _ => none

/-- Whether the nesting at a state passes the limit, if there is one. -/
def State.passes (s : State) (limit : Option Nat) : Bool :=
  match limit with
  | some n => n < s.cost
  | none => false

/-- How far a state is from the end of the program, once its text has ended. -/
def State.left (s : State) : Nat :=
  match s.want with
  | .done _ => 0
  | _ => 1

/-- Feeds tokens to a state until the goal is reached or the text is found at fault. -/
def run (limit : Option Nat) (goal : Goal) (s : State) (l : Lexer) :
    EStateM.Result Fault Lexer Expr :=
  match _hr : goal.result? s l.look with
  | some e => .ok e l
  | none =>
    match _hn : l.next with
    | .error e l' => .error (.lex e) l'
    | .ok t l' =>
      match _hf : feed s t with
      | .error e => .error (.parse e) l'
      | .ok s' =>
        if s'.passes limit then .error (.parse ⟨.tooDeep, l'.cursor.pos⟩) l'
        else run limit goal s' l'
termination_by (l.ahead, s.left)
decreasing_by
  by_cases ht : t.lexeme = .eof
  · have hlt : s'.left < s.left := by
      obtain ⟨e, he⟩ := feed_eof ht _hf
      cases hw : s.want <;> simp [State.left, he, hw]
      simp [Goal.result?, hw] at _hr
    rcases Nat.lt_or_eq_of_le (Lexer.next_ahead_le _hn) with hl | hl
    · exact Prod.Lex.left _ _ hl
    · rw [hl]; exact Prod.Lex.right _ hlt
  · exact Prod.Lex.left _ _ (Lexer.next_ahead _hn ht)

/-- Hands over the next token. -/
def nextToken : Parsing Token := fun l =>
  match l.next with
  | .ok t l => .ok t l
  | .error e l => .error (.lex e) l

/-- Takes a token that must have the form `f`. -/
def token (f : Form) : Parsing Token := do
  let t ← nextToken
  if t.lexeme.form = f then return t
  else throw (.parse ⟨.unexpected t.lexeme (.form f), t.pos⟩)

/-- Takes an identifier and answers its name. -/
def ident : Parsing String := do
  let t ← nextToken
  match t.lexeme with
  | .ident x => return x
  | _ => throw (.parse ⟨.unexpected t.lexeme .identifier, t.pos⟩)

/-- A variable, a constructor or an expression in parentheses. -/
def simpleExpr : Parsing Expr := run none .simple ⟨.simple, .top⟩

/-- One simple expression or more, side by side. -/
def application : Parsing Expr := run none .phrase ⟨.simple, .top⟩

/-- An expression. -/
def expr : Parsing Expr := run none .phrase ⟨.expr, .top⟩

/-- An expression that begins with `let`. -/
def letExpr : Parsing Expr := run none .phrase ⟨.letKw, .top⟩

/-- An expression that begins with `fun`. -/
def funExpr : Parsing Expr := run none .phrase ⟨.funKw, .top⟩

/-- An expression that fills the rest of the text. -/
def program (limit : Option Nat) : Parsing Expr := run limit .program ⟨.expr, .top⟩

end Parse

/-- Parses a text under a nesting limit. -/
def parseWithin (limit : Option Nat) (text : String) : Except Fault Expr :=
  match Parse.program limit (Lexer.ofText text) with
  | .ok e _ => .ok e
  | .error e _ => .error e

/-- The nesting that whole programs may reach. -/
def nestingLimit : Nat := 1000

/-- Parses a text. -/
def parse (text : String) : Except Fault Expr := parseWithin (some nestingLimit) text

end LetFun
