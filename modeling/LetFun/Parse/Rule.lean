import LetFun.Grammar
import LetFun.Lexer.Stream
import LetFun.Parse
/-!
# Rules and their parsers

The rules of the grammar, each with the parser that looks for it alone, wherever a
lexer stands.  All but the simple expressions are greedy: they go on as long as
simple expressions follow, so that a token which begins one does not end them.

What a lexer has to offer a parser (`Lexer.Offers`) is told by the stream of the
lexer and the grammar, without the parser.

Results:
* `Rule.parser_eq`: the parsers of the rules are one parse, with a want and a goal for each.
-/

namespace LetFun

/-- The rules of the grammar that have a parser of their own. -/
inductive Rule where
  | expr
  | letIn
  | lam
  | application
  | simple
deriving DecidableEq, Repr

namespace Rule

def parser : Rule → Parsing Expr
  | expr => Parse.expr
  | letIn => Parse.letExpr
  | lam => Parse.funExpr
  | application => Parse.application
  | simple => Parse.simpleExpr

/-- What the first token of a rule is needed for. -/
def want : Rule → Parse.Want
  | expr => .expr
  | letIn => .letKw
  | lam => .funKw
  | application | simple => .simple

/-- Where a parse for a rule stops. -/
def goal : Rule → Parse.Goal
  | simple => .simple
  | _ => .phrase

theorem parser_eq (r : Rule) : r.parser = Parse.run none r.goal ⟨r.want, .top⟩ := by
  cases r <;> rfl

/-- Tokens that a rule derives, with their tree. -/
inductive Yields : Rule → List Token → Expr → Prop where
  | expr {ts : List Token} {e : Expr} : Derives .expr ts e → Yields .expr ts e
  | letIn {x : String} {ts us : List Token} {b e : Expr} {p p₁ p₂ p₃ : Pos} :
      Derives .expr ts b → Derives .expr us e →
      Yields .letIn (⟨.letKw, p⟩ :: ⟨.ident x, p₁⟩ :: ⟨.equal, p₂⟩ :: ts ++ ⟨.inKw, p₃⟩ :: us)
        (.letIn x b e p)
  | lam {x : String} {ts : List Token} {e : Expr} {p p₁ p₂ : Pos} :
      Derives .expr ts e →
      Yields .lam (⟨.funKw, p⟩ :: ⟨.ident x, p₁⟩ :: ⟨.arrow, p₂⟩ :: ts) (.lam x e p)
  | application {ts : List Token} {e : Expr} : Derives .run ts e → Yields .application ts e
  | simple {ts : List Token} {e : Expr} : Derives .simple ts e → Yields .simple ts e

/-- Whether a token behind those of a rule ends them. -/
def endsAt : Rule → Token → Bool
  | simple, _ => true
  | _, t => !t.lexeme.startsSimple

end Rule

/-- The stream of a lexer begins with tokens of a rule, and goes on with a token that ends them. -/
structure Lexer.Offers (l : Lexer) (r : Rule) (ts : List Token) (t : Token) (e : Expr) : Prop where
  begins : l.Begins (ts ++ [t])
  yields : r.Yields ts e
  ends : r.endsAt t = true

end LetFun
