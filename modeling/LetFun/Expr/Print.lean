import LetFun.Expr
import LetFun.Names
/-!
# Printing expressions

An expression is printed with as few parentheses as its reading needs: around a
function that is a `let` or a `fun`, since these would swallow the argument, and
around an argument that is more than a name.
-/

namespace LetFun.Expr

/-- A text in parentheses if `wrapped` holds. -/
def parens (wrapped : Bool) (s : String) : String := if wrapped then "(" ++ s ++ ")" else s

/-- Whether the expression extends as far to the right as it can. -/
def isOpen : Expr → Bool
  | letIn .. | lam .. => true
  | _ => false

/-- Whether the expression is a name. -/
def isName : Expr → Bool
  | var .. | con .. => true
  | _ => false

/-- The text of an expression. -/
def print : Expr → String
  | var x _ => x
  | con c _ => c
  | letIn x b e _ => "let " ++ x ++ " = " ++ b.print ++ " in " ++ e.print
  | lam x e _ => "fun " ++ x ++ " -> " ++ e.print
  | app f a _ => parens f.isOpen f.print ++ " " ++ parens (!a.isName) a.print

/-- Whether every name in the tree can be met in a text at its place. -/
def legal : Expr → Bool
  | var x _ => isIdent x
  | con c _ => isCon c
  | letIn x b e _ => isIdent x && b.legal && e.legal
  | lam x e _ => isIdent x && e.legal
  | app f a _ => f.legal && a.legal

end LetFun.Expr
