import LetFun.Pos
/-!
# Expressions

The trees of the language: variables, constructors, `let`, `fun` and
application, each with the position at which it begins.  Parentheses are not in
the tree.  Positions serve messages; two trees are the same expression when they
agree after `Expr.strip`, which forgets positions.

Results:
* `strip_app`, `strip_letIn`, `strip_lam`: trees of one form that agree part by part agree.
-/

namespace LetFun

/-- An expression with positions. -/
inductive Expr where
  | var (name : String) (pos : Pos)
  | con (name : String) (pos : Pos)
  | letIn (name : String) (bound body : Expr) (pos : Pos)
  | lam (param : String) (body : Expr) (pos : Pos)
  | app (function argument : Expr) (pos : Pos)
deriving DecidableEq, Repr, Inhabited

/-- The five forms of expression. -/
inductive ExprKind where
  | var | con | letIn | lam | app
deriving DecidableEq, Repr

/-- The name of a form in messages about trees. -/
def ExprKind.name : ExprKind → String
  | var => "VAR"
  | con => "CON"
  | letIn => "LET"
  | lam => "LAM"
  | app => "APP"

/-- The name of a form in tables. -/
def ExprKind.label : ExprKind → String
  | var => "Var"
  | con => "Con"
  | letIn => "Let"
  | lam => "Lam"
  | app => "App"

namespace Expr

def kind : Expr → ExprKind
  | var .. => .var
  | con .. => .con
  | letIn .. => .letIn
  | lam .. => .lam
  | app .. => .app

def pos : Expr → Pos
  | var _ p | con _ p | letIn _ _ _ p | lam _ _ p | app _ _ p => p

/-- The number of nodes. -/
def size : Expr → Nat
  | var .. | con .. => 1
  | letIn _ b e _ => 1 + b.size + e.size
  | lam _ e _ => 1 + e.size
  | app f a _ => 1 + f.size + a.size

theorem size_pos (e : Expr) : 0 < e.size := by cases e <;> simp only [size] <;> omega

/-- Changes every position by `f`. -/
def mapPos (f : Pos → Pos) : Expr → Expr
  | var x p => var x (f p)
  | con c p => con c (f p)
  | letIn x b e p => letIn x (b.mapPos f) (e.mapPos f) (f p)
  | lam x e p => lam x (e.mapPos f) (f p)
  | app g a p => app (g.mapPos f) (a.mapPos f) (f p)

/-- The same expression with no positions. -/
def strip : Expr → Expr := mapPos fun _ => Pos.none

theorem strip_app {f f' a a' : Expr} {p q : Pos} (hf : f'.strip = f.strip)
    (ha : a'.strip = a.strip) : (app f' a' q).strip = (app f a p).strip := by
  simp only [strip, mapPos] at hf ha ⊢
  rw [hf, ha]

theorem strip_letIn {x : String} {b b' e e' : Expr} {p q : Pos} (hb : b'.strip = b.strip)
    (he : e'.strip = e.strip) : (letIn x b' e' q).strip = (letIn x b e p).strip := by
  simp only [strip, mapPos] at hb he ⊢
  rw [hb, he]

theorem strip_lam {x : String} {e e' : Expr} {p q : Pos} (he : e'.strip = e.strip) :
    (lam x e' q).strip = (lam x e p).strip := by
  simp only [strip, mapPos] at he ⊢
  rw [he]

/-- Whether two trees are the same expression, wherever they stand. -/
def same (a b : Expr) : Bool := a.strip = b.strip

/-- An application begins where its function begins. -/
def apply (f a : Expr) : Expr := app f a f.pos

end Expr
end LetFun
