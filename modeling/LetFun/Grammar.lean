import LetFun.Expr
import LetFun.Token
/-!
# The grammar

    expr   ::= LET IDENT EQUAL expr IN expr | FUN IDENT ARROW expr | run
    run    ::= simple | run simple
    simple ::= IDENT | CON | LPAREN expr RPAREN

`Derives` says which tokens form which phrase, and what tree the phrase has.  An
application is a run folded to the left.  A node stands where the token stands
that gives it its name or its keyword, and an application where its function
stands; parentheses leave no mark.

Results:
* `Derives.ne_nil`: no phrase is empty.
-/

namespace LetFun

/-- The kinds of phrase. -/
inductive Phrase where
  | expr
  | run
  | simple
deriving DecidableEq, Repr

/-- Tokens that form a phrase with a tree. -/
inductive Derives : Phrase → List Token → Expr → Prop where
  | ident {x : String} {p : Pos} : Derives .simple [⟨.ident x, p⟩] (.var x p)
  | con {c : String} {p : Pos} : Derives .simple [⟨.con c, p⟩] (.con c p)
  | paren {ts : List Token} {e : Expr} {p q : Pos} :
      Derives .expr ts e → Derives .simple (⟨.lparen, p⟩ :: ts ++ [⟨.rparen, q⟩]) e
  | single {ts : List Token} {e : Expr} : Derives .simple ts e → Derives .run ts e
  | apply {ts us : List Token} {f a : Expr} :
      Derives .run ts f → Derives .simple us a → Derives .run (ts ++ us) (f.apply a)
  | run {ts : List Token} {e : Expr} : Derives .run ts e → Derives .expr ts e
  | letIn {x : String} {ts us : List Token} {b e : Expr} {p p₁ p₂ p₃ : Pos} :
      Derives .expr ts b → Derives .expr us e →
      Derives .expr
        (⟨.letKw, p⟩ :: ⟨.ident x, p₁⟩ :: ⟨.equal, p₂⟩ :: ts ++ ⟨.inKw, p₃⟩ :: us)
        (.letIn x b e p)
  | lam {x : String} {ts : List Token} {e : Expr} {p p₁ p₂ : Pos} :
      Derives .expr ts e →
      Derives .expr (⟨.funKw, p⟩ :: ⟨.ident x, p₁⟩ :: ⟨.arrow, p₂⟩ :: ts) (.lam x e p)

/-- Tokens that form a program, the end of the text included. -/
def IsProgram (ts : List Token) : Prop :=
  ∃ us e p, Derives .expr us e ∧ ts = us ++ [⟨.eof, p⟩]

/-- Tokens with which some program begins. -/
def Viable (ts : List Token) : Prop := ∃ us, IsProgram (ts ++ us)

theorem Derives.ne_nil {k : Phrase} {ts : List Token} {e : Expr} (h : Derives k ts e) :
    ts ≠ [] := by
  induction h with
  | single _ ih | run _ ih => exact ih
  | apply _ _ ih _ => simp [ih]
  | _ => simp

theorem IsProgram.viable {ts us : List Token} (h : IsProgram (ts ++ us)) : Viable ts := ⟨us, h⟩

end LetFun
