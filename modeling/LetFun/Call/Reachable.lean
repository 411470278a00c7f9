import LetFun.Call
/-!
# Lexers that calls lead to

Starting from a text, calls lead a lexer from one state to another, also by way of
errors.  Calls that hand out whole tokens (`Call.isOrderly`) keep the token read
ahead and the cursor in step; the others move the cursor past it.

Results:
* `Reachable.mono`: more calls reach more states.
-/

namespace LetFun

/-- Whether a call takes tokens in order, and nothing but tokens. -/
def Call.isOrderly : Call → Bool
  | .scan | .tokenize | .lexeme | .advance | .peekChar | .name => false
  | _ => true

/-- Whether a call looks for tokens of some form, rather than for any token. -/
def Call.isParser : Call → Bool
  | .token _ | .ident | .simpleExpr | .application | .expr | .letExpr | .funExpr | .program => true
  | _ => false

namespace Lexer

/-- The lexers that calls of a kind lead to from the start of a text. -/
inductive Reachable (allowed : Call → Bool) (text : String) : Lexer → Prop where
  | start : Reachable allowed text (ofText text)
  | call {l : Lexer} {c : Call} : Reachable allowed text l → allowed c = true →
      Reachable allowed text (c.reply l).2

theorem Reachable.mono {allowed allowed' : Call → Bool} {text : String} {l : Lexer}
    (h : Reachable allowed text l) (hsub : ∀ c, allowed c = true → allowed' c = true) :
    Reachable allowed' text l := by
  induction h with
  | start => exact .start
  | call _ hc ih => exact .call ih (hsub _ hc)

end Lexer
end LetFun
