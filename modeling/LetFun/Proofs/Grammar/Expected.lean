import LetFun.Fault
import LetFun.Proofs.Grammar.Viable
/-!
# What errors of syntax say

A token that cannot be fed is reported with its place and with what was wanted in
its stead.  The report is true on both counts: it names the token (`About`), and
each lexeme that it says was expected (`Expects`) can be fed in the same state.

An expression is ended by one lexeme only, which the innermost construct around
it fixes, bodies apart (`Context.closer`).

Results:
* `feed_about`: the error is about the token that was fed.
* `feed_expected`: what the error expects can be fed instead.
* `exists_expected`: the error expects something.
-/
namespace LetFun

/-- An error at a token, with a message that names it. -/
def ParseError.About (e : ParseError) (t : Token) : Prop :=
  e.pos = t.pos ∧
    ((∃ w, e.cause = .unexpected t.lexeme w ∧
        e.cause.message = "unexpected token \"" ++ t.text ++ "\", expecting " ++ w.text) ∨
      (e.cause = .missingExpr ∧ t.lexeme = .eof ∧
        e.cause.message = "unexpected EOF, expected expr"))

/-- The lexemes that an error says were expected. -/
def ParseCause.Expects : ParseCause → Lexeme → Prop
  | .missingExpr, l => ∃ x, l = .ident x
  | .unexpected _ .identifier, l => ∃ x, l = .ident x
  | .unexpected _ .simpleExpr, l => ∃ x, l = .ident x
  | .unexpected _ (.form f), l => l ∈ [.equal, .inKw, .arrow, .rparen, .eof] ∧ l.form = f
  | .tooDeep, _ => False

namespace Parse

/-- The lexeme that ends an expression in a context. -/
def Context.closer : Context → Lexeme
  | .top => .eof
  | .paren .. => .rparen
  | .bound .. => .inKw
  | .body _ _ _ k | .lam _ _ k => k.closer

theorem Context.closer_mem (k : Context) :
    k.closer ∈ [.equal, .inKw, .arrow, .rparen, Lexeme.eof] := by
  induction k with
  | top | paren | bound => simp [closer]
  | body _ _ _ _ ih => exact ih
  | lam _ _ _ ih => exact ih

theorem Context.closer_startsSimple (k : Context) : k.closer.startsSimple = false := by
  induction k with
  | top | paren | bound => rfl
  | body _ _ _ _ ih => exact ih
  | lam _ _ _ ih => exact ih

theorem close_closer {t : Token} {k : Context} (e : Expr) (ht : t.lexeme = k.closer) :
    ∃ s, close t e k = .ok s := by
  induction k generalizing e with
  | top | paren | bound =>
    simp only [Context.closer] at ht
    exact ⟨_, by simp only [close, ht, if_true]; rfl⟩
  | body x b p k ih => exact ih _ ht
  | lam x p k ih => exact ih _ ht

theorem close_error {t : Token} {e : Expr} {k : Context} {err : ParseError}
    (h : close t e k = .error err) :
    err = ⟨.unexpected t.lexeme (.form k.closer.form), t.pos⟩ := by
  induction k generalizing e with
  | top | paren | bound =>
    simp only [close, unexpected] at h
    split at h
    · cases h
    · cases h; rfl
  | body x b p k ih => exact ih h
  | lam x p k ih => exact ih h

/-! ## The error of a state -/

/-- What a state reports as wanted. -/
def State.wanted (s : State) : Wanted :=
  match s.want with
  | .expr | .simple => .simpleExpr
  | .letName _ | .funName _ => .identifier
  | .letKw => .form Lexeme.letKw.form
  | .funKw => .form Lexeme.funKw.form
  | .equal .. => .form Lexeme.equal.form
  | .arrow .. => .form Lexeme.arrow.form
  | .more _ => .form s.context.closer.form
  | .done _ => .form Lexeme.eof.form

theorem feedSimple_error {f : Option Expr} {k : Context} {t : Token} {err : ParseError}
    (h : feedSimple f k t = .error err) : err = ⟨.unexpected t.lexeme .simpleExpr, t.pos⟩ := by
  unfold feedSimple at h
  split at h
  · cases h
  · cases h
  · cases h
  · cases h; rfl

/-- All that a state can report about a token. -/
theorem feed_error {s : State} {t : Token} {err : ParseError} (h : feed s t = .error err) :
    (s.want = .expr ∧ t.lexeme = .eof ∧ err = ⟨.missingExpr, t.pos⟩) ∨
      err = ⟨.unexpected t.lexeme s.wanted, t.pos⟩ := by
  obtain ⟨w, k⟩ := s
  unfold feed at h
  cases w with
  | expr =>
    simp only at h
    split at h
    · rename_i ht
      cases h
      exact .inl ⟨rfl, ht, rfl⟩
    · cases h
    · cases h
    · exact .inr (feedSimple_error h)
  | simple => exact .inr (feedSimple_error h)
  | letName | funName =>
    simp only at h
    split at h
    · cases h
    · cases h; exact .inr rfl
  | letKw | funKw | equal | arrow =>
    simp only at h
    split at h
    · cases h
    · cases h; exact .inr rfl
  | more e =>
    simp only at h
    split at h
    · rename_i ht
      obtain ⟨l, p⟩ := t
      cases l <;> simp [feedSimple, Lexeme.startsSimple] at h ht
    · exact .inr (close_error h)
  | done e => cases h; exact .inr rfl

theorem feed_about {s : State} {t : Token} {err : ParseError} (h : feed s t = .error err) :
    err.About t := by
  rcases feed_error h with ⟨-, ht, rfl⟩ | rfl
  · exact ⟨rfl, .inr ⟨rfl, ht, rfl⟩⟩
  · exact ⟨rfl, .inl ⟨_, rfl, rfl⟩⟩

/-- What the error expects can be fed in the place of the token. -/
theorem feed_expected {s : State} {t : Token} {err : ParseError} (h : feed s t = .error err)
    (hd : ∀ e, s.want ≠ .done e) {l : Lexeme} (hl : err.cause.Expects l) (p : Pos) :
    ∃ s', feed s ⟨l, p⟩ = .ok s' := by
  obtain ⟨w, k⟩ := s
  rcases feed_error h with ⟨hw, -, rfl⟩ | rfl
  · obtain rfl : w = .expr := hw
    obtain ⟨x, rfl⟩ := hl
    exact ⟨_, rfl⟩
  · cases w with
    | expr | simple | letName | funName =>
      obtain ⟨x, rfl⟩ := hl
      exact ⟨_, rfl⟩
    | letKw | funKw =>
      obtain ⟨hmem, hform⟩ := hl
      obtain rfl := Lexeme.form_injective hform
      simp at hmem
    | equal | arrow =>
      obtain rfl := Lexeme.form_injective hl.2
      exact ⟨_, rfl⟩
    | more e =>
      obtain rfl := Lexeme.form_injective hl.2
      obtain ⟨s', hs'⟩ := close_closer (t := ⟨k.closer, p⟩) e rfl
      exact ⟨s', by simpa [feed, k.closer_startsSimple] using hs'⟩
    | done e => exact absurd rfl (hd e)

/-- A state that explains the tokens before it expects something. -/
theorem exists_expected {s : State} {ts : List Token} {t : Token} {err : ParseError}
    (hs : Holds s ts) (h : feed s t = .error err) : ∃ l, err.cause.Expects l := by
  rcases feed_error h with ⟨-, -, rfl⟩ | rfl
  · exact ⟨.ident "x", "x", rfl⟩
  · cases hs with
    | expr | letName | funName => exact ⟨.ident "x", "x", rfl⟩
    | equal => exact ⟨.equal, by simp, rfl⟩
    | arrow => exact ⟨.arrow, by simp, rfl⟩
    | @more e k => exact ⟨k.closer, k.closer_mem, rfl⟩
    | done => exact ⟨.eof, by simp, rfl⟩

end Parse
end LetFun
