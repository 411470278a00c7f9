import LetFun.Proofs.Grammar.Expected
import LetFun.Proofs.Parse.Runs
/-!
# What a failed parser leaves

A parser that fails, be it one that takes a single token or one for a whole program,
leaves the lexer in one of two ways.  An error of the lexer stands in the stream: the
cursor has read past it and the token in front of it is kept (`LeftByLex`).  Or a
token is wrong: it has been handed over and the one behind it is read ahead
(`LeftByParse`).  In both cases nothing else of the stream is lost, and the lexer goes
on from there.

Results:
* `left_of_run`: a parse that fails within its limit leaves the lexer so.
* `failed_call`: so does every parser, wherever orderly calls have led the lexer.
-/
namespace LetFun

open Parse

namespace Lexer

/-- What is left of `l` where an error of the lexer was met behind the tokens `ts`. -/
structure LeftByLex (l : Lexer) (ts : List Token) (e : LexError) (l' : Lexer) : Prop where
  /-- The error is the first outcome of the stream that is not a token. -/
  first : l.Begins ts ∧ l.stream ts.length = .error e
  cursor : l'.cursor = l.behind ts.length
  look : l'.look = ts.getLast?

/-- What is left of `l` where the token `t` was wrong behind the tokens `ts`, with `u` next. -/
structure LeftByParse (l : Lexer) (ts : List Token) (t u : Token) (err : ParseError)
    (l' : Lexer) : Prop where
  begins : l.Begins (ts ++ [t, u])
  about : err.About t
  cursor : l'.cursor = l.behind (ts.length + 1)
  look : l'.look = some u

section
variable {l l' : Lexer} {ts : List Token} {t u : Token} {e : LexError} {err : ParseError}

/-- The cursor stands right behind the characters that cannot be read. -/
theorem LeftByLex.justRead (h : l.LeftByLex ts e l') : l'.cursor.JustRead e.pos e.cause.bad := by
  rw [h.cursor]
  exact justRead_behind_error h.first.2

/-- What remains to be scanned is what stands behind the error. -/
theorem LeftByLex.stream (h : l.LeftByLex ts e l') (n : Nat) :
    l'.cursor.stream n = l.stream (ts.length + (n + 1)) := by
  rw [h.cursor, ← l.stream_behind]

/-- The token that was kept is considered again: it is handed over, or kept once more. -/
theorem LeftByLex.again (h : l.LeftByLex ts e l') (ht : ts.getLast? = some t) :
    l'.peek = .ok t l' ∧
      ((∃ l₂, l'.next = .ok t l₂) ∨ ∃ e₂ l₂, l'.next = .error e₂ l₂ ∧ l₂.look = some t) := by
  have hlook : l'.look = some t := h.look.trans ht
  have hfirst : l'.stream 0 = .ok t := by simp only [Lexer.stream, hlook]
  refine ⟨by simp only [peek, hlook], ?_⟩
  rw [next_eq_stream, hfirst]
  cases l'.stream 1 with
  | ok u => exact .inl ⟨_, rfl⟩
  | error e₂ => exact .inr ⟨_, _, rfl, rfl⟩

theorem LeftByParse.stream_look (h : l.LeftByParse ts t u err l') :
    l.stream (ts.length + 1) = .ok u := by
  have hbegins : l.Begins ((ts ++ [t]) ++ [u]) := by simpa using h.begins
  simpa using hbegins.stream_length

/-- The cursor stands right behind the token that is read ahead. -/
theorem LeftByParse.justRead (h : l.LeftByParse ts t u err l') :
    l'.cursor.JustRead u.pos u.lexeme.spelling := by
  rw [h.cursor]
  exact justRead_behind h.stream_look

/-- The tokens up to the wrong one have been handed over, and nothing behind it. -/
theorem LeftByParse.stream (h : l.LeftByParse ts t u err l') (n : Nat) :
    l'.stream n = l.stream (ts.length + 1 + n) := by
  obtain ⟨c, look⟩ := l'
  obtain rfl : c = l.behind (ts.length + 1) := h.cursor
  obtain rfl : look = some u := h.look
  exact stream_add h.stream_look n

/-- Behind the end of the text stands the end again. -/
theorem LeftByParse.eof (h : l.LeftByParse ts t u err l') (hl : l.Ends) (ht : t.lexeme = .eof) :
    u = t := by
  have hbehind : l.stream ts.length = .ok t := h.begins.stream_length
  have hagain := hl.stream_eof hbehind ht
  rw [h.stream_look] at hagain
  exact Except.ok.inj hagain

end

/-! ## Parsers that fail -/

/-- A fault that a call met, and what it left. -/
inductive LeftBy (l : Lexer) : Fault → Lexer → Prop where
  | lex {ts : List Token} {e : LexError} {l' : Lexer} :
      l.LeftByLex ts e l' → LeftBy l (.lex e) l'
  | parse {ts : List Token} {t u : Token} {err : ParseError} {l' : Lexer} :
      l.LeftByParse ts t u err l' → LeftBy l (.parse err) l'

variable {l l' : Lexer} {t : Token} {e : LexError} {fault : Fault}

theorem leftBy_of_next_error (h : l.next = .error e l') : l.LeftBy (.lex e) l' := by
  obtain ⟨ts, hts, he, rfl⟩ := begins_of_next_error h
  exact .lex ⟨⟨hts, he⟩, rfl, rfl⟩

/-- A token that has been handed over and is then refused. -/
theorem leftBy_of_next (h : l.next = .ok t l') (w : Wanted) :
    l.LeftBy (.parse ⟨.unexpected t.lexeme w, t.pos⟩) l' := by
  obtain ⟨h₀, u, h₁, rfl⟩ := stream_of_next h
  have hbegins : l.Begins ([] ++ [t, u]) := begins_concat (begins_concat l.begins_nil h₀) h₁
  exact .parse ⟨hbegins, ⟨rfl, .inl ⟨w, rfl, rfl⟩⟩, rfl, rfl⟩

end Lexer

open Lexer

variable {l l' : Lexer} {fault : Fault}

/-- A parse that fails within its limit is what it would be without one. -/
theorem left_of_run {limit : Option Nat} {goal : Goal} {s : State}
    (h : run limit goal s l = .error fault l') (hdeep : ∀ p, fault ≠ .parse ⟨.tooDeep, p⟩) :
    l.LeftBy fault l' := by
  have hrun := comesTo_run goal s l
  rcases run_limit limit goal s l with hnone | ⟨s', l₁, -, -, hlimit⟩
  · rw [← hnone, h] at hrun
    cases hrun with
    | lexical hts he => exact .lex ⟨⟨hts, he⟩, rfl, rfl⟩
    | syntactic hts _ hf => exact .parse ⟨hts, feed_about hf, rfl, rfl⟩
  · rw [h] at hlimit
    cases hlimit
    exact absurd rfl (hdeep _)

theorem left_of_accept {α : Type} {gives : Token → Option α} {w : Wanted}
    (h : accept gives w l = .error fault l') : l.LeftBy fault l' := by
  unfold accept at h
  split at h
  · cases h
    exact leftBy_of_next_error ‹_›
  · split at h
    · cases h
    · cases h
      exact leftBy_of_next ‹_› w

theorem error_of_map {α β : Type} {f : α → β} {m : Parsing α}
    (h : (f <$> m) l = .error fault l') : m l = .error fault l' := by
  simp only [Functor.map, EStateM.map] at h
  split at h
  · cases h
  · rename_i hm
    cases h
    exact hm

theorem left_of_perform {c : Call} (hc : c.isParser = true) (h : c.perform l = .error fault l')
    (hdeep : ∀ p, fault ≠ .parse ⟨.tooDeep, p⟩) : l.LeftBy fault l' := by
  cases c with
  | peek | next | scan | tokenize | lexeme | advance | peekChar | name => cases hc
  | token f =>
    rw [Call.perform, token_eq] at h
    exact left_of_accept (error_of_map h)
  | ident =>
    rw [Call.perform, ident_eq] at h
    exact left_of_accept (error_of_map h)
  | simpleExpr | application | expr | letExpr | funExpr | program =>
    exact left_of_run (error_of_map h) hdeep

/-- **After a failure.** Let a parser fail within the nesting limit, wherever calls that take
tokens in order have led the lexer, errors included.  An error of the lexer is the first outcome
of the stream that is not a token; the cursor stands right behind the bad characters, the token
in front of them is kept for the next call to consider, and the stream goes on behind the error.
An error of syntax is about a token that has been handed over, with all tokens before it and no
other; the token behind it is read ahead, which behind the end of the text is the end again. -/
theorem failed_call {text : String} {c : Call} (hl : Reachable Call.isOrderly text l)
    (hc : c.isParser = true) (h : c.perform l = .error fault l')
    (hdeep : ∀ p, fault ≠ .parse ⟨.tooDeep, p⟩) :
    (∀ e, fault = .lex e → ∃ ts,
      (l.Begins ts ∧ l.stream ts.length = .error e) ∧
      l'.cursor = l.behind ts.length ∧ l'.cursor.JustRead e.pos e.cause.bad ∧
      (∀ n, l'.cursor.stream n = l.stream (ts.length + (n + 1))) ∧
      l'.look = ts.getLast? ∧
      ∀ t, ts.getLast? = some t →
        l'.peek = .ok t l' ∧
          ((∃ l₂, l'.next = .ok t l₂) ∨ ∃ e₂ l₂, l'.next = .error e₂ l₂ ∧ l₂.look = some t)) ∧
    (∀ err, fault = .parse err → ∃ ts t u,
      l.Begins (ts ++ [t, u]) ∧ err.About t ∧
      l'.cursor = l.behind (ts.length + 1) ∧ l'.cursor.JustRead u.pos u.lexeme.spelling ∧
      (∀ n, l'.stream n = l.stream (ts.length + 1 + n)) ∧
      l'.look = some u ∧ (t.lexeme = .eof → u = t)) := by
  have hleft := left_of_perform hc h hdeep
  constructor
  · rintro e rfl
    cases hleft with
    | @lex ts _ _ hlex =>
      exact ⟨ts, hlex.first, hlex.cursor, hlex.justRead, hlex.stream, hlex.look,
        fun t ht => hlex.again ht⟩
  · rintro err rfl
    cases hleft with
    | @parse ts t u _ _ hparse =>
      exact ⟨ts, t, u, hparse.begins, hparse.about, hparse.cursor, hparse.justRead, hparse.stream,
        hparse.look, hparse.eof hl.ends⟩

/-- A character that cannot be read behind an open parenthesis, which is kept. -/
theorem failed_call_in_argument :
    let l' : Lexer := ⟨(ofText "f (?").behind 2, some ⟨.lparen, ⟨1, 3⟩⟩⟩
    Call.expr.perform (ofText "f (?") = .error (.lex ⟨.invalidChar '?', ⟨1, 4⟩⟩) l' ∧
      l'.cursor.JustRead ⟨1, 4⟩ "?" ∧ l'.peek = .ok ⟨.lparen, ⟨1, 3⟩⟩ l' := by
  intro l'
  have hfirst : (ofText "f (?").next = .ok ⟨.ident "f", ⟨1, 1⟩⟩
      ⟨(ofText "f (?").behind 1, some ⟨.lparen, ⟨1, 3⟩⟩⟩ := rfl
  have hrun : run none .phrase start (ofText "f (?") =
      .error (.lex ⟨.invalidChar '?', ⟨1, 4⟩⟩) l' := by
    rw [run_of_feed rfl hfirst rfl]
    exact run_of_next_error rfl rfl
  have h : Call.expr.perform (ofText "f (?") = .error (.lex ⟨.invalidChar '?', ⟨1, 4⟩⟩) l' := by
    simp only [Call.perform, Parse.expr, Functor.map, EStateM.map, hrun]
  have hdeep : ∀ p, Fault.lex ⟨.invalidChar '?', ⟨1, 4⟩⟩ ≠ .parse ⟨.tooDeep, p⟩ := by simp
  obtain ⟨ts, -, -, hread, -, hlook, hagain⟩ :=
    (failed_call .start rfl h hdeep).1 ⟨.invalidChar '?', ⟨1, 4⟩⟩ rfl
  exact ⟨h, hread, (hagain _ hlook.symm).1⟩

end LetFun
