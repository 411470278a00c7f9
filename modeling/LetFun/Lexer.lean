import LetFun.Scan
/-!
# The lexer

A lexer is a cursor with room for one token read ahead.  `peek` fills the room
and `next` hands the token over and refills the room at once; the refill may
fail, and then the token stays where it was.  An error leaves a lexer in a
definite state from which every operation can go on.

Results:
* `next_ahead`: each token handed over other than the end of the text brings the
  end nearer, which is why `tokenize` stops.
-/

namespace LetFun

/-- A cursor, and the token read ahead of it if there is one. -/
structure Lexer where
  cursor : Cursor
  look : Option Token
deriving DecidableEq, Repr

/-- Operations that change a lexer, also when they fail. -/
abbrev Lexing := EStateM LexError Lexer

namespace Lexer

def ofText (s : String) : Lexer := ⟨Cursor.ofText s, none⟩

/-- Reads the token at the cursor; the token read ahead plays no part. -/
def scan : Lexing Token := fun l =>
  match l.cursor.scan with
  | .ok t c => .ok t { l with cursor := c }
  | .error e c => .error e { l with cursor := c }

/-- Reads a token ahead. -/
def fill : Lexing Token := fun l =>
  match l.cursor.scan with
  | .ok t c => .ok t ⟨c, some t⟩
  | .error e c => .error e { l with cursor := c }

/-- The next token, which stays in the lexer. -/
def peek : Lexing Token := fun l =>
  match l.look with
  | some t => .ok t l
  | none => fill l

/-- Hands over the next token and reads the one after it ahead. -/
def next : Lexing Token := do
  let t ← peek
  let _ ← fill
  return t

/-- An upper bound on the tokens that are left. -/
def ahead (l : Lexer) : Nat :=
  2 * l.cursor.rest.length +
    match l.look with
    | some t => if t.lexeme = .eof then 0 else 1
    | none => 0

theorem fill_ahead (l : Lexer) :
    match fill l with
    | .ok t l' => (t.lexeme = .eof ∧ l'.ahead = 0) ∨
        (l'.look = some t ∧ l'.ahead + 1 ≤ 2 * l.cursor.rest.length)
    | .error _ l' => l'.look = l.look ∧ l'.ahead + 2 ≤ l.ahead := by
  have h := l.cursor.scan_progress
  unfold fill
  split
  · next t l' hl =>
    split at hl
    · next t' c hc =>
      cases hl
      by_cases ht : t.lexeme = .eof
      · exact .inl ⟨ht, by simp [ahead, ht, Cursor.scan_eof hc ht]⟩
      · rw [hc] at h
        have := h ht
        exact .inr ⟨rfl, by simp only [ahead, ht, if_false]; omega⟩
    · cases hl
  · next e l' hl =>
    split at hl
    · cases hl
    · next e' c hc =>
      cases hl
      rw [hc] at h
      exact ⟨rfl, by simp only [ahead]; omega⟩

theorem ahead_of_look {l : Lexer} {t : Token} (h : l.look = some t) (ht : t.lexeme ≠ .eof) :
    l.ahead = 2 * l.cursor.rest.length + 1 := by
  simp [ahead, h, ht]

/-- Refilling behind a token that is not the end brings the end nearer. -/
theorem fill_ahead_lt {l l' : Lexer} {t t' : Token} (hl : l.look = some t)
    (ht : t.lexeme ≠ .eof) (h : fill l = .ok t' l') : l'.ahead < l.ahead := by
  have hf := fill_ahead l
  have ha := ahead_of_look hl ht
  rw [h] at hf
  rcases hf with ⟨_, hz⟩ | ⟨_, hle⟩ <;> omega

theorem next_eq (l : Lexer) : next l =
    match peek l with
    | .error e l => .error e l
    | .ok t l =>
      match fill l with
      | .error e l => .error e l
      | .ok _ l => .ok t l := by
  simp only [next, bind, EStateM.bind, pure, EStateM.pure]
  cases peek l with
  | error e l => rfl
  | ok t l => cases h : fill l <;> simp [h]

theorem next_ahead {l l' : Lexer} {t : Token} (h : next l = .ok t l') (ht : t.lexeme ≠ .eof) :
    l'.ahead < l.ahead := by
  rw [next_eq] at h
  cases hl : l.look with
  | some t₀ =>
    simp only [peek, hl] at h
    split at h
    · cases h
    · next hf =>
      cases h
      exact fill_ahead_lt hl ht hf
  | none =>
    simp only [peek, hl] at h
    have hf := fill_ahead l
    split at h
    · cases h
    · next t₁ l₁ h₁ =>
      rw [h₁] at hf
      split at h
      · cases h
      · next h₂ =>
        cases h
        rcases hf with ⟨he, _⟩ | ⟨hlook, hle⟩
        · exact absurd he ht
        · have h₃ := fill_ahead_lt hlook ht h₂
          have h₄ : l.ahead = 2 * l.cursor.rest.length := by simp [ahead, hl]
          omega

/-- Hands over all tokens that are left, the end of the text included, behind those of `done`,
which come last first. -/
def drain (done : List Token) (l : Lexer) : EStateM.Result LexError Lexer (List Token) :=
  match _h : next l with
  | .error e l => .error e l
  | .ok t l =>
    if _ht : t.lexeme = .eof then .ok (t :: done).reverse l
    else drain (t :: done) l
termination_by l.ahead
decreasing_by exact next_ahead _h _ht

/-- Hands over all tokens that are left, the end of the text included. -/
def tokenize : Lexing (List Token) := drain []

/-- Takes the next character into the current token and answers it. -/
def advance : Lexing (Option Char) := fun l =>
  .ok l.cursor.char? { l with cursor := l.cursor.advance }

/-- The next character. -/
def peekChar : Lexing (Option Char) := fun l => .ok l.cursor.char? l

/-- The text of the current token. -/
def lexeme : Lexing String := fun l => .ok l.cursor.lexeme l

/-- Takes the name characters at the cursor into the current token and answers its text. -/
def name : Lexing String := fun l =>
  let cursor := l.cursor.advanceWhile isNameChar
  .ok cursor.lexeme { l with cursor }

end Lexer

/-- The tokens of a text, the end of the text included. -/
def lex (text : String) : Except LexError (List Token) :=
  match Lexer.tokenize (Lexer.ofText text) with
  | .ok ts _ => .ok ts
  | .error e _ => .error e

end LetFun
