import LetFun.Cursor
import LetFun.LexError
import LetFun.Names
/-!
# Scanning one token

`Cursor.scan` skips blanks and reads the longest token at the cursor.  The
cursor moves whether or not a token is found: after an error it stands behind
the bad characters, so that scanning again goes on with the text after them.

Results:
* `scan_progress`: a scan that finds a token, or fails, shortens the rest of the
  text; only the end of the text leaves it as it is.
* `scan_eof`: the end of the text is found only there.
-/

namespace LetFun

/-- The characters that separate tokens: space, newline and tab. -/
def isBlank (c : Char) : Bool := c = ' ' || c = '\n' || c = '\t'

/-- What the first character of a token decides. -/
inductive Opening where
  /-- The whole token is this character. -/
  | mark (l : Lexeme)
  /-- An arrow, if the character after it agrees. -/
  | dash
  /-- A keyword or an identifier. -/
  | word
  /-- A constructor. -/
  | con
  /-- No token begins with this character. -/
  | invalid
deriving DecidableEq, Repr

def Opening.of (c : Char) : Opening :=
  if c = '(' then .mark .lparen
  else if c = ')' then .mark .rparen
  else if c = '=' then .mark .equal
  else if c = '-' then .dash
  else if isWordStart c then .word
  else if c.isUpper then .con
  else .invalid

namespace Cursor

/-- Skips blanks and starts a token at the character after them. -/
def skipBlanks (c : Cursor) : Cursor := (c.advanceWhile isBlank).mark

/-- Reads the token whose first character is `ch`, the next character of the text. -/
def scanFrom (ch : Char) : EStateM LexError Cursor Token := fun c =>
  let first := c.advance
  match Opening.of ch with
  | .mark l => .ok ⟨l, c.pos⟩ first
  | .dash =>
    if first.char? = some '>' then .ok ⟨.arrow, c.pos⟩ first.advance
    else .error ⟨.brokenArrow first.char?, c.pos⟩ first.advance
  | .word =>
    let last := first.advanceWhile isNameChar
    .ok ⟨.ofWord last.lexeme, c.pos⟩ last
  | .con =>
    let last := first.advanceWhile isNameChar
    .ok ⟨.con last.lexeme, c.pos⟩ last
  | .invalid => .error ⟨.invalidChar ch, c.pos⟩ first

/-- Reads the next token. -/
def scan : EStateM LexError Cursor Token := fun c =>
  let c := c.skipBlanks
  match c.char? with
  | none => .ok ⟨.eof, c.pos⟩ c
  | some ch => scanFrom ch c

theorem rest_skipBlanks_length_le (c : Cursor) : c.skipBlanks.rest.length ≤ c.rest.length := by
  simpa [skipBlanks] using c.rest_advanceWhile_length_le isBlank

theorem rest_ne_nil {c : Cursor} {ch : Char} (h : c.char? = some ch) : c.rest ≠ [] := by
  intro h0; simp [char?, h0] at h

/-- Whatever `scanFrom` answers, it has read the character that it was given. -/
theorem scanFrom_progress (ch : Char) {c : Cursor} (h : c.rest ≠ []) :
    match scanFrom ch c with
    | .ok _ c' | .error _ c' => c'.rest.length < c.rest.length := by
  have h1 : c.advance.rest.length < c.rest.length := by
    rw [rest_advance_length]
    have := List.length_pos_iff.2 h
    omega
  have h2 := c.advance.rest_advance_length
  have h3 := c.advance.rest_advanceWhile_length_le isNameChar
  simp only [scanFrom]
  split <;> rename_i heq <;> (repeat' split at heq) <;> cases heq <;> omega

theorem scanFrom_ne_eof {ch : Char} {c c' : Cursor} {t : Token}
    (h : scanFrom ch c = .ok t c') : t.lexeme ≠ .eof := by
  unfold scanFrom at h
  simp only [Opening.of, Lexeme.ofWord] at h
  repeat' split at h
  all_goals grind

theorem scan_eof {c c' : Cursor} {t : Token} (h : c.scan = .ok t c') (ht : t.lexeme = .eof) :
    c'.rest = [] := by
  unfold scan at h
  simp only at h
  split at h
  · next hc => cases h; simpa [char?] using hc
  · exact absurd ht (scanFrom_ne_eof h)

theorem scan_progress (c : Cursor) :
    match c.scan with
    | .ok t c' => t.lexeme ≠ .eof → c'.rest.length < c.rest.length
    | .error _ c' => c'.rest.length < c.rest.length := by
  have hle := c.rest_skipBlanks_length_le
  unfold scan
  simp only
  split
  · next t c' h =>
    intro ht
    split at h
    · cases h; exact absurd rfl ht
    · next ch hc =>
      have := scanFrom_progress ch (rest_ne_nil hc)
      rw [h] at this
      simp only at this
      omega
  · next e c' h =>
    split at h
    · cases h
    · next ch hc =>
      have := scanFrom_progress ch (rest_ne_nil hc)
      rw [h] at this
      simp only at this
      omega

end Cursor
end LetFun
