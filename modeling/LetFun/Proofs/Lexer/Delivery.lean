import LetFun.Lexer.Ledger
import LetFun.Proofs.Lexer.Reading
/-!
# What a lexer hands over

However a lexer is drawn on, and however often it fails, its ledger balances: the
tokens taken and the one read ahead are what the scans so far have found, in
order, and the errors met are where they have failed.  So no token is lost,
doubled or moved, and no error is met twice.

Every draw is made of refills (`Lexer.fill`), each of which is one scan: a refill
that finds a token hands over the one read ahead before it, and one that fails
leaves that token where it was.

Results:
* `lexeme_of_scan`: behind a token that is scanned the cursor holds its spelling.
* `Balanced.draw`, `Balanced.draws`: a draw keeps the ledger balanced, and so does a run of draws.
* `draws_exactly_once`: each outcome of a scan is delivered exactly once.
-/
namespace LetFun

namespace Cursor

/-! ## The stream, one scan further -/

theorem after_succ (c : Cursor) (n : Nat) : c.after (n + 1) = (c.after n).scanned := by
  induction n generalizing c with
  | zero => rfl
  | succ n ih => exact ih c.scanned

section
variable {c c' : Cursor} {n : Nat} {t : Token} {e : LexError}

theorem found_of_ok (h : c.stream n = .ok t) : c.found (n + 1) = c.found n ++ [t] := by
  simp [found, List.range_succ, h]

theorem found_of_error (h : c.stream n = .error e) : c.found (n + 1) = c.found n := by
  simp [found, List.range_succ, h]

theorem failed_of_ok (h : c.stream n = .ok t) : c.failed (n + 1) = c.failed n := by
  simp [failed, List.range_succ, h]

theorem failed_of_error (h : c.stream n = .error e) : c.failed (n + 1) = c.failed n ++ [e] := by
  simp [failed, List.range_succ, h]

theorem stream_of_scan_ok (h : (c.after n).scan = .ok t c') :
    c.stream n = .ok t ∧ c.after (n + 1) = c' := by
  refine ⟨by simp only [stream, outcome, h], ?_⟩
  rw [after_succ, scanned, h]

theorem stream_of_scan_error (h : (c.after n).scan = .error e c') :
    c.stream n = .error e ∧ c.after (n + 1) = c' := by
  refine ⟨by simp only [stream, outcome, h], ?_⟩
  rw [after_succ, scanned, h]

/-! ## The spelling at the cursor -/

theorem before_advance (c : Cursor) : c.advance.before = c.before := by
  unfold advance; split <;> rfl

/-- Reading a token takes characters and moves no other. -/
theorem before_scanFrom {ch : Char} (h : scanFrom ch c = .ok t c') :
    c'.before = c.before ∧ c'.text = c.text := by
  have hword : (c.advance.advanceWhile isNameChar).before = c.before := c.before_advance
  simp only [scanFrom] at h
  split at h
  · cases h; exact ⟨c.before_advance, c.text_advance⟩
  · split at h
    · cases h; exact ⟨by rw [before_advance, before_advance], by simp⟩
    · cases h
  · cases h; exact ⟨hword, by simp⟩
  · cases h; exact ⟨hword, by simp⟩
  · cases h

/-- Behind a token that is scanned the cursor holds its spelling. -/
theorem lexeme_of_scan (h : c.scan = .ok t c') : c'.lexeme = t.lexeme.spelling := by
  unfold scan at h
  simp only at h
  split at h
  · cases h; rfl
  · rename_i ch hch
    obtain ⟨hbefore, htext⟩ := before_scanFrom h
    have hrest : c.skipBlanks.rest = t.lexeme.spelling.toList ++ c'.rest :=
      (spelled_of_scanFrom rfl hch h).rest_eq
    have htaken : c.skipBlanks.taken = [] := rfl
    simp only [text, hbefore, htaken, hrest, List.reverse_nil, List.append_nil, List.append_assoc,
      List.append_cancel_left_eq, List.append_cancel_right_eq] at htext
    rw [lexeme, htext, String.ofList_toList]

end
end Cursor

/-! ## Balance -/

/-- The account of a ledger agrees with the scans of its text. -/
structure Ledger.Balanced (text : String) (b : Ledger) : Prop where
  cursor : b.lexer.cursor = (Cursor.ofText text).after b.scans
  found : b.taken ++ b.lexer.look.toList = (Cursor.ofText text).found b.scans
  failed : b.refused = (Cursor.ofText text).failed b.scans
  /-- The token of the last scan, if it found one, is the one read ahead. -/
  last : ∀ n t, b.scans = n + 1 → (Cursor.ofText text).stream n = .ok t → b.lexer.look = some t

namespace Ledger

variable {text : String} {b : Ledger} {l' : Lexer} {t : Token} {e : LexError}

theorem balanced_ofText (text : String) : Balanced text (ofText text) :=
  ⟨rfl, rfl, rfl, fun n t hn => by cases hn⟩

/-- A refill that finds a token hands over the one before it. -/
theorem Balanced.fill_ok (h : Balanced text b) (hf : b.lexer.fill = .ok t l') :
    l'.look = some t ∧
      Balanced text ⟨l', b.taken ++ b.lexer.look.toList, b.refused, b.scans + 1⟩ := by
  unfold Lexer.fill at hf
  split at hf
  · rename_i u c hs
    cases hf
    rw [h.cursor] at hs
    obtain ⟨hstream, hafter⟩ := Cursor.stream_of_scan_ok hs
    refine ⟨rfl, hafter.symm, ?_, ?_, fun n v hn hv => ?_⟩
    · rw [Cursor.found_of_ok hstream, ← h.found]
      rfl
    · rw [Cursor.failed_of_ok hstream, ← h.failed]
    · cases hn
      rw [hstream] at hv
      cases hv
      rfl
  · cases hf

/-- A refill that fails leaves the token read ahead where it was. -/
theorem Balanced.fill_error (h : Balanced text b) (hf : b.lexer.fill = .error e l') :
    Balanced text ⟨l', b.taken, b.refused ++ [e], b.scans + 1⟩ := by
  unfold Lexer.fill at hf
  split at hf
  · cases hf
  · rename_i e' c hs
    cases hf
    rw [h.cursor] at hs
    obtain ⟨hstream, hafter⟩ := Cursor.stream_of_scan_error hs
    refine ⟨hafter.symm, ?_, ?_, fun n v hn hv => ?_⟩
    · rw [Cursor.found_of_error hstream, ← h.found]
    · rw [Cursor.failed_of_error hstream, ← h.failed]
    · cases hn
      rw [hstream] at hv
      cases hv

/-- A draw on a lexer that has read a token ahead scans at most behind it. -/
theorem Balanced.draw_of_look (h : Balanced text b) (hl : b.lexer.look = some t) (d : Draw) :
    Balanced text (b.draw d) := by
  have hp : b.lexer.peek = .ok t b.lexer := by simp [Lexer.peek, hl]
  cases d with
  | peek =>
    have hdraw : b.draw .peek = b := by simp [draw, Draw.perform, Draw.scans, hp, hl]
    rw [hdraw]
    exact h
  | next =>
    cases hf : b.lexer.fill with
    | ok u l' =>
      have hb := (h.fill_ok hf).2
      simpa [draw, Draw.perform, Draw.scans, Lexer.next_eq, hp, hf, hl] using hb
    | error e l' =>
      have hb := h.fill_error hf
      simpa [draw, Draw.perform, Draw.scans, Lexer.next_eq, hp, hf, hl] using hb

/-- A draw on a lexer with no token read ahead scans for one first, and does no more if that
fails. -/
theorem Balanced.draw_of_empty (h : Balanced text b) (hl : b.lexer.look = none) (d : Draw) :
    Balanced text (b.draw d) := by
  have hp : b.lexer.peek = b.lexer.fill := by simp [Lexer.peek, hl]
  cases hf : b.lexer.fill with
  | error e l' =>
    have hb := h.fill_error hf
    cases d with
    | peek => simpa [draw, Draw.perform, Draw.scans, hp, hf, hl] using hb
    | next => simpa [draw, Draw.perform, Draw.scans, Lexer.next_eq, hp, hf, hl] using hb
  | ok t l₁ =>
    obtain ⟨hl₁, h₁⟩ := h.fill_ok hf
    cases d with
    | peek => simpa [draw, Draw.perform, Draw.scans, hp, hf, hl] using h₁
    | next =>
      cases hf₂ : l₁.fill with
      | ok u l₂ =>
        have hb := (h₁.fill_ok hf₂).2
        simpa [draw, Draw.perform, Draw.scans, Lexer.next_eq, hp, hf, hl, hf₂, hl₁] using hb
      | error e l₂ =>
        have hb := h₁.fill_error hf₂
        simpa [draw, Draw.perform, Draw.scans, Lexer.next_eq, hp, hf, hl, hf₂, hl₁] using hb

theorem Balanced.draw (h : Balanced text b) (d : Draw) : Balanced text (b.draw d) := by
  cases hl : b.lexer.look with
  | none => exact h.draw_of_empty hl d
  | some t => exact h.draw_of_look hl d

theorem Balanced.draws (h : Balanced text b) (ds : List Draw) : Balanced text (b.draws ds) := by
  induction ds generalizing b with
  | nil => exact h
  | cons d ds ih => exact ih (h.draw d)

/-- The cursor holds the token of the last scan, if that found one. -/
theorem Balanced.lexeme (h : Balanced text b) {n : Nat} (hn : b.scans = n + 1)
    (ht : (Cursor.ofText text).stream n = .ok t) :
    b.lexer.lexeme = .ok t.lexeme.spelling b.lexer := by
  obtain ⟨c, hs⟩ : ∃ c, ((Cursor.ofText text).after n).scan = .ok t c := by
    simp only [Cursor.stream, Cursor.outcome] at ht
    split at ht
    · rename_i c hs
      cases ht
      exact ⟨c, hs⟩
    · cases ht
  have hc : b.lexer.cursor = c := by
    rw [h.cursor, hn]
    exact (Cursor.stream_of_scan_ok hs).2
  rw [Lexer.lexeme, hc, Cursor.lexeme_of_scan hs]

end Ledger

theorem Lexer.look_of_fill_error {l l' : Lexer} {e : LexError} (h : l.fill = .error e l') :
    l'.look = l.look := by
  unfold fill at h
  split at h
  · cases h
  · cases h; rfl

/-- An error in the refill leaves the token read ahead where it was. -/
theorem Lexer.look_of_next_error {l l' : Lexer} {t : Token} {e : LexError}
    (h : l.next = .error e l') (hl : l.look = some t) : l'.look = some t := by
  have hp : l.peek = .ok t l := by simp [peek, hl]
  rw [next_eq, hp] at h
  cases hf : l.fill with
  | ok u l₁ => simp [hf] at h
  | error e₁ l₁ =>
    simp only [hf] at h
    cases h
    rw [look_of_fill_error hf, hl]

/-- **Exactly once.** However a lexer is drawn on, also after errors, the tokens taken and the one
read ahead are what the scans so far have found, and the errors are where they have failed; a
draw that fails keeps the token read ahead; and behind a scan that has found a token, that token
is read ahead and its spelling is at the cursor. -/
theorem draws_exactly_once (text : String) (ds : List Draw) :
    let b := (Ledger.ofText text).draws ds
    let c := Cursor.ofText text
    b.lexer.cursor = c.after b.scans ∧
    b.taken ++ b.lexer.look.toList = c.found b.scans ∧
    b.refused = c.failed b.scans ∧
    (∀ n t, b.scans = n + 1 → c.stream n = .ok t →
      b.lexer.look = some t ∧ b.lexer.lexeme = .ok t.lexeme.spelling b.lexer) ∧
    ∀ e l' t, b.lexer.next = .error e l' → b.lexer.look = some t → l'.look = some t := by
  intro b c
  have hb : Ledger.Balanced text b := (Ledger.balanced_ofText text).draws ds
  exact ⟨hb.cursor, hb.found, hb.failed, fun n t hn ht => ⟨hb.last n t hn ht, hb.lexeme hn ht⟩,
    fun e l' t he hl => Lexer.look_of_next_error he hl⟩

/-- In `x - y` the first attempt to take `x` meets the dash behind it; the second one takes it,
and reads the `y` ahead. -/
theorem draws_exactly_once_retry :
    let b := (Ledger.ofText "x - y").draws [.next, .peek, .next]
    b.taken = [⟨.ident "x", ⟨1, 1⟩⟩] ∧ b.refused = [⟨.brokenArrow (some ' '), ⟨1, 3⟩⟩] ∧
      b.lexer.look = some ⟨.ident "y", ⟨1, 5⟩⟩ ∧ b.lexer.lexeme = .ok "y" b.lexer ∧
      (Cursor.ofText "x - y").found 3 = [⟨.ident "x", ⟨1, 1⟩⟩, ⟨.ident "y", ⟨1, 5⟩⟩] := by
  intro b
  have hscans : b.scans = 3 := by decide +kernel
  have htaken : b.taken = [⟨.ident "x", ⟨1, 1⟩⟩] := by decide +kernel
  have hrefused : b.refused = [⟨.brokenArrow (some ' '), ⟨1, 3⟩⟩] := by decide +kernel
  have hlast : (Cursor.ofText "x - y").stream 2 = .ok ⟨.ident "y", ⟨1, 5⟩⟩ := rfl
  obtain ⟨-, hfound, -, hlexeme, -⟩ := draws_exactly_once "x - y" [.next, .peek, .next]
  obtain ⟨hlook, hspelled⟩ := hlexeme 2 _ hscans hlast
  have hall : (Cursor.ofText "x - y").found b.scans = b.taken ++ b.lexer.look.toList := hfound.symm
  have hahead : b.lexer.look = some ⟨.ident "y", ⟨1, 5⟩⟩ := hlook
  rw [hscans, htaken, hahead] at hall
  exact ⟨htaken, hrefused, hlook, hspelled, hall⟩

end LetFun
