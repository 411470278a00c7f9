import LetFun.Call.Reachable
import LetFun.Lexer.Stream
import LetFun.Proofs.Lexer.Outcomes
import LetFun.Proofs.Parse.Limit
/-!
# The invariant of a lexer

Whatever is called on a lexer, also after errors, its cursor does only two things:
it takes the next character, and it starts a new token where it stands
(`Cursor.Moves`).  So the text stays the same, no offset decreases, and the position
is that of the text behind the cursor.

An operation `Steers` if it moves the cursor in no other way, whether it succeeds or
fails.  Operations that steer compose, so the parsers steer since the lexer does.

Results:
* `Moves.start_le`, `Moves.offset_le`, `Moves.placed`: what a move keeps.
* `steers_run`, `steers_perform`: parses steer, and so does every call.
* `lexer_invariant`: the invariant of every lexer that calls lead to.
-/
namespace LetFun

/-- The state in which an operation ends, with an error or without one. -/
def endState {ε σ α : Type} : EStateM.Result ε σ α → σ
  | .ok _ s | .error _ s => s

namespace Cursor

/-! ## Moves -/

/-- The cursors that starting tokens and taking characters lead to. -/
inductive Moves (c : Cursor) : Cursor → Prop where
  | refl : Moves c c
  | mark {d : Cursor} : Moves c d → Moves c d.mark
  | advance {d : Cursor} : Moves c d → Moves c d.advance

theorem Moves.trans {c d e : Cursor} (h₁ : Moves c d) (h₂ : Moves d e) : Moves c e := by
  induction h₂ with
  | refl => exact h₁
  | mark _ ih => exact .mark ih
  | advance _ ih => exact .advance ih

/-- Taking a run of characters is taking one after another. -/
theorem moves_advanceWhile (p : Char → Bool) (c : Cursor) : Moves c (c.advanceWhile p) := by
  obtain ⟨before, taken, rest, pos⟩ := c
  induction rest generalizing taken pos with
  | nil => exact .refl
  | cons ch rest ih =>
    by_cases hp : p ch = true
    · have hfirst : Moves ⟨before, taken, ch :: rest, pos⟩
          ⟨before, ch :: taken, rest, pos.next ch⟩ := .advance .refl
      have hstep : advanceWhile p ⟨before, taken, ch :: rest, pos⟩ =
          advanceWhile p ⟨before, ch :: taken, rest, pos.next ch⟩ := by
        simp [advanceWhile, hp]
      rw [hstep]
      exact hfirst.trans (ih _ _)
    · have hstay : advanceWhile p ⟨before, taken, ch :: rest, pos⟩ =
          ⟨before, taken, ch :: rest, pos⟩ := by
        simp [advanceWhile, hp]
      rw [hstay]
      exact .refl

theorem moves_skipBlanks (c : Cursor) : Moves c c.skipBlanks := .mark (c.moves_advanceWhile isBlank)

theorem moves_scanFrom (ch : Char) (c : Cursor) : Moves c (endState (scanFrom ch c)) := by
  have hone : Moves c c.advance := .advance .refl
  have htwo : Moves c c.advance.advance := .advance hone
  have hword : Moves c (c.advance.advanceWhile isNameChar) :=
    hone.trans (c.advance.moves_advanceWhile isNameChar)
  simp only [scanFrom]
  cases Opening.of ch with
  | mark l => exact hone
  | dash => simp only; split <;> exact htwo
  | word => exact hword
  | con => exact hword
  | invalid => exact hone

theorem moves_scan (c : Cursor) : Moves c (endState c.scan) := by
  have hskip := c.moves_skipBlanks
  simp only [scan]
  split
  · exact hskip
  · exact hskip.trans (moves_scanFrom _ _)

/-! ## What moves keep -/

/-- The characters behind the cursor. -/
def read (c : Cursor) : List Char := c.before.reverse ++ c.taken.reverse

theorem read_length (c : Cursor) : c.read.length = c.offset := by simp [read, offset]

theorem read_append_rest (c : Cursor) : c.read ++ c.rest = c.text := rfl

theorem read_eq_take (c : Cursor) : c.read = c.text.take c.offset := by
  rw [← read_append_rest, ← read_length, List.take_left']
  rfl

/-- The current token is what is read from its start on. -/
theorem taken_eq_drop (c : Cursor) : c.taken.reverse = (c.text.take c.offset).drop c.start := by
  rw [← read_eq_take, read, start, ← List.length_reverse, List.drop_left']
  rfl

theorem start_le_offset (c : Cursor) : c.start ≤ c.offset := Nat.le_add_right ..

theorem offset_le_length (c : Cursor) : c.offset ≤ c.text.length := by
  rw [← read_length, ← read_append_rest, List.length_append]
  exact Nat.le_add_right ..

/-- The position of the cursor is that of the text behind it. -/
def Placed (c : Cursor) : Prop := c.pos = Pos.origin.after c.read

theorem placed_ofText (text : String) : (ofText text).Placed := rfl

theorem Placed.mark {c : Cursor} (h : c.Placed) : c.mark.Placed := by
  simpa [Placed, Cursor.mark, read] using h

theorem Placed.advance {c : Cursor} (h : c.Placed) : c.advance.Placed := by
  unfold Cursor.advance
  split
  · exact h
  · rename_i ch rest hr
    have hp : c.pos.next ch = (Pos.origin.after c.read).after [ch] := by rw [h]; rfl
    rw [Placed, hp, ← Pos.after_append]
    simp [read]

theorem offset_mark (c : Cursor) : c.mark.start = c.offset ∧ c.mark.offset = c.offset := by
  simp [mark, start, offset, Nat.add_comm]

theorem offset_advance (c : Cursor) :
    c.advance.start = c.start ∧ c.offset ≤ c.advance.offset := by
  unfold advance
  split
  · exact ⟨rfl, Nat.le_refl _⟩
  · exact ⟨rfl, Nat.le_succ _⟩

namespace Moves

variable {c d : Cursor} (h : Moves c d)
include h

theorem text_eq : d.text = c.text := by
  induction h with
  | refl => rfl
  | mark _ ih => rw [text_mark, ih]
  | advance _ ih => rw [text_advance, ih]

theorem placed (hc : c.Placed) : d.Placed := by
  induction h with
  | refl => exact hc
  | mark _ ih => exact ih.mark
  | advance _ ih => exact ih.advance

theorem offset_le : c.offset ≤ d.offset := by
  induction h with
  | refl => exact Nat.le_refl _
  | @mark d _ ih => rw [d.offset_mark.2]; exact ih
  | @advance d _ ih => exact Nat.le_trans ih d.offset_advance.2

theorem start_le : c.start ≤ d.start := by
  induction h with
  | refl => exact Nat.le_refl _
  | @mark d _ ih => rw [d.offset_mark.1]; exact Nat.le_trans ih d.start_le_offset
  | @advance d _ ih => rw [d.offset_advance.1]; exact ih

end Moves
end Cursor

/-! ## Operations that steer -/

/-- An operation moves the cursor in no other way, whether it succeeds or fails. -/
def Steers {ε α : Type} (m : EStateM ε Lexer α) : Prop :=
  ∀ l : Lexer, l.cursor.Moves (endState (m l)).cursor

section
variable {ε α β : Type}

theorem steers_pure (a : α) : Steers (pure a : EStateM ε Lexer α) := fun _ => .refl

theorem steers_throw (e : ε) : Steers (throw e : EStateM ε Lexer α) := fun _ => .refl

theorem Steers.bind {m : EStateM ε Lexer α} {f : α → EStateM ε Lexer β} (hm : Steers m)
    (hf : ∀ a, Steers (f a)) : Steers (m >>= f) := by
  intro l
  have h := hm l
  simp only [Bind.bind, EStateM.bind]
  cases hr : m l with
  | ok a l' =>
    rw [hr] at h
    exact h.trans (hf a l')
  | error e l' =>
    rw [hr] at h
    exact h

/-- What ends in the states of an operation that steers, steers, whatever it answers. -/
theorem Steers.of_same {ε' : Type} {m : EStateM ε Lexer α} {m' : EStateM ε' Lexer β} (hm : Steers m)
    (h : ∀ l, endState (m' l) = endState (m l)) : Steers m' := by
  intro l
  rw [h l]
  exact hm l

theorem Steers.map {m : EStateM ε Lexer α} (hm : Steers m) (f : α → β) : Steers (f <$> m) := by
  refine hm.of_same fun l => ?_
  simp only [Functor.map, EStateM.map]
  cases m l <;> rfl

end

namespace Lexer

theorem steers_scan : Steers scan := by
  intro l
  have h := l.cursor.moves_scan
  unfold scan
  cases hr : l.cursor.scan <;> rw [hr] at h <;> exact h

theorem steers_fill : Steers fill := by
  intro l
  have h := l.cursor.moves_scan
  unfold fill
  cases hr : l.cursor.scan <;> rw [hr] at h <;> exact h

theorem steers_peek : Steers peek := by
  intro l
  unfold peek
  split
  · exact .refl
  · exact steers_fill l

theorem steers_next : Steers next :=
  steers_peek.bind fun _ => steers_fill.bind fun _ => steers_pure _

theorem steers_drain (done : List Token) : Steers (drain done) := by
  intro l
  induction done, l using drain.induct with
  | case1 done l e l' hn =>
    have h := steers_next l
    rw [hn] at h
    rw [drain_error hn]
    exact h
  | case2 done l t l' hn ht =>
    have h := steers_next l
    rw [hn] at h
    rw [drain_last hn ht]
    exact h
  | case3 done l t l' hn ht ih =>
    have h := steers_next l
    rw [hn] at h
    rw [drain_next hn ht]
    exact h.trans ih

theorem steers_lexeme : Steers Lexer.lexeme := fun _ => .refl

theorem steers_peekChar : Steers peekChar := fun _ => .refl

theorem steers_advance : Steers Lexer.advance := fun _ => .advance .refl

theorem steers_name : Steers name := fun l => l.cursor.moves_advanceWhile isNameChar

end Lexer

namespace Parse

theorem steers_nextToken : Steers nextToken := by
  refine Lexer.steers_next.of_same fun l => ?_
  unfold nextToken
  cases l.next <;> rfl

theorem steers_token (f : Form) : Steers (token f) := by
  refine steers_nextToken.bind fun t => ?_
  split
  · exact steers_pure t
  · exact steers_throw _

theorem steers_ident : Steers ident := by
  refine steers_nextToken.bind fun t => ?_
  split
  · exact steers_pure _
  · exact steers_throw _

theorem steers_run (limit : Option Nat) (goal : Goal) (s : State) : Steers (run limit goal s) := by
  intro l
  have h := Lexer.steers_next l
  induction s, l using run.induct limit goal with
  | case1 s l e hr => rw [run_of_result hr]; exact .refl
  | case2 s l hr e l' hn => rw [hn] at h; rw [run_of_next_error hr hn]; exact h
  | case3 s l hr t l' hn e hf => rw [hn] at h; rw [run_of_feed_error hr hn hf]; exact h
  | case4 s l hr t l' hn s' hf hp =>
    rw [hn] at h
    rw [run_of_feed hr hn hf, if_pos hp]
    exact h
  | case5 s l hr t l' hn s' hf hp ih =>
    rw [hn] at h
    rw [run_of_feed hr hn hf, if_neg hp]
    exact h.trans (ih (Lexer.steers_next l'))

end Parse

namespace Call

theorem steers_lifted {α : Type} (wrap : α → Answer) {m : Lexing α} (hm : Steers m) :
    Steers (lifted wrap m) := by
  refine hm.of_same fun l => ?_
  unfold lifted
  cases m l <;> rfl

theorem steers_perform (c : Call) : Steers c.perform := by
  cases c with
  | peek => exact steers_lifted _ Lexer.steers_peek
  | next => exact steers_lifted _ Lexer.steers_next
  | scan => exact steers_lifted _ Lexer.steers_scan
  | tokenize => exact steers_lifted _ (Lexer.steers_drain [])
  | lexeme => exact steers_lifted _ Lexer.steers_lexeme
  | advance => exact steers_lifted _ Lexer.steers_advance
  | peekChar => exact steers_lifted _ Lexer.steers_peekChar
  | name => exact steers_lifted _ Lexer.steers_name
  | token f => exact (Parse.steers_token f).map _
  | ident => exact Parse.steers_ident.map _
  | simpleExpr | application | expr | letExpr | funExpr | program =>
    exact (Parse.steers_run _ _ _).map _

theorem moves_reply (c : Call) (l : Lexer) : l.cursor.Moves (c.reply l).2.cursor := by
  have h := c.steers_perform l
  unfold reply
  cases hr : c.perform l <;> rw [hr] at h <;> exact h

/-- Whether a call leaves a token that is read ahead where it is. -/
def isQuiet : Call → Bool
  | peek | scan | lexeme | advance | peekChar | name => true
  | _ => false

theorem look_of_quiet {c : Call} {l : Lexer} {t : Token} (hc : c.isQuiet = true)
    (hl : l.look = some t) : (c.reply l).2.look = some t := by
  cases c with
  | peek => simp [reply, perform, lifted, Lexer.peek, hl]
  | scan =>
    simp only [reply, perform, lifted, Lexer.scan]
    cases l.cursor.scan <;> exact hl
  | lexeme | advance | peekChar | name => exact hl
  | _ => cases hc

end Call

/-- Every lexer that calls lead to is led there by moves from the start of the text. -/
theorem Lexer.Reachable.moves {allowed : Call → Bool} {text : String} {l : Lexer}
    (h : Reachable allowed text l) : (Cursor.ofText text).Moves l.cursor := by
  induction h with
  | start => exact .refl
  | @call l c _ _ ih => exact ih.trans (c.moves_reply l)

/-- **The invariant of a lexer.** Whatever calls lead to a lexer, also by way of errors: the token
starts before the cursor and both stand in the text, the position counts the lines and columns
of the text behind the cursor, and the text of the current token is the part between the two;
and no further call moves either of them back or, unless it takes tokens, replaces a token that
is read ahead. -/
theorem lexer_invariant {text : String} {l : Lexer}
    (h : Lexer.Reachable (fun _ => true) text l) :
    l.cursor.text = text.toList ∧
    l.cursor.start ≤ l.cursor.offset ∧ l.cursor.offset ≤ text.length ∧
    l.cursor.pos = Pos.behind (text.toList.take l.cursor.offset) ∧
    l.lexeme =
      .ok (String.ofList ((text.toList.take l.cursor.offset).drop l.cursor.start)) l ∧
    ∀ c : Call,
      l.cursor.start ≤ (c.reply l).2.cursor.start ∧
      l.cursor.offset ≤ (c.reply l).2.cursor.offset ∧
      (c.isQuiet = true → ∀ t, l.look = some t → (c.reply l).2.look = some t) := by
  have htext : l.cursor.text = text.toList := h.moves.text_eq
  refine ⟨htext, l.cursor.start_le_offset, ?_, ?_, ?_, fun c => ?_⟩
  · rw [← String.length_toList, ← htext]
    exact l.cursor.offset_le_length
  · rw [← htext, ← Cursor.read_eq_take, ← Pos.after_origin]
    exact h.moves.placed (Cursor.placed_ofText text)
  · rw [← htext, ← Cursor.taken_eq_drop]
    rfl
  · exact ⟨(c.moves_reply l).start_le, (c.moves_reply l).offset_le,
      fun hc t ht => Call.look_of_quiet hc ht⟩

/-- In `x\n-y` the refill behind `x` fails at a dash that begins no arrow and has read the whole
text; looking ahead then shows the `x`, which was not lost. -/
theorem lexer_invariant_failed :
    let l := (Call.next.reply (Lexer.ofText "x\n-y")).2
    Lexer.Reachable (fun _ => true) "x\n-y" l ∧
      (l.cursor.start = 2 ∧ l.cursor.offset = 4) ∧
      l.cursor.pos = Pos.behind "x\n-y".toList ∧ l.cursor.pos = ⟨2, 3⟩ ∧
      l.lexeme = .ok "-y" l ∧ (Call.peek.reply l).2.look = some ⟨.ident "x", ⟨1, 1⟩⟩ := by
  intro l
  have hl : Lexer.Reachable (fun _ => true) "x\n-y" l := .call .start rfl
  obtain ⟨-, -, -, hpos, hlexeme, hcalls⟩ := lexer_invariant hl
  have hlook : l.look = some ⟨.ident "x", ⟨1, 1⟩⟩ := by decide
  exact ⟨hl, by decide, hpos, by decide, hlexeme, (hcalls .peek).2.2 rfl _ hlook⟩

end LetFun
