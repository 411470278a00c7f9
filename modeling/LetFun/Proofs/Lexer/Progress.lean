import LetFun.Proofs.Lexer.Onward
/-!
# Progress of a lexer

A scan takes at least one character unless the text has ended, and it finds the end
of the text only there.  So a loop that asks for the next token again and again gets
to the end, also if it passes over every error: each call either hands the end over
or brings it nearer (`next_due`).

The end, once it is handed over, stays.  A lexer that holds the end has read all of
its text, whatever was called on it before (`Reachable.holdsEnd`), and then nothing
that is called on it changes what it hands over (`AtEnd.perform`).

Results:
* `next_due`: what a call of `next` comes to, measured by the calls that are due.
* `reachesEnd_of_due`, `length_of_drain`: how soon the end comes, and how many tokens there are.
* `keeps_call`: what refills and moves of the cursor keep, every call keeps.
* `lexing_progresses`: progress from every lexer that calls lead to.
-/
namespace LetFun

namespace Cursor

variable {c d : Cursor}

/-! ## Scans -/

theorem offset_add_rest (c : Cursor) : c.offset + c.rest.length = c.text.length := by
  rw [← read_append_rest, List.length_append, read_length]

/-- What shortens the rest of a text moves the cursor on. -/
theorem Moves.offset_lt (h : Moves c d) (hrest : d.rest.length < c.rest.length) :
    c.offset < d.offset := by
  have hc := c.offset_add_rest
  have hd := d.offset_add_rest
  rw [h.text_eq] at hd
  omega

theorem offset_lt_of_scan {t : Token} (h : c.scan = .ok t d) (ht : t.lexeme ≠ .eof) :
    c.offset < d.offset := by
  have hmoves := c.moves_scan
  have hrest := c.scan_progress
  rw [h] at hmoves hrest
  exact hmoves.offset_lt (hrest ht)

theorem offset_lt_of_scan_error {e : LexError} (h : c.scan = .error e d) :
    c.offset < d.offset := by
  have hmoves := c.moves_scan
  have hrest := c.scan_progress
  rw [h] at hmoves hrest
  exact hmoves.offset_lt hrest

theorem offset_of_scan_eof {t : Token} (h : c.scan = .ok t d) (ht : t.lexeme = .eof) :
    d.offset = c.text.length := by
  have hmoves := c.moves_scan
  rw [h] at hmoves
  have htext : d.text = c.text := hmoves.text_eq
  rw [← htext, ← offset_add_rest, scan_eof h ht, List.length_nil, Nat.add_zero]

/-- A cursor behind the whole text stays there. -/
theorem Moves.at_end (h : Moves c d) (hc : c.rest = []) : d.rest = [] ∧ d.pos = c.pos := by
  induction h with
  | refl => exact ⟨hc, rfl⟩
  | mark _ ih => exact ih
  | advance _ ih => simpa [Cursor.advance, ih.1] using ih

theorem scan_at_end (h : c.rest = []) : ∃ d, c.scan = .ok ⟨.eof, c.pos⟩ d := by
  obtain ⟨hrest, hpos⟩ := c.moves_skipBlanks.at_end h
  exact ⟨c.skipBlanks, by simp [scan, char?, hrest, hpos]⟩

end Cursor

namespace Lexer

variable {l l' : Lexer} {t : Token} {p : Pos}

theorem cursor_of_scan (h : l.scan = .ok t l') : l.cursor.scan = .ok t l'.cursor := by
  unfold scan at h
  split at h
  · rename_i hs
    cases h
    exact hs
  · cases h

theorem cursor_of_scan_error {e : LexError} (h : l.scan = .error e l') :
    l.cursor.scan = .error e l'.cursor := by
  unfold scan at h
  split at h
  · cases h
  · rename_i hs
    cases h
    exact hs

/-! ## The calls that are due -/

/-- A bound on the calls of `next` until the end of the text is handed over: one for each character
that is left, one for a token read ahead, and one for the end itself. -/
def due (l : Lexer) : Nat :=
  l.cursor.rest.length + 1 +
    match l.look with
    | some t => if t.lexeme = .eof then 0 else 1
    | none => 0

theorem due_of_look (h : l.look = some t) (ht : t.lexeme ≠ .eof) :
    l.due = l.cursor.rest.length + 2 := by
  simp [due, h, ht]

theorem due_of_empty (h : l.look = none) : l.due = l.cursor.rest.length + 1 := by simp [due, h]

theorem due_pos (l : Lexer) : 0 < l.due := by
  rw [due]
  omega

theorem due_le (l : Lexer) : l.due ≤ l.cursor.rest.length + 2 := by
  unfold due
  repeat' split
  all_goals omega

theorem look_of_fill (h : fill l = .ok t l') : l'.look = some t := by
  unfold fill at h
  split at h
  · cases h
    rfl
  · cases h

/-- A token that a refill finds has taken a character for itself. -/
theorem fill_due (h : fill l = .ok t l') : l'.due ≤ l.cursor.rest.length + 1 := by
  have hahead := l.fill_ahead
  rw [h] at hahead
  by_cases ht : t.lexeme = .eof <;>
    simp only [due, ahead, look_of_fill h, ht, reduceIte, true_and, false_and, false_or]
      at hahead ⊢ <;>
    omega

/-- A refill that fails has taken a character, and the token read ahead is the same. -/
theorem fill_due_error {e : LexError} (h : fill l = .error e l') : l'.due < l.due := by
  have hahead := l.fill_ahead
  rw [h] at hahead
  obtain ⟨hlook, hle⟩ := hahead
  simp only [due, ahead, hlook] at hle ⊢
  omega

/-- What `peek` answers is read ahead, and the end is as near as before, or nearer if it fails. -/
theorem peek_due (l : Lexer) :
    match peek l with
    | .ok t l' => l'.look = some t ∧ l'.due ≤ l.due
    | .error _ l' => l'.due < l.due := by
  unfold peek
  cases hlook : l.look with
  | some t => exact ⟨hlook, Nat.le_refl _⟩
  | none =>
    dsimp only
    cases hf : fill l with
    | ok t l' => exact ⟨look_of_fill hf, due_of_empty hlook ▸ fill_due hf⟩
    | error e l' => exact fill_due_error hf

/-- A call of `next` hands the end over, or brings it nearer. -/
theorem next_due (l : Lexer) :
    (∃ p l', l.next = .ok ⟨.eof, p⟩ l') ∨ (endState l.next).due < l.due := by
  have hpeek := l.peek_due
  rw [next_eq]
  cases hp : l.peek with
  | error e l₁ =>
    rw [hp] at hpeek
    exact .inr hpeek
  | ok t l₁ =>
    rw [hp] at hpeek
    obtain ⟨hlook, hle⟩ := hpeek
    dsimp only
    cases hf : l₁.fill with
    | error e l₂ => exact .inr (Nat.lt_of_lt_of_le (fill_due_error hf) hle)
    | ok u l₂ =>
      obtain ⟨lexeme, p⟩ := t
      by_cases ht : lexeme = .eof
      · exact .inl ⟨p, l₂, by rw [ht]⟩
      · -- the token that is handed over is one due call less, and the refill adds none
        refine .inr ?_
        have hdue := due_of_look hlook ht
        have hfill := fill_due hf
        simp only [endState]
        omega

/-! ## Loops -/

theorem reply_next (l : Lexer) : (Call.next.reply l).2 = endState l.next := by
  simp only [Call.reply, Call.perform, Call.lifted]
  cases l.next <;> rfl

/-- One of the first `n` calls of `next`, whatever comes of the others, is answered by the end of
the text. -/
def ReachesEnd (l : Lexer) (n : Nat) : Prop :=
  ∃ r ∈ Call.replies (List.replicate n .next) l, ∃ p, r.1 = .ok (.token ⟨.eof, p⟩)

theorem reachesEnd_of_due {n : Nat} (h : l.due ≤ n) : l.ReachesEnd n := by
  induction n generalizing l with
  | zero =>
    have hpos := l.due_pos
    omega
  | succ n ih =>
    rcases l.next_due with ⟨p, l', hn⟩ | hlt
    · refine ⟨_, List.mem_cons_self, p, ?_⟩
      simp [Call.reply, Call.perform, Call.lifted, hn]
    · rw [← reply_next] at hlt
      obtain ⟨r, hr, hend⟩ := ih (l := (Call.next.reply l).2) (by omega)
      exact ⟨r, List.mem_cons_of_mem _ hr, hend⟩

theorem length_of_drain {done ts : List Token} (h : drain done l = .ok ts l') :
    ts.length ≤ done.length + l.due := by
  induction done, l using drain.induct with
  | case1 done l e l₁ hn =>
    rw [drain_error hn] at h
    cases h
  | case2 done l t l₁ hn ht =>
    rw [drain_last hn ht] at h
    cases h
    have hpos := l.due_pos
    rw [List.length_reverse, List.length_cons]
    omega
  | case3 done l t l₁ hn ht ih =>
    rw [drain_next hn ht] at h
    have hlength := ih h
    have hlt : l₁.due < l.due := by
      rcases l.next_due with ⟨p, l₂, hn'⟩ | hlt
      · rw [hn] at hn'
        cases hn'
        exact absurd rfl ht
      · rw [hn] at hlt
        exact hlt
    rw [List.length_cons] at hlength
    omega

theorem due_ofText (text : String) : (ofText text).due = text.length + 1 := by
  rw [due_of_empty rfl]
  exact congrArg (· + 1) String.length_toList

/-! ## What every call keeps -/

/-- What a refill keeps, and what holds wherever the cursor moves on, every call keeps. -/
theorem keeps_call {P : Lexer → Prop} (hfill : Keeps P fill)
    (hmoves : ∀ {c d look}, P ⟨c, look⟩ → c.Moves d → P ⟨d, look⟩) (c : Call) :
    Keeps P c.perform := by
  cases c with
  | scan =>
    refine Keeps.lifted (fun l hl => ?_) _
    have h := l.cursor.moves_scan
    unfold scan
    cases hs : l.cursor.scan <;> rw [hs] at h <;> exact hmoves hl h
  | tokenize =>
    refine Keeps.lifted (fun l hl => ?_) _
    unfold tokenize
    have hnext := keeps_next hfill l hl
    induction ([] : List Token), l using drain.induct with
    | case1 done l e l' hn => rw [hn] at hnext; rw [drain_error hn]; exact hnext
    | case2 done l t l' hn ht => rw [hn] at hnext; rw [drain_last hn ht]; exact hnext
    | case3 done l t l' hn ht ih =>
      rw [hn] at hnext
      rw [drain_next hn ht]
      exact ih hnext (keeps_next hfill l' hnext)
  | lexeme | peekChar => exact fun l hl => hl
  | advance => exact fun l hl => hmoves hl (.advance .refl)
  | name => exact fun l hl => hmoves hl (l.cursor.moves_advanceWhile isNameChar)
  | _ => exact keeps_perform hfill rfl

/-! ## The end stays -/

/-- The lexer has read all of its text, which ends at `p`, and holds that end. -/
structure AtEnd (p : Pos) (l : Lexer) : Prop where
  look : l.look = some ⟨.eof, p⟩
  rest : l.cursor.rest = []
  pos : l.cursor.pos = p

theorem AtEnd.moves {c d : Cursor} {look : Option Token} (h : AtEnd p ⟨c, look⟩) (hm : c.Moves d) :
    AtEnd p ⟨d, look⟩ := by
  obtain ⟨hrest, hpos⟩ := hm.at_end h.rest
  exact ⟨h.look, hrest, hpos.trans h.pos⟩

theorem AtEnd.fill_eq (h : l.AtEnd p) : ∃ l', fill l = .ok ⟨.eof, p⟩ l' ∧ l'.AtEnd p := by
  obtain ⟨d, hs⟩ := Cursor.scan_at_end h.rest
  have hmoves := l.cursor.moves_scan
  rw [hs] at hmoves
  obtain ⟨hrest, hpos⟩ := hmoves.at_end h.rest
  rw [h.pos] at hs hpos
  exact ⟨⟨d, some ⟨.eof, p⟩⟩, by simp [fill, hs], rfl, hrest, hpos⟩

theorem AtEnd.perform (p : Pos) (c : Call) : Keeps (AtEnd p) c.perform := by
  refine keeps_call (fun l hl => ?_) AtEnd.moves c
  obtain ⟨l', hf, hl'⟩ := hl.fill_eq
  rw [hf]
  exact hl'

theorem AtEnd.peek_eq (h : l.AtEnd p) : peek l = .ok ⟨.eof, p⟩ l := by simp [peek, h.look]

theorem AtEnd.next_eq (h : l.AtEnd p) : ∃ l', next l = .ok ⟨.eof, p⟩ l' := by
  obtain ⟨l', hf, -⟩ := h.fill_eq
  exact ⟨l', by rw [Lexer.next_eq, h.peek_eq]; simp [hf]⟩

/-- Among any calls on a lexer at the end, those that look at tokens and take them see the end. -/
theorem AtEnd.replies (h : l.AtEnd p) (cs : List Call) :
    ∀ x ∈ cs.zip (Call.replies cs l), x.1 = .peek ∨ x.1 = .next →
      x.2.1 = .ok (.token ⟨.eof, p⟩) := by
  induction cs generalizing l with
  | nil => simp
  | cons c cs ih =>
    rw [Call.replies, List.zip_cons_cons, List.forall_mem_cons]
    refine ⟨?_, ih ((AtEnd.perform p c).reply h)⟩
    rintro (rfl | rfl)
    · simp [Call.reply, Call.perform, Call.lifted, h.peek_eq]
    · obtain ⟨l', hn⟩ := h.next_eq
      simp [Call.reply, Call.perform, Call.lifted, hn]

/-- A lexer that holds the end of the text has read all of it. -/
def HoldsEnd (l : Lexer) : Prop := ∀ p, l.look = some ⟨.eof, p⟩ → l.AtEnd p

theorem keeps_holdsEnd : Keeps HoldsEnd fill := by
  intro l hl
  cases hs : l.cursor.scan with
  | ok t d =>
    have hf : fill l = .ok t ⟨d, some t⟩ := by simp [fill, hs]
    rw [hf]
    rintro p ⟨⟩
    obtain ⟨-, hpos⟩ := Cursor.justRead_of_scan hs
    exact ⟨rfl, Cursor.scan_eof hs rfl, hpos⟩
  | error e d =>
    have hf : fill l = .error e ⟨d, l.look⟩ := by simp [fill, hs]
    rw [hf]
    intro p hlook
    -- a lexer that holds the end finds it again
    obtain ⟨l', hf', -⟩ := (hl p hlook).fill_eq
    rw [hf] at hf'
    cases hf'

theorem Reachable.holdsEnd {allowed : Call → Bool} {text : String} (h : Reachable allowed text l) :
    l.HoldsEnd := by
  induction h with
  | start => exact nofun
  | @call l c _ _ ih =>
    have hmoves {c d : Cursor} {look : Option Token} (h : HoldsEnd ⟨c, look⟩) (hm : c.Moves d) :
        HoldsEnd ⟨d, look⟩ := fun p hp => (h p hp).moves hm
    exact (keeps_call keeps_holdsEnd hmoves c).reply ih

theorem HoldsEnd.of_next (h : l.HoldsEnd) (hn : next l = .ok ⟨.eof, p⟩ l') : l'.AtEnd p := by
  rw [Lexer.next_eq] at hn
  split at hn
  · cases hn
  · rename_i t l₁ hp
    have hl₁ : l₁.HoldsEnd := by
      have hkept := keeps_peek keeps_holdsEnd l h
      rw [hp] at hkept
      exact hkept
    split at hn
    · cases hn
    · rename_i u l₂ hf
      cases hn
      have hpeek := l.peek_due
      rw [hp] at hpeek
      obtain ⟨l₃, hf', hend⟩ := (hl₁ p hpeek.1).fill_eq
      rw [hf] at hf'
      cases hf'
      exact hend

end Lexer

theorem length_of_lex {text : String} {ts : List Token} (h : lex text = .ok ts) :
    ts.length ≤ text.length + 1 := by
  unfold lex Lexer.tokenize at h
  split at h
  · rename_i us l' hd
    cases h
    have hlength := Lexer.length_of_drain hd
    rwa [Lexer.due_ofText, List.length_nil, Nat.zero_add] at hlength
  · cases h

/-- **Progress.** Whatever calls lead to a lexer, also by way of errors: a scan moves the cursor on
if it finds a token or fails, and finds the end of the text only behind all of it. So calls of
`next` hand the end over, at the latest one call behind those for the token read ahead and for each
character that is left, even if every error is passed over; a text has at most one token more than
it has characters; and once the end is handed over, it is all that later calls of `peek` and `next`
answer, whatever else is called. -/
theorem lexing_progresses {text : String} {l : Lexer}
    (h : l.Reachable (fun _ => true) text) :
    (∀ t l', l.scan = .ok t l' → t.lexeme ≠ .eof → l.cursor.offset < l'.cursor.offset) ∧
    (∀ e l', l.scan = .error e l' → l.cursor.offset < l'.cursor.offset) ∧
    (∀ t l', l.scan = .ok t l' → t.lexeme = .eof → l'.cursor.offset = text.length) ∧
    l.ReachesEnd (text.length - l.cursor.offset + 2) ∧
    (Lexer.ofText text).ReachesEnd (text.length + 1) ∧
    (∀ ts, lex text = .ok ts → ts.length ≤ text.length + 1) ∧
    ∀ p l', l.next = .ok ⟨.eof, p⟩ l' → ∀ cs : List Call,
      ∀ x ∈ cs.zip (Call.replies cs l'), x.1 = .peek ∨ x.1 = .next →
        x.2.1 = .ok (.token ⟨.eof, p⟩) := by
  have htext : l.cursor.text.length = text.length := by
    rw [h.moves.text_eq]
    exact String.length_toList
  refine ⟨fun t l' hs ht => Cursor.offset_lt_of_scan (Lexer.cursor_of_scan hs) ht,
    fun e l' hs => Cursor.offset_lt_of_scan_error (Lexer.cursor_of_scan_error hs),
    fun t l' hs ht => ?_, Lexer.reachesEnd_of_due ?_,
    Lexer.reachesEnd_of_due (Nat.le_of_eq (Lexer.due_ofText text)), fun ts => length_of_lex,
    fun p l' hn cs => (h.holdsEnd.of_next hn).replies cs⟩
  · rw [Cursor.offset_of_scan_eof (Lexer.cursor_of_scan hs) ht, htext]
  · have hrest := l.cursor.offset_add_rest
    have hdue := l.due_le
    omega

/-- In `f - x` the first call of `next` fails at the dash behind the `f`. One character is left
then, and three calls more are due: for the `f`, for the `x` and for the end, which then stays,
though a call in between tries to read on. -/
theorem lexing_progresses_dash :
    let l := (Call.next.reply (Lexer.ofText "f - x")).2
    l.Reachable (fun _ => true) "f - x" ∧ l.cursor.offset = 4 ∧ l.ReachesEnd 3 ∧
      ∃ l', ((Call.next.reply (Call.next.reply l).2).2).next = .ok ⟨.eof, ⟨1, 6⟩⟩ l' ∧
        (Call.next.reply (Call.scan.reply l').2).1 = .ok (.token ⟨.eof, ⟨1, 6⟩⟩) := by
  intro l
  have hl : l.Reachable (fun _ => true) "f - x" := .call .start rfl
  have hoffset : l.cursor.offset = 4 := by decide +kernel
  obtain ⟨-, -, -, hend, -⟩ := lexing_progresses hl
  rw [hoffset] at hend
  have hl₂ : (Call.next.reply (Call.next.reply l).2).2.Reachable (fun _ => true) "f - x" :=
    .call (.call hl rfl) rfl
  obtain ⟨-, -, -, -, -, -, hstays⟩ := lexing_progresses hl₂
  obtain ⟨l', hn⟩ : ∃ l', ((Call.next.reply (Call.next.reply l).2).2).next =
      .ok ⟨.eof, ⟨1, 6⟩⟩ l' := ⟨_, rfl⟩
  refine ⟨hl, hoffset, hend, l', hn, ?_⟩
  exact hstays _ _ hn [.scan, .next] (.next, Call.next.reply (Call.scan.reply l').2)
    (by simp [Call.replies]) (.inr rfl)

end LetFun
