import LetFun.Proofs.Lexer.Outcomes
import LetFun.Token.Reads
/-!
# Scanning and spelling

`Reads` cuts a text into blanks and the spellings of tokens, and scanning finds
that cut: a scan in front of a spelled token, blanks before it, finds the token
and stops behind it (`scan_spelled`), and a token that a scan finds is spelled
there, as long as it can be (`spelled_of_scan`).

Results:
* `outcomes_of_reads`: what is read is scanned.
* `lex_of_tokenizes`: a text that is tokens and blanks has these tokens.
* `legal_of_mem_outcomes`: every token that is found is one that a text can hold.
-/
namespace LetFun

/-! ## The first character -/

theorem opening_of_isWordStart {c : Char} (h : isWordStart c = true) : Opening.of c = .word := by
  have h₁ : c ≠ '(' := by rintro rfl; revert h; decide
  have h₂ : c ≠ ')' := by rintro rfl; revert h; decide
  have h₃ : c ≠ '=' := by rintro rfl; revert h; decide
  have h₄ : c ≠ '-' := by rintro rfl; revert h; decide
  simp [Opening.of, h₁, h₂, h₃, h₄, h]

theorem not_isWordStart_of_isUpper {c : Char} (h : c.isUpper = true) : isWordStart c = false := by
  have hZ : c.val ≤ 'Z'.val := (of_decide_eq_true h).2
  have ha : ¬('a'.val ≤ c.val) := fun ha => absurd (UInt32.le_trans ha hZ) (by decide)
  have hlow : c.isLower = false := by
    show (decide ('a'.val ≤ c.val) && decide (c.val ≤ 'z'.val)) = false
    rw [decide_eq_false ha, Bool.false_and]
  have hbar : c ≠ '_' := by rintro rfl; revert h; decide
  simp [isWordStart, hlow, hbar]

theorem opening_of_isUpper {c : Char} (h : c.isUpper = true) : Opening.of c = .con := by
  have h₁ : c ≠ '(' := by rintro rfl; revert h; decide
  have h₂ : c ≠ ')' := by rintro rfl; revert h; decide
  have h₃ : c ≠ '=' := by rintro rfl; revert h; decide
  have h₄ : c ≠ '-' := by rintro rfl; revert h; decide
  simp [Opening.of, h₁, h₂, h₃, h₄, h, not_isWordStart_of_isUpper h]

theorem not_isBlank_of_opening {c : Char} (h : Opening.of c ≠ .invalid) : isBlank c = false := by
  cases hb : isBlank c with
  | false => rfl
  | true =>
    simp only [isBlank, Bool.or_eq_true, decide_eq_true_eq] at hb
    rcases hb with (rfl | rfl) | rfl <;> exact absurd (by decide) h

namespace Cursor

/-! ## Runs of characters -/

/-- Taking characters that satisfy `p` stops in front of the first that does not. -/
theorem advanceWhile_append {p : Char → Bool} {c : Cursor} {cs ds : List Char}
    (hc : c.rest = cs ++ ds) (hcs : ∀ x ∈ cs, p x = true)
    (hds : ∀ x, ds.head? = some x → p x = false) :
    c.advanceWhile p =
      { c with taken := cs.reverse ++ c.taken, rest := ds, pos := c.pos.after cs } := by
  have htake : ds.takeWhile p = [] := by
    cases ds with
    | nil => rfl
    | cons d ds => simp [hds d rfl]
  have hdrop : ds.dropWhile p = ds := by
    cases ds with
    | nil => rfl
    | cons d ds => simp [hds d rfl]
  simp [advanceWhile, hc, List.takeWhile_append_of_pos hcs, List.dropWhile_append_of_pos hcs,
    htake, hdrop]

theorem skipBlanks_append {c : Cursor} {blanks ds : List Char} (hc : c.rest = blanks ++ ds)
    (hb : ∀ x ∈ blanks, isBlank x = true) (hds : ∀ x, ds.head? = some x → isBlank x = false) :
    c.skipBlanks.taken = [] ∧ c.skipBlanks.rest = ds ∧ c.skipBlanks.pos = c.pos.after blanks := by
  rw [skipBlanks, advanceWhile_append hc hb hds]
  exact ⟨rfl, rfl, rfl⟩

/-- A word is taken as a whole. -/
theorem take_word {c : Cursor} {ch : Char} {cs ds : List Char} (ht : c.taken = [])
    (hc : c.rest = ch :: cs ++ ds) (hcs : ∀ x ∈ cs, isNameChar x = true)
    (hds : ∀ x, ds.head? = some x → isNameChar x = false) :
    (c.advance.advanceWhile isNameChar).lexeme = String.ofList (ch :: cs) ∧
      (c.advance.advanceWhile isNameChar).rest = ds ∧
      (c.advance.advanceWhile isNameChar).pos = c.pos.after (ch :: cs) := by
  have hfirst : c.advance = { c with taken := [ch], rest := cs ++ ds, pos := c.pos.next ch } := by
    simp [advance, hc, ht]
  have hafter : c.advance.rest = cs ++ ds := by rw [hfirst]
  rw [advanceWhile_append hafter hcs hds, hfirst]
  exact ⟨by simp [lexeme], rfl, rfl⟩

/-! ## Scanning what is spelled -/

/-- At a cursor a token with the lexeme `l` is scanned, and `rest` is left. -/
def Takes (c : Cursor) (l : Lexeme) (rest : List Char) : Prop :=
  ∃ ch c', c.char? = some ch ∧ isBlank ch = false ∧ scanFrom ch c = .ok ⟨l, c.pos⟩ c' ∧
    c'.rest = rest ∧ c'.pos = c.pos.after l.spelling.toList

theorem takes_mark {c : Cursor} {ch : Char} {l : Lexeme} {rest : List Char}
    (ho : Opening.of ch = .mark l) (hl : l.spelling.toList = [ch]) (hc : c.rest = ch :: rest) :
    c.Takes l rest := by
  refine ⟨ch, c.advance, by simp [char?, hc], not_isBlank_of_opening (by simp [ho]), ?_, ?_, ?_⟩
  · simp [scanFrom, ho]
  · simp [advance, hc]
  · simp [advance, hc, hl]

theorem takes_arrow {c : Cursor} {rest : List Char} (hc : c.rest = '-' :: '>' :: rest) :
    c.Takes .arrow rest := by
  refine ⟨'-', c.advance.advance, by simp [char?, hc], by decide, ?_, ?_, ?_⟩
  · have ho : Opening.of '-' = .dash := by decide
    simp [scanFrom, ho, advance, char?, hc]
  · simp [advance, hc]
  · simp [advance, hc, Lexeme.spelling]

/-- A word in name characters, whose first character says what it is. -/
theorem takes_name {c : Cursor} {w : String} {l : Lexeme} {ch : Char} {cs rest : List Char}
    (ht : c.taken = []) (hw : w.toList = ch :: cs) (hcs : ∀ x ∈ cs, isNameChar x = true)
    (hrest : ∀ x, rest.head? = some x → isNameChar x = false) (hc : c.rest = w.toList ++ rest)
    (ho : (Opening.of ch = .word ∧ l = .ofWord w) ∨ (Opening.of ch = .con ∧ l = .con w)) :
    c.Takes l rest := by
  rw [hw] at hc
  obtain ⟨hlex, hr, hp⟩ := take_word ht hc hcs hrest
  have hchar : c.char? = some ch := by simp [char?, hc]
  rcases ho with ⟨ho, rfl⟩ | ⟨ho, rfl⟩
  · refine ⟨ch, _, hchar, not_isBlank_of_opening (by simp [ho]), ?_, hr, ?_⟩
    · simp only [scanFrom, ho, hlex, ← hw, String.ofList_toList]
    · rw [hp, Lexeme.ofWord_spelling, hw]
  · refine ⟨ch, _, hchar, not_isBlank_of_opening (by simp [ho]), ?_, hr, ?_⟩
    · simp only [scanFrom, ho, hlex, ← hw, String.ofList_toList]
    · rw [hp, ← hw]; rfl

theorem takes_of_legal {c : Cursor} {l : Lexeme} {rest : List Char} (ht : c.taken = [])
    (hl : l ≠ .eof) (hg : l.legal = true) (he : l.EndsBefore rest)
    (hc : c.rest = l.spelling.toList ++ rest) : c.Takes l rest := by
  cases l with
  | lparen => exact takes_mark (by decide : Opening.of '(' = .mark .lparen) rfl hc
  | rparen => exact takes_mark (by decide : Opening.of ')' = .mark .rparen) rfl hc
  | equal => exact takes_mark (by decide : Opening.of '=' = .mark .equal) rfl hc
  | arrow => exact takes_arrow hc
  | letKw =>
    exact takes_name (w := "let") ht rfl (List.all_eq_true.1 rfl) (he rfl) hc
      (.inl ⟨by decide, by decide⟩)
  | inKw =>
    exact takes_name (w := "in") ht rfl (List.all_eq_true.1 rfl) (he rfl) hc
      (.inl ⟨by decide, by decide⟩)
  | funKw =>
    exact takes_name (w := "fun") ht rfl (List.all_eq_true.1 rfl) (he rfl) hc
      (.inl ⟨by decide, by decide⟩)
  | ident x =>
    obtain ⟨ch, cs, hx, hch, hcs, hk⟩ := isIdent_iff.1 hg
    exact takes_name ht hx hcs (he rfl) hc
      (.inl ⟨opening_of_isWordStart hch, (Lexeme.ofWord_eq_ident_iff.2 ⟨rfl, hk⟩).symm⟩)
  | con x =>
    obtain ⟨ch, cs, hx, hch, hcs⟩ := isCon_iff.1 hg
    exact takes_name ht hx hcs (he rfl) hc (.inr ⟨opening_of_isUpper hch, rfl⟩)
  | eof => exact absurd rfl hl

/-- No token begins with a blank. -/
theorem spelling_head {l : Lexeme} {rest : List Char} (hl : l ≠ .eof) (hg : l.legal = true)
    (he : l.EndsBefore rest) :
    ∀ x, (l.spelling.toList ++ rest).head? = some x → isBlank x = false := by
  intro x hx
  obtain ⟨ch, -, hch, hblank, -⟩ :=
    takes_of_legal (c := ⟨[], [], l.spelling.toList ++ rest, Pos.origin⟩) rfl hl hg he rfl
  simp only [char?, hx, Option.some.injEq] at hch
  rw [hch]
  exact hblank

/-- A scan in front of blanks and a spelled token finds the token. -/
theorem scan_spelled {c : Cursor} {blanks rest : List Char} {l : Lexeme}
    (hb : ∀ x ∈ blanks, isBlank x = true) (hl : l ≠ .eof) (hg : l.legal = true)
    (he : l.EndsBefore rest) (hc : c.rest = blanks ++ l.spelling.toList ++ rest) :
    ∃ c', c.scan = .ok ⟨l, c.pos.after blanks⟩ c' ∧ c'.rest = rest ∧
      c'.pos = (c.pos.after blanks).after l.spelling.toList := by
  rw [List.append_assoc] at hc
  obtain ⟨ht, hr, hp⟩ := skipBlanks_append hc hb (spelling_head hl hg he)
  obtain ⟨ch, c', hch, -, hscan, hrest, hpos⟩ := takes_of_legal ht hl hg he hr
  rw [hp] at hscan hpos
  exact ⟨c', by simp only [scan, hch, hscan], hrest, hpos⟩

/-- Behind the last token a scan skips the blanks and finds the end of the text. -/
theorem scan_blanks {c : Cursor} (hb : ∀ x ∈ c.rest, isBlank x = true) :
    ∃ c', c.scan = .ok ⟨.eof, c.pos.after c.rest⟩ c' := by
  have hc : c.rest = c.rest ++ [] := (List.append_nil _).symm
  obtain ⟨-, hr, hp⟩ := skipBlanks_append hc hb (by simp)
  exact ⟨_, by simp only [scan, char?, hr, hp, List.head?_nil]; rfl⟩

/-! ## What is scanned is spelled -/

theorem legal_ofWord {w : String} {ch : Char} {cs : List Char} (hw : w.toList = ch :: cs)
    (hch : isWordStart ch = true) (hcs : ∀ x ∈ cs, isNameChar x = true) :
    (Lexeme.ofWord w).legal = true := by
  cases hk : isKeyword w with
  | true =>
    simp only [isKeyword, Bool.or_eq_true, decide_eq_true_eq] at hk
    rcases hk with (rfl | rfl) | rfl <;> decide
  | false =>
    rw [Lexeme.ofWord_eq_ident_iff.2 ⟨rfl, hk⟩]
    exact isIdent_iff.2 ⟨ch, cs, hw, hch, hcs, hk⟩

theorem opening_mark {ch : Char} {l : Lexeme} (h : Opening.of ch = .mark l) :
    l.legal = true ∧ l.spelling.toList = [ch] ∧ l.isWordy = false := by
  unfold Opening.of at h
  split at h
  · subst ch; cases h; exact ⟨rfl, rfl, rfl⟩
  · split at h
    · subst ch; cases h; exact ⟨rfl, rfl, rfl⟩
    · split at h
      · subst ch; cases h; exact ⟨rfl, rfl, rfl⟩
      · repeat' split at h
        all_goals cases h

theorem opening_dash {ch : Char} (h : Opening.of ch = .dash) : ch = '-' := by
  unfold Opening.of at h
  repeat' split at h
  all_goals first | assumption | cases h

theorem opening_word {ch : Char} (h : Opening.of ch = .word) : isWordStart ch = true := by
  unfold Opening.of at h
  repeat' split at h
  all_goals first | assumption | cases h

theorem opening_con {ch : Char} (h : Opening.of ch = .con) : ch.isUpper = true := by
  unfold Opening.of at h
  repeat' split at h
  all_goals first | assumption | cases h

/-- A token that is found at a cursor is legal, is spelled there, and is as long as it can be;
the second cursor stands behind it. -/
structure Spelled (c : Cursor) (t : Token) (c' : Cursor) : Prop where
  pos_eq : t.pos = c.pos
  legal : t.lexeme.legal = true
  ends : t.lexeme.EndsBefore c'.rest
  rest_eq : c.rest = t.lexeme.spelling.toList ++ c'.rest
  pos_after : c'.pos = c.pos.after t.lexeme.spelling.toList

theorem spelled_mark {c : Cursor} {ch : Char} {rest : List Char} {l : Lexeme}
    (hc : c.rest = ch :: rest) (ho : Opening.of ch = .mark l) :
    Spelled c ⟨l, c.pos⟩ c.advance := by
  obtain ⟨hg, hl, hw⟩ := opening_mark ho
  refine ⟨rfl, hg, fun h => ?_, ?_, ?_⟩
  · rw [hw] at h; cases h
  · simp [hl, advance, hc]
  · simp [hl, advance, hc]

theorem spelled_arrow {c : Cursor} {rest : List Char} (hc : c.rest = '-' :: '>' :: rest) :
    Spelled c ⟨.arrow, c.pos⟩ c.advance.advance := by
  refine ⟨rfl, rfl, fun h => ?_, ?_, ?_⟩
  · cases h
  · simp [Lexeme.spelling, advance, hc]
  · simp [Lexeme.spelling, advance, hc]

/-- What is taken of a word is its first character and all name characters behind it. -/
theorem lexeme_word {c : Cursor} {ch : Char} {rest : List Char} (ht : c.taken = [])
    (hc : c.rest = ch :: rest) :
    (c.advance.advanceWhile isNameChar).lexeme.toList = ch :: rest.takeWhile isNameChar := by
  simp [advance, hc, ht, advanceWhile, lexeme]

theorem spelled_word {c : Cursor} {ch : Char} {rest : List Char} {l : Lexeme}
    (hc : c.rest = ch :: rest) (hl : l.spelling.toList = ch :: rest.takeWhile isNameChar)
    (hg : l.legal = true) : Spelled c ⟨l, c.pos⟩ (c.advance.advanceWhile isNameChar) := by
  have hr : (c.advance.advanceWhile isNameChar).rest = rest.dropWhile isNameChar := by
    simp [advance, hc, advanceWhile]
  refine ⟨rfl, hg, fun _ x hx => ?_, ?_, ?_⟩
  · have hstop := List.head?_dropWhile_not isNameChar rest
    rw [hr] at hx
    rw [hx] at hstop
    simpa using hstop
  · rw [hc, hl, hr, List.cons_append, List.takeWhile_append_dropWhile]
  · rw [hl]
    simp [advance, hc, advanceWhile]

theorem spelled_of_scanFrom {ch : Char} {c c' : Cursor} {t : Token} (ht : c.taken = [])
    (hc : c.char? = some ch) (h : scanFrom ch c = .ok t c') : Spelled c t c' := by
  obtain ⟨rest, hrest⟩ : ∃ rest, c.rest = ch :: rest := List.head?_eq_some_iff.1 hc
  have hword := lexeme_word ht hrest
  have hname : ∀ x ∈ rest.takeWhile isNameChar, isNameChar x = true :=
    List.all_eq_true.1 List.all_takeWhile
  simp only [scanFrom] at h
  split at h
  · rename_i l ho
    cases h
    exact spelled_mark hrest ho
  · rename_i ho
    obtain rfl := opening_dash ho
    split at h
    · rename_i hgt
      cases h
      obtain ⟨rest', rfl⟩ : ∃ rest', rest = '>' :: rest' := by
        simp only [advance, hrest, char?] at hgt
        exact List.head?_eq_some_iff.1 hgt
      exact spelled_arrow hrest
    · cases h
  · rename_i ho
    cases h
    exact spelled_word hrest (by rw [Lexeme.ofWord_spelling, hword])
      (legal_ofWord hword (opening_word ho) hname)
  · rename_i ho
    cases h
    exact spelled_word hrest hword (isCon_iff.2 ⟨_, _, hword, opening_con ho, hname⟩)
  · cases h

/-- A token that is scanned is spelled behind blanks. -/
theorem spelled_of_scan {c c' : Cursor} {t : Token} (h : c.scan = .ok t c')
    (ht : t.lexeme ≠ .eof) : Spelled c.skipBlanks t c' := by
  unfold scan at h
  simp only at h
  split at h
  · cases h; exact absurd rfl ht
  · rename_i ch hc
    exact spelled_of_scanFrom rfl hc h

theorem legal_of_mem_outcomes (c : Cursor) : ∀ t ∈ c.outcomes.tokens, t.lexeme.legal = true := by
  induction c using Cursor.outcomes.induct with
  | case1 c e c' h => rw [outcomes_error h]; simp
  | case2 c t c' h ht =>
    rw [outcomes_eof h ht]
    intro u hu
    obtain rfl := List.mem_singleton.1 hu
    rw [ht]; rfl
  | case3 c t c' h ht ih =>
    rw [outcomes_token h ht]
    intro u hu
    rcases List.mem_cons.1 hu with rfl | hu
    · exact (spelled_of_scan h ht).legal
    · exact ih u hu

end Cursor

theorem outcomes_of_reads {p q : Pos} {cs ds : List Char} {ts : List Token}
    (h : Reads p cs ts q ds) :
    ∀ {c : Cursor}, c.rest = cs → c.pos = p →
      ∃ c' : Cursor, c'.rest = ds ∧ c'.pos = q ∧
        c.outcomes = ⟨ts ++ c'.outcomes.tokens, c'.outcomes.fault?⟩ := by
  induction h with
  | nil => intro c hc hp; exact ⟨c, hc, hp, rfl⟩
  | cons hb hl hg he _ ih =>
    intro c hc hp
    subst hp
    obtain ⟨c₁, hs, hr₁, hp₁⟩ := Cursor.scan_spelled hb hl hg he hc
    obtain ⟨c', hr, hp, ho⟩ := ih hr₁ hp₁
    refine ⟨c', hr, hp, ?_⟩
    rw [Cursor.outcomes_token hs hl, ho]
    rfl

theorem lex_of_tokenizes {text : String} {ts : List Token}
    (h : Tokenizes Pos.origin text.toList ts) : lex text = .ok ts := by
  obtain ⟨us, q, blanks, hreads, hb, rfl⟩ := h
  obtain ⟨c', hr, hp, ho⟩ := outcomes_of_reads hreads (c := Cursor.ofText text) rfl rfl
  obtain ⟨c₂, hs⟩ := Cursor.scan_blanks (c := c') (by rw [hr]; exact hb)
  rw [Cursor.outcomes_eof hs rfl, hr, hp] at ho
  rw [lex_eq, scans, ho]

end LetFun
