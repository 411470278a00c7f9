import LetFun.Proofs.Lexer.Reading
/-!
# Maximal munch

The lexer cuts a text into blanks and the spellings of tokens, each as long as it
can be.  If the cut comes to the end of the text, it gives the tokens.  If it does
not, the error stands where the cut ends, at a character that begins no token or at
a dash that begins no arrow, and what lies before it is tokens and blanks.

The text in front of an error is a text of its own only because no word runs
across its end (`Parted`): in `x1 ?` the `x` is tokens, and what follows it begins
no token, but the error is not there.

Results:
* `reads_iff`: a text is read in two parts exactly if no word runs across the seam.
* `reads_outcomes`: the outcomes of scanning cut the text, and say where the cut ends.
* `lex_maximal_munch`: what the lexer answers for a text is its cut.
-/
namespace LetFun

/-! ## The last character of a token -/

/-- No word runs from one text into the other. -/
def Parted (cs ds : List Char) : Prop :=
  ∀ c d, cs.getLast? = some c → ds.head? = some d → isNameChar c = false ∨ isNameChar d = false

theorem isNameChar_of_isBlank {c : Char} (h : isBlank c = true) : isNameChar c = false := by
  simp only [isBlank, Bool.or_eq_true, decide_eq_true_eq] at h
  rcases h with (rfl | rfl) | rfl <;> decide

/-- A token ends in a name character exactly if it is a word. -/
theorem Lexeme.getLast_spelling {l : Lexeme} (hl : l ≠ .eof) (hg : l.legal = true) :
    ∃ c, l.spelling.toList.getLast? = some c ∧ isNameChar c = l.isWordy := by
  have word : ∀ {x : String} {c cs}, x.toList = c :: cs → (∀ d ∈ c :: cs, isNameChar d = true) →
      ∃ c, x.toList.getLast? = some c ∧ isNameChar c = true := by
    intro x c cs hx hall
    rw [hx]
    exact ⟨_, List.getLast?_eq_some_getLast (by simp), hall _ (List.getLast_mem _)⟩
  cases l with
  | ident x =>
    obtain ⟨c, cs, hx, hc, hcs, -⟩ := isIdent_iff.1 hg
    exact word hx (List.forall_mem_cons.2 ⟨isNameChar_of_isWordStart hc, hcs⟩)
  | con x =>
    obtain ⟨c, cs, hx, hc, hcs⟩ := isCon_iff.1 hg
    exact word hx (List.forall_mem_cons.2 ⟨isNameChar_of_isUpper hc, hcs⟩)
  | eof => exact absurd rfl hl
  | _ => exact ⟨_, rfl, by decide⟩

/-! ## Texts in two parts -/

theorem Lexeme.EndsBefore.of_append {l : Lexeme} {cs ds : List Char} (h : l.EndsBefore (cs ++ ds)) :
    l.EndsBefore cs := by
  intro hw c hc
  exact h hw c (by rw [List.head?_append, hc]; rfl)

theorem Lexeme.EndsBefore.append {l : Lexeme} {cs ds : List Char} (h : l.EndsBefore cs)
    (hds : cs = [] → l.EndsBefore ds) : l.EndsBefore (cs ++ ds) := by
  intro hw c hc
  cases cs with
  | nil => exact hds rfl hw c hc
  | cons d cs => exact h hw c hc

theorem Parted.of_append {cs cs' ds : List Char} (h : Parted (cs ++ cs') ds) : Parted cs' ds := by
  intro c d hc hd
  exact h c d (by rw [List.getLast?_append, hc]; rfl) hd

/-- Behind a token and a text that is parted from what follows, all is parted. -/
theorem Parted.append {l : Lexeme} {blanks cs ds : List Char} (hl : l ≠ .eof)
    (hg : l.legal = true) (hds : cs = [] → l.EndsBefore ds) (h : Parted cs ds) :
    Parted (blanks ++ l.spelling.toList ++ cs) ds := by
  intro c d hc hd
  cases hcs : cs.getLast? with
  | some c' =>
    rw [List.getLast?_append, hcs] at hc
    cases hc
    exact h c d hcs hd
  | none =>
    obtain rfl := List.getLast?_eq_none_iff.1 hcs
    obtain ⟨c', hlast, hname⟩ := Lexeme.getLast_spelling hl hg
    rw [List.append_nil, List.getLast?_append, hlast] at hc
    cases hc
    cases hw : l.isWordy with
    | false => exact .inl (hname.trans hw)
    | true => exact .inr (hds rfl hw d hd)

/-- In front of a part that the last word does not run into, a text is read as if it stood alone. -/
theorem Reads.append {p q : Pos} {cs ds es : List Char} {ts : List Token}
    (h : Reads p cs ts q ds) (hes : Parted cs es) : Reads p (cs ++ es) ts q (ds ++ es) := by
  induction h with
  | nil => exact .nil
  | @cons p q blanks rest ds l ts hb hl hg he _ ih =>
    have hends : rest = [] → l.EndsBefore es := by
      rintro rfl hw d hd
      obtain ⟨c, hlast, hname⟩ := Lexeme.getLast_spelling hl hg
      have hc : (blanks ++ l.spelling.toList ++ []).getLast? = some c := by
        rw [List.append_nil, List.getLast?_append, hlast]; rfl
      exact (hes c d hc hd).resolve_left (by rw [hname, hw]; decide)
    rw [List.append_assoc _ rest]
    exact .cons hb hl hg (he.append hends) (ih hes.of_append)

/-- What is read of a text is a text of its own, which no word runs out of. -/
theorem Reads.split {p q : Pos} {cs ds : List Char} {ts : List Token} (h : Reads p cs ts q ds) :
    ∃ pre, cs = pre ++ ds ∧ Reads p pre ts q [] ∧ q = p.after pre ∧ Parted pre ds := by
  induction h with
  | nil => exact ⟨[], rfl, .nil, rfl, fun c d hc => by cases hc⟩
  | @cons p q blanks rest ds l ts hb hl hg he _ ih =>
    obtain ⟨pre, rfl, hpre, hq, hparted⟩ := ih
    refine ⟨blanks ++ l.spelling.toList ++ pre, (List.append_assoc ..).symm,
      .cons hb hl hg he.of_append hpre, ?_, .append hl hg ?_ hparted⟩
    · rw [hq, Pos.after_append, Pos.after_append]
    · rintro rfl
      exact he

theorem parted_of_blanks {cs blanks ds : List Char} (h : Parted cs (blanks ++ ds))
    (hb : ∀ c ∈ blanks, isBlank c = true) : Parted (cs ++ blanks) ds := by
  intro c d hc hd
  cases hlast : blanks.getLast? with
  | some c' =>
    rw [List.getLast?_append, hlast] at hc
    cases hc
    exact .inl (isNameChar_of_isBlank (hb c (List.mem_of_getLast? hlast)))
  | none =>
    obtain rfl := List.getLast?_eq_none_iff.1 hlast
    rw [List.append_nil] at hc
    exact h c d hc hd

/-- The end of a text of tokens and blanks stands behind all of it. -/
theorem Tokenizes.eof {p : Pos} {cs : List Char} {ts : List Token} (h : Tokenizes p cs ts) :
    ∃ us, ts = us ++ [⟨.eof, p.after cs⟩] := by
  obtain ⟨us, q, blanks, hread, -, rfl⟩ := h
  obtain ⟨pre, rfl, -, rfl, -⟩ := hread.split
  exact ⟨us, by rw [Pos.after_append]⟩

/-- A text begins with tokens, and blanks behind them, exactly if a part of it that no word runs
out of consists of them. -/
theorem reads_iff {p q : Pos} {cs bad : List Char} {us : List Token} :
    (∃ r blanks, Reads p cs us r (blanks ++ bad) ∧ (∀ c ∈ blanks, isBlank c = true) ∧
        q = r.after blanks) ↔
      ∃ pre, cs = pre ++ bad ∧ Parted pre bad ∧ Tokenizes p pre (us ++ [⟨.eof, q⟩]) := by
  constructor
  · rintro ⟨r, blanks, h, hb, rfl⟩
    obtain ⟨pre, rfl, hpre, rfl, hparted⟩ := h.split
    have hblanks : Parted pre blanks := by
      intro c d hc hd
      exact .inr (isNameChar_of_isBlank (hb d (List.mem_of_head? hd)))
    exact ⟨pre ++ blanks, by simp, parted_of_blanks hparted hb, us, _, blanks,
      hpre.append hblanks, hb, rfl⟩
  · rintro ⟨pre, rfl, hparted, us', r, blanks, h, hb, heq⟩
    obtain ⟨rfl, heof⟩ := List.append_inj' heq rfl
    cases heof
    exact ⟨r, blanks, h.append hparted, hb, rfl⟩

/-! ## Where a cut ends -/

/-- Whether some token begins with the character. -/
def BeginsToken (c : Char) : Prop := ∃ l : Lexeme, l.legal = true ∧ l.spelling.toList.head? = some c

theorem beginsToken_iff {c : Char} : BeginsToken c ↔ Opening.of c ≠ .invalid := by
  constructor
  · rintro ⟨l, hg, hc⟩
    cases l with
    | ident x =>
      obtain ⟨d, cs, hx, hd, -⟩ := isIdent_iff.1 hg
      rw [Lexeme.spelling, hx] at hc
      cases hc
      simp [opening_of_isWordStart hd]
    | con x =>
      obtain ⟨d, cs, hx, hd, -⟩ := isCon_iff.1 hg
      rw [Lexeme.spelling, hx] at hc
      cases hc
      simp [opening_of_isUpper hd]
    | eof => cases hc
    | _ => cases hc; decide
  · intro h
    have hone : (String.ofList [c]).toList = [c] := String.toList_ofList
    cases ho : Opening.of c with
    | mark l =>
      obtain ⟨hg, hl, -⟩ := Cursor.opening_mark ho
      exact ⟨l, hg, by rw [hl]; rfl⟩
    | dash =>
      obtain rfl := Cursor.opening_dash ho
      exact ⟨.arrow, rfl, rfl⟩
    | word =>
      refine ⟨.ofWord (String.ofList [c]), ?_, by rw [Lexeme.ofWord_spelling, hone]; rfl⟩
      exact Cursor.legal_ofWord hone (Cursor.opening_word ho) (by simp)
    | con =>
      refine ⟨.con (String.ofList [c]), ?_, by rw [Lexeme.spelling, hone]; rfl⟩
      exact isCon_iff.2 ⟨c, [], hone, Cursor.opening_con ho, by simp⟩
    | invalid => exact absurd ho h

/-- What is wrong with a text that a token should begin: its first character begins none, or it is
a dash that begins no arrow. The message shows the character, or the dash and what follows it. -/
def LexCause.Explains (cause : LexCause) (bad : List Char) : Prop :=
  (∃ c rest, bad = c :: rest ∧ isBlank c = false ∧ ¬BeginsToken c ∧
      cause = .invalidChar c ∧ cause.message = "invalid character " ++ c.toString) ∨
    ∃ rest, bad = '-' :: rest ∧ rest.head? ≠ some '>' ∧ cause = .brokenArrow rest.head? ∧
      cause.message = "bad token \"-" ++ String.ofList (rest.take 1) ++ "\""

theorem explains_iff {cause : LexCause} {bad : List Char} :
    cause.Explains bad ↔ Broken bad cause := by
  constructor
  · rintro (⟨c, rest, rfl, hb, hc, rfl, -⟩ | ⟨rest, rfl, hgt, rfl, -⟩)
    · exact .invalid hb (Classical.not_not.1 fun h => hc (beginsToken_iff.2 h))
    · exact .dash hgt
  · rintro (@⟨c, rest, hb, ho⟩ | @⟨rest, hgt⟩)
    · exact .inl ⟨c, rest, rfl, hb, fun h => beginsToken_iff.1 h ho, rfl, rfl⟩
    · refine .inr ⟨rest, rfl, hgt, rfl, ?_⟩
      cases rest with
      | nil => rfl
      | cons c rest => rfl

namespace Cursor

/-- A scan that fails stands, behind blanks, in front of what is wrong. -/
theorem broken_of_scan {c c' : Cursor} {e : LexError} (h : c.scan = .error e c') :
    Broken c.skipBlanks.rest e.cause ∧ e.pos = c.skipBlanks.pos := by
  unfold scan at h
  simp only at h
  split at h
  · cases h
  · rename_i ch hch
    obtain ⟨rest, hrest⟩ : ∃ rest, c.skipBlanks.rest = ch :: rest := List.head?_eq_some_iff.1 hch
    rw [hrest]
    simp only [scanFrom] at h
    split at h
    · cases h
    · rename_i ho
      obtain rfl := opening_dash ho
      have hnext : c.skipBlanks.advance.char? = rest.head? := by simp [advance, hrest, char?]
      rw [hnext] at h
      split at h
      · cases h
      · rename_i hgt
        cases h
        exact ⟨.dash hgt, rfl⟩
    · cases h
    · cases h
    · rename_i ho
      cases h
      have hstop := List.head?_dropWhile_not isBlank c.rest
      have hdrop : c.rest.dropWhile isBlank = ch :: rest := hrest
      rw [hdrop] at hstop
      exact ⟨.invalid (by simpa using hstop) ho, rfl⟩

/-- A scan in front of blanks and what is wrong fails there. -/
theorem scan_broken {c : Cursor} {blanks bad : List Char} {cause : LexCause}
    (hb : ∀ x ∈ blanks, isBlank x = true) (hbad : Broken bad cause) (hc : c.rest = blanks ++ bad) :
    ∃ c', c.scan = .error ⟨cause, c.pos.after blanks⟩ c' := by
  cases hbad with
  | @invalid ch rest hblank ho =>
    obtain ⟨-, hr, hp⟩ := skipBlanks_append hc hb (by rintro x ⟨⟩; exact hblank)
    exact ⟨_, by simp only [scan, char?, hr, List.head?_cons, scanFrom, ho, hp]; rfl⟩
  | @dash rest hgt =>
    obtain ⟨-, hr, hp⟩ := skipBlanks_append hc hb (by rintro x ⟨⟩; decide)
    have ho : Opening.of '-' = .dash := by decide
    have hch : c.skipBlanks.char? = some '-' := by simp [char?, hr]
    have hnext : c.skipBlanks.advance.char? = rest.head? := by simp [advance, hr, char?]
    exact ⟨_, by simp only [scan, hch, scanFrom, ho, hnext, if_neg hgt, hp]; rfl⟩

theorem rest_eq_skipBlanks (c : Cursor) :
    c.rest = c.rest.takeWhile isBlank ++ c.skipBlanks.rest :=
  List.takeWhile_append_dropWhile.symm

theorem isBlank_of_skipped (c : Cursor) : ∀ x ∈ c.rest.takeWhile isBlank, isBlank x = true :=
  List.all_eq_true.1 List.all_takeWhile

/-- A scan finds the end of the text behind blanks. -/
theorem blanks_of_scan {c c' : Cursor} {t : Token} (h : c.scan = .ok t c')
    (ht : t.lexeme = .eof) : t = ⟨.eof, c.skipBlanks.pos⟩ ∧ c.skipBlanks.rest = [] := by
  unfold scan at h
  simp only at h
  split at h
  · rename_i hch
    cases h
    exact ⟨rfl, List.head?_eq_none_iff.1 hch⟩
  · exact absurd ht (scanFrom_ne_eof h)

/-- **The cut of a text.** Scanning reads tokens until blanks are all that is left, or until it
stands, behind blanks, in front of what is wrong. -/
theorem reads_outcomes (c : Cursor) :
    ∃ us q blanks bad, Reads c.pos c.rest us q (blanks ++ bad) ∧ (∀ x ∈ blanks, isBlank x = true) ∧
      ((bad = [] ∧ c.outcomes = ⟨us ++ [⟨.eof, q.after blanks⟩], none⟩) ∨
        ∃ cause, Broken bad cause ∧ c.outcomes = ⟨us, some ⟨cause, q.after blanks⟩⟩) := by
  induction c using Cursor.outcomes.induct with
  | case1 c e c' h =>
    obtain ⟨hbad, hpos⟩ := broken_of_scan h
    refine ⟨[], c.pos, _, c.skipBlanks.rest, c.rest_eq_skipBlanks ▸ .nil, c.isBlank_of_skipped,
      .inr ⟨e.cause, hbad, ?_⟩⟩
    rw [outcomes_error h]
    exact congrArg (fun p => Outcomes.mk [] (some ⟨e.cause, p⟩)) hpos
  | case2 c t c' h ht =>
    obtain ⟨rfl, hrest⟩ := blanks_of_scan h ht
    have hread : Reads c.pos c.rest [] c.pos (c.rest.takeWhile isBlank ++ []) := by
      rw [← hrest, ← rest_eq_skipBlanks]
      exact .nil
    exact ⟨[], c.pos, _, [], hread, c.isBlank_of_skipped, .inl ⟨rfl, outcomes_eof h ht⟩⟩
  | case3 c t c' h ht ih =>
    obtain ⟨us, q, blanks, bad, hread, hb, hends⟩ := ih
    obtain ⟨hpos, hg, he, hrest, hafter⟩ := spelled_of_scan h ht
    have hcons : Reads c.pos c.rest (t :: us) q (blanks ++ bad) := by
      rw [c.rest_eq_skipBlanks, hrest, ← List.append_assoc]
      rw [hafter] at hread
      have := Reads.cons c.isBlank_of_skipped ht hg he hread
      obtain ⟨l, p⟩ := t
      obtain rfl : p = c.skipBlanks.pos := hpos
      exact this
    refine ⟨t :: us, q, blanks, bad, hcons, hb, ?_⟩
    rw [outcomes_token h ht]
    rcases hends with ⟨rfl, ho⟩ | ⟨cause, hbad, ho⟩
    · exact .inl ⟨rfl, by rw [ho]; rfl⟩
    · exact .inr ⟨cause, hbad, by rw [ho]⟩

end Cursor

/-! ## The lexer -/

theorem tokenizes_of_lex {text : String} {ts : List Token} (h : lex text = .ok ts) :
    Tokenizes Pos.origin text.toList ts := by
  obtain ⟨us, q, blanks, bad, hread, hb, ⟨rfl, ho⟩ | ⟨cause, -, ho⟩⟩ :=
    (Cursor.ofText text).reads_outcomes
  · rw [show (Cursor.ofText text).outcomes = _ from scans_of_lex h] at ho
    cases ho
    rw [List.append_nil] at hread
    exact ⟨us, q, blanks, hread, hb, rfl⟩
  · rw [show (Cursor.ofText text).outcomes = _ from scans_of_lex h] at ho
    cases ho

theorem lex_error_iff {text : String} {e : LexError} :
    lex text = .error e ↔
      ∃ us q blanks bad, Reads Pos.origin text.toList us q (blanks ++ bad) ∧
        (∀ c ∈ blanks, isBlank c = true) ∧ Broken bad e.cause ∧ e.pos = q.after blanks := by
  constructor
  · intro h
    obtain ⟨us, q, blanks, bad, hread, hb, ⟨-, ho⟩ | ⟨cause, hbad, ho⟩⟩ :=
      (Cursor.ofText text).reads_outcomes
    · have hf := scans_of_lex_error h
      rw [scans, ho] at hf
      cases hf
    · have hf := scans_of_lex_error h
      rw [scans, ho] at hf
      cases hf
      exact ⟨us, q, blanks, bad, hread, hb, hbad, rfl⟩
  · rintro ⟨us, q, blanks, bad, hread, hb, hbad, hpos⟩
    obtain ⟨c, hr, rfl, ho⟩ := outcomes_of_reads hread (c := Cursor.ofText text) rfl rfl
    obtain ⟨c', hs⟩ := Cursor.scan_broken hb hbad hr
    rw [Cursor.outcomes_error hs, ← hpos] at ho
    rw [lex_eq, scans, ho]

/-- **Maximal munch.** A text has the tokens into which it can be cut, each as long as it can be,
with blanks between them; and an error stands behind a beginning of the text that can be cut, at
a character that begins no token or at a dash that begins no arrow. -/
theorem lex_maximal_munch (text : String) :
    (∀ ts, lex text = .ok ts ↔ Tokenizes Pos.origin text.toList ts) ∧
    ∀ e, lex text = .error e ↔
      ∃ pre bad ts, text.toList = pre ++ bad ∧ Parted pre bad ∧ Tokenizes Pos.origin pre ts ∧
        e.pos = Pos.behind pre ∧ e.cause.Explains bad := by
  refine ⟨fun ts => ⟨tokenizes_of_lex, lex_of_tokenizes⟩, fun e => ?_⟩
  simp only [lex_error_iff, explains_iff]
  constructor
  · rintro ⟨us, q, blanks, bad, hread, hb, hbad, hpos⟩
    obtain ⟨pre, htext, hparted, hts⟩ := reads_iff.1 ⟨q, blanks, hread, hb, hpos⟩
    obtain ⟨us', heof⟩ := hts.eof
    have hend : e.pos = Pos.origin.after pre := by simpa using (List.append_inj' heof rfl).2
    exact ⟨pre, bad, _, htext, hparted, hts, by rw [hend, Pos.after_origin], hbad⟩
  · rintro ⟨pre, bad, ts, htext, hparted, hts, hpos, hbad⟩
    obtain ⟨us, rfl⟩ := hts.eof
    obtain ⟨q, blanks, hread, hb, hq⟩ := reads_iff.2 ⟨pre, htext, hparted, hts⟩
    exact ⟨us, q, blanks, bad, hread, hb, hbad, by rw [hpos, ← hq, Pos.after_origin]⟩

-- The cut does not end inside the word, though a token and no token would stand on its two sides.
example : lex "x1 ?" = .error ⟨.invalidChar '?', ⟨1, 4⟩⟩ := by cbv

end LetFun
