import LetFun.Pos.Shift
import LetFun.Proofs.Lexer.MaximalMunch
/-!
# Two texts, one behind the other

Where no word runs across the seam, the tokens of two texts put together are those
of the first and, moved to where it ends, those of the second.  The first text ends
in blanks, which in the whole belong to the first token of the second text.

The tokens of a text are told from the start of the text, so the second text is
first read where the first one ends (`Reads.shift`), and only then put behind it.

Results:
* `Tokenizes.behind`: the tokens of two texts are tokens of the whole.
* `lex_error_iff_split`: an error stands behind a part of the text that can be read.
* `lex_append`, `lex_append_error`: the lexer reads the second text as if it stood alone.
* `lex_composes`: the same of all texts the first of which can be read.
-/
namespace LetFun

/-- The same token at another position. -/
def Token.mapPos (f : Pos → Pos) (t : Token) : Token := ⟨t.lexeme, f t.pos⟩

/-! ## Moved texts -/

section
variable {p q : Pos} {cs ds : List Char} {ts : List Token} (base : Pos)

theorem Reads.shift (h : Reads p cs ts q ds) (hp : 1 ≤ p.line) :
    Reads (base.shift p) cs (ts.map (Token.mapPos base.shift)) (base.shift q) ds := by
  induction h with
  | nil => exact .nil
  | @cons p q blanks rest ds l ts hb hl hg he _ ih =>
    have hblanks : 1 ≤ (p.after blanks).line := Int.le_trans hp (p.line_le_after blanks)
    have hrest := ih (Int.le_trans hblanks (Pos.line_le_after _ _))
    rw [← Pos.after_shift _ _ _ hblanks, ← Pos.after_shift _ _ _ hp] at hrest
    rw [List.map_cons, Token.mapPos, ← Pos.after_shift _ _ _ hp]
    exact .cons hb hl hg he hrest

theorem Tokenizes.shift (h : Tokenizes p cs ts) (hp : 1 ≤ p.line) :
    Tokenizes (base.shift p) cs (ts.map (Token.mapPos base.shift)) := by
  obtain ⟨us, r, blanks, hread, hb, rfl⟩ := h
  obtain ⟨pre, -, -, rfl, -⟩ := hread.split
  have hline : 1 ≤ (p.after pre).line := Int.le_trans hp (p.line_le_after pre)
  refine ⟨_, _, blanks, hread.shift base hp, hb, ?_⟩
  rw [List.map_append, Pos.after_shift _ _ _ hline]
  rfl

end

/-! ## The seam -/

theorem Parted.of_append_right {cs ds es : List Char} (h : Parted cs (ds ++ es)) :
    Parted cs ds := by
  intro c d hc hd
  exact h c d hc (by rw [List.head?_append, hd]; rfl)

/-- A text in two parts is parted from what follows if its second part is, or the first if there
is nothing in the second. -/
theorem Parted.join {cs ds es : List Char} (h : Parted cs (ds ++ es)) (hds : Parted ds es) :
    Parted (cs ++ ds) es := by
  intro c d hc hd
  cases hlast : ds.getLast? with
  | some c' =>
    rw [List.getLast?_append, hlast] at hc
    cases hc
    exact hds c d hlast hd
  | none =>
    obtain rfl := List.getLast?_eq_none_iff.1 hlast
    rw [List.append_nil] at hc
    exact h c d hc hd

section
variable {p q : Pos} {cs ds : List Char} {us vs : List Token}

theorem Tokenizes.append (h : Tokenizes p cs (us ++ [⟨.eof, q⟩])) (hds : Parted cs ds)
    (h' : Tokenizes q ds vs) : Tokenizes p (cs ++ ds) (us ++ vs) := by
  obtain ⟨us', r, blanks, hread, hb, heq⟩ := h
  obtain ⟨rfl, heof⟩ := List.append_inj' heq rfl
  cases heof
  obtain ⟨ws, r', blanks', hread', hb', rfl⟩ := h'
  have hfirst := hread.append hds
  cases ws with
  | nil =>
    cases hread'
    refine ⟨us, r, blanks ++ ds, by simpa using hfirst, List.forall_mem_append.2 ⟨hb, hb'⟩, ?_⟩
    rw [Pos.after_append, List.nil_append]
  | cons t ws =>
    exact ⟨us ++ t :: ws, r', blanks', hfirst.trans (hread'.blanks hb), hb',
      (List.append_assoc ..).symm⟩

theorem Tokenizes.behind (h : Tokenizes .origin cs (us ++ [⟨.eof, q⟩])) (hds : Parted cs ds)
    (h' : Tokenizes .origin ds vs) :
    Tokenizes .origin (cs ++ ds) (us ++ vs.map (Token.mapPos q.shift)) := by
  have hmoved := h'.shift q (by decide)
  rw [Pos.shift_origin] at hmoved
  exact h.append hds hmoved

end

/-! ## The lexer -/

theorem pos_of_lex {text : String} {us : List Token} {q : Pos}
    (h : lex text = .ok (us ++ [⟨.eof, q⟩])) : q = Pos.behind text.toList := by
  obtain ⟨us', heof⟩ := (tokenizes_of_lex h).eof
  have hq := (List.append_inj' heof rfl).2
  rw [Pos.after_origin] at hq
  cases hq
  rfl

/-- An error stands behind a part of the text that can be read as a text of its own. -/
theorem lex_error_iff_split {text : String} {e : LexError} :
    lex text = .error e ↔
      ∃ pre bad us, text.toList = pre ++ bad ∧ Parted pre bad ∧
        Tokenizes .origin pre (us ++ [⟨.eof, e.pos⟩]) ∧ Broken bad e.cause := by
  rw [lex_error_iff]
  constructor
  · rintro ⟨us, q, blanks, bad, hread, hb, hbad, hpos⟩
    obtain ⟨pre, htext, hparted, hts⟩ := reads_iff.1 ⟨q, blanks, hread, hb, hpos⟩
    exact ⟨pre, bad, us, htext, hparted, hts, hbad⟩
  · rintro ⟨pre, bad, us, htext, hparted, hts, hbad⟩
    obtain ⟨q, blanks, hread, hb, hpos⟩ := reads_iff.2 ⟨pre, htext, hparted, hts⟩
    exact ⟨us, q, blanks, bad, hread, hb, hbad, hpos⟩

section
variable {a b : String} {us : List Token} {q : Pos}
  (ha : lex a = .ok (us ++ [⟨.eof, q⟩])) (hab : Parted a.toList b.toList)
include ha hab

theorem lex_append {vs : List Token} (hb : lex b = .ok vs) :
    lex (a ++ b) = .ok (us ++ vs.map (Token.mapPos q.shift)) := by
  have hwhole := (tokenizes_of_lex ha).behind hab (tokenizes_of_lex hb)
  rw [← String.toList_append] at hwhole
  exact lex_of_tokenizes hwhole

theorem lex_append_error {e : LexError} (hb : lex b = .error e) :
    lex (a ++ b) = .error ⟨e.cause, q.shift e.pos⟩ := by
  obtain ⟨pre, bad, vs, htext, hparted, hts, hbad⟩ := lex_error_iff_split.1 hb
  rw [htext] at hab
  have hwhole := (tokenizes_of_lex ha).behind hab.of_append_right hts
  rw [List.map_append, ← List.append_assoc] at hwhole
  refine lex_error_iff_split.2 ⟨a.toList ++ pre, bad, _, ?_, hab.join hparted, hwhole, hbad⟩
  rw [String.toList_append, htext, List.append_assoc]

end

/-- **Two texts.** If the first of two texts can be read, and its last character and the first one
of the second are not both characters of names, then the whole is read as the tokens of the first
text and those of the second, moved to the end of the first; and if the second text cannot be read,
the whole has the same error, moved in the same way. -/
theorem lex_composes {a b : String} {ts : List Token} (ha : lex a = .ok ts)
    (hab : Parted a.toList b.toList) :
    ∃ us, ts = us ++ [⟨.eof, Pos.behind a.toList⟩] ∧
      (∀ vs, lex b = .ok vs →
        lex (a ++ b) = .ok (us ++ vs.map (Token.mapPos (Pos.behind a.toList).shift))) ∧
      ∀ e, lex b = .error e →
        lex (a ++ b) = .error ⟨e.cause, (Pos.behind a.toList).shift e.pos⟩ := by
  obtain ⟨us, rfl⟩ := (tokenizes_of_lex ha).eof
  rw [Pos.after_origin] at ha ⊢
  exact ⟨us, rfl, fun vs hb => lex_append ha hab hb, fun e hb => lex_append_error ha hab hb⟩

/-- On the line on which the first text ends columns go on from there; on a further line they are
those of the second text. -/
theorem lex_composes_lines :
    (∃ ts, lex "f\nx" = .ok ts ∧ Parted "f\nx".toList "(y\n z".toList) ∧
      lex ("f\nx" ++ "(y\n z") = .ok [⟨.ident "f", ⟨1, 1⟩⟩, ⟨.ident "x", ⟨2, 1⟩⟩,
        ⟨.lparen, ⟨2, 2⟩⟩, ⟨.ident "y", ⟨2, 3⟩⟩, ⟨.ident "z", ⟨3, 2⟩⟩, ⟨.eof, ⟨3, 3⟩⟩] ∧
      lex ("f\nx" ++ "(-") = .error ⟨.brokenArrow none, ⟨2, 3⟩⟩ := by
  have hscans : scans "f\nx" =
        ⟨[⟨.ident "f", ⟨1, 1⟩⟩, ⟨.ident "x", ⟨2, 1⟩⟩] ++ [⟨.eof, ⟨2, 2⟩⟩], none⟩ ∧
      scans "(y\n z" = ⟨[⟨.lparen, ⟨1, 1⟩⟩, ⟨.ident "y", ⟨1, 2⟩⟩, ⟨.ident "z", ⟨2, 2⟩⟩,
        ⟨.eof, ⟨2, 3⟩⟩], none⟩ ∧
      scans "(-" = ⟨[⟨.lparen, ⟨1, 1⟩⟩], some ⟨.brokenArrow none, ⟨1, 2⟩⟩⟩ := by
    decide +kernel
  obtain ⟨hf, hy, hdash⟩ := hscans
  have hparted (b : String) (hb : b.toList.head? = some '(') :
      Parted "f\nx".toList b.toList := by
    intro c d _ hd
    rw [hb] at hd
    cases hd
    exact .inr (by decide)
  have hlex := lex_of_scans hf
  refine ⟨⟨_, hlex, hparted _ (by decide)⟩, ?_, ?_⟩
  · obtain ⟨us, hus, hok, -⟩ := lex_composes hlex (hparted "(y\n z" (by decide))
    obtain ⟨rfl, -⟩ := List.append_inj' hus rfl
    exact hok _ (lex_of_scans hy)
  · obtain ⟨-, -, -, herr⟩ := lex_composes hlex (hparted "(-" (by decide))
    exact herr ⟨.brokenArrow none, ⟨1, 2⟩⟩ (by rw [lex_eq, hdash])

end LetFun
