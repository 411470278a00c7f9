import LetFun.Scan
/-!
# Texts as tokens

`Reads p cs ts q ds` says that a text at position `p` which holds `cs` begins with
the tokens `ts`, each behind some blanks and as long as it can be, and goes on at
`q` with `ds`.  A text that ends well ends in blanks; a text that ends badly goes
on, behind blanks, with a character that begins no token.

Results:
* `Reads.trans`: what is read in two parts is read as a whole.
* `Reads.blanks`: blanks in front of a text belong to its first token.
-/

namespace LetFun

/-- Whether a lexeme ends where a rest begins: a word ends before anything but a name character. -/
def Lexeme.EndsBefore (l : Lexeme) (rest : List Char) : Prop :=
  l.isWordy = true → ∀ c, rest.head? = some c → isNameChar c = false

/-- A text begins with tokens and goes on behind them. -/
inductive Reads : Pos → List Char → List Token → Pos → List Char → Prop where
  | nil {p : Pos} {cs : List Char} : Reads p cs [] p cs
  | cons {p q : Pos} {blanks rest ds : List Char} {l : Lexeme} {ts : List Token} :
      (∀ c ∈ blanks, isBlank c = true) → l ≠ .eof → l.legal = true → l.EndsBefore rest →
      Reads ((p.after blanks).after l.spelling.toList) rest ts q ds →
      Reads p (blanks ++ l.spelling.toList ++ rest) (⟨l, p.after blanks⟩ :: ts) q ds

/-- The whole text is tokens and blanks. -/
def Tokenizes (p : Pos) (cs : List Char) (ts : List Token) : Prop :=
  ∃ us q blanks, Reads p cs us q blanks ∧ (∀ c ∈ blanks, isBlank c = true) ∧
    ts = us ++ [⟨.eof, q.after blanks⟩]

/-- Whether a text goes on with characters that are no token, and why. -/
inductive Broken : List Char → LexCause → Prop where
  | invalid {c : Char} {cs : List Char} : isBlank c = false → Opening.of c = .invalid →
      Broken (c :: cs) (.invalidChar c)
  | dash {cs : List Char} : cs.head? ≠ some '>' → Broken ('-' :: cs) (.brokenArrow cs.head?)

theorem Reads.trans {p q r : Pos} {cs ds es : List Char} {ts us : List Token}
    (h₁ : Reads p cs ts q ds) (h₂ : Reads q ds us r es) : Reads p cs (ts ++ us) r es := by
  induction h₁ with
  | nil => exact h₂
  | cons hb hl hg he _ ih => exact .cons hb hl hg he (ih h₂)

/-- Blanks in front of a token belong to the blanks before it. -/
theorem Reads.blanks {p q : Pos} {blanks cs ds : List Char} {t : Token} {ts : List Token}
    (hb : ∀ c ∈ blanks, isBlank c = true) (h : Reads (p.after blanks) cs (t :: ts) q ds) :
    Reads p (blanks ++ cs) (t :: ts) q ds := by
  cases h with
  | @cons _ _ blanks' rest _ l _ hb' hl hg he h =>
    have hall : ∀ c ∈ blanks ++ blanks', isBlank c = true := List.forall_mem_append.2 ⟨hb, hb'⟩
    have hafter : p.after (blanks ++ blanks') = (p.after blanks).after blanks' :=
      Pos.after_append p blanks blanks'
    rw [← hafter] at h ⊢
    rw [← List.append_assoc, ← List.append_assoc]
    exact .cons hall hl hg he h

end LetFun
