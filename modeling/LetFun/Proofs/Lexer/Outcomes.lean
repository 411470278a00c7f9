import LetFun.Lexer.Stream
/-!
# The outcomes of a text

`Cursor.outcomes` scans again and again up to the end of the text or to the first
scan that fails, whichever comes first: the tokens found, and the error if there
was one.  A lexer that has read a token ahead has that token in front
(`Lexer.outcomes`).

What `next` answers depends on two outcomes, the one that it hands over and the
one behind it, since it refills the room at once.  At the end of the text the
refill finds the end again, which needs that nothing is left behind a token read
ahead that is the end (`Lexer.Settled`).

Results:
* `next_ok`, `next_refill`, `next_first`, `next_cases`: what `next` answers.
* `lex_eq`: the tokens of a text are its outcomes.
-/
namespace LetFun

/-- The tokens found before the scanning stops, and the error that stops it unless the text
ends first. -/
structure Outcomes where
  tokens : List Token
  fault? : Option LexError
deriving DecidableEq, Repr

namespace Cursor

def outcomes (c : Cursor) : Outcomes :=
  match _h : c.scan with
  | .error e _ => ⟨[], some e⟩
  | .ok t c' =>
    if _ht : t.lexeme = .eof then ⟨[t], none⟩
    else
      let o := outcomes c'
      ⟨t :: o.tokens, o.fault?⟩
termination_by c.rest.length
decreasing_by
  have h := c.scan_progress
  rw [_h] at h
  exact h _ht

theorem outcomes_error {c c' : Cursor} {e : LexError} (h : c.scan = .error e c') :
    c.outcomes = ⟨[], some e⟩ := by
  rw [outcomes]
  split
  · rename_i h'; rw [h] at h'; cases h'; rfl
  · rename_i h'; rw [h] at h'; cases h'

theorem outcomes_eof {c c' : Cursor} {t : Token} (h : c.scan = .ok t c')
    (ht : t.lexeme = .eof) : c.outcomes = ⟨[t], none⟩ := by
  rw [outcomes]
  split
  · rename_i h'; rw [h] at h'; cases h'
  · rename_i h'; rw [h] at h'; cases h'; rw [dif_pos ht]

theorem outcomes_token {c c' : Cursor} {t : Token} (h : c.scan = .ok t c')
    (ht : t.lexeme ≠ .eof) : c.outcomes = ⟨t :: c'.outcomes.tokens, c'.outcomes.fault?⟩ := by
  rw [outcomes]
  split
  · rename_i h'; rw [h] at h'; cases h'
  · rename_i h'; rw [h] at h'; cases h'; rw [dif_neg ht]

end Cursor

/-- Outcomes as scanning gives them: only the last token is the end of the text, and it is
there unless an error is. -/
structure Outcomes.WF (o : Outcomes) : Prop where
  eof_last : ∀ {pre post : List Token} {t : Token}, o.tokens = pre ++ t :: post →
    t.lexeme = .eof → post = [] ∧ o.fault? = none
  ends : o.fault? = none → ∃ us p, o.tokens = us ++ [⟨.eof, p⟩]

theorem Outcomes.WF.ne_eof {o : Outcomes} (h : o.WF) (pre : List Token) {post : List Token}
    {t u : Token}    (heq : o.tokens = pre ++ t :: u :: post) : t.lexeme ≠ .eof := by
  intro ht
  cases (h.eof_last heq ht).1

theorem Outcomes.WF.eof_of_single {t : Token} (h : Outcomes.WF ⟨[t], none⟩) : t.lexeme = .eof := by
  obtain ⟨us, p, hus⟩ := h.ends rfl
  cases us with
  | nil => cases hus; rfl
  | cons u us => simp at hus

theorem Outcomes.WF.cons {o : Outcomes} (h : o.WF) {t : Token} (ht : t.lexeme ≠ .eof) :
    Outcomes.WF ⟨t :: o.tokens, o.fault?⟩ where
  eof_last {pre post t'} heq ht' := by
    cases pre with
    | nil => cases heq; exact absurd ht' ht
    | cons u pre => exact h.eof_last (List.cons.inj heq).2 ht'
  ends hf := by
    obtain ⟨us, p, hus⟩ := h.ends hf
    exact ⟨t :: us, p, by simp [hus]⟩

theorem Outcomes.wf_eof {t : Token} (ht : t.lexeme = .eof) : Outcomes.WF ⟨[t], none⟩ where
  eof_last {pre post t'} heq _ := by
    cases pre with
    | nil => cases heq; exact ⟨rfl, rfl⟩
    | cons u pre => simp at heq
  ends _ := by
    obtain ⟨l, p⟩ := t
    obtain rfl : l = .eof := ht
    exact ⟨[], p, rfl⟩

theorem Outcomes.wf_error (e : LexError) : Outcomes.WF ⟨[], some e⟩ where
  eof_last heq _ := by simp at heq
  ends hf := by cases hf

theorem Cursor.wf_outcomes (c : Cursor) : c.outcomes.WF := by
  induction c using Cursor.outcomes.induct with
  | case1 c e c' h => rw [outcomes_error h]; exact Outcomes.wf_error e
  | case2 c t c' h ht => rw [outcomes_eof h ht]; exact Outcomes.wf_eof ht
  | case3 c t c' h ht ih => rw [outcomes_token h ht]; exact ih.cons ht

namespace Lexer

/-- What is still to come: the token read ahead, and then the outcomes of the text behind it. -/
def outcomes (l : Lexer) : Outcomes :=
  match l.look with
  | none => l.cursor.outcomes
  | some t =>
    if t.lexeme = .eof then ⟨[t], none⟩
    else ⟨t :: l.cursor.outcomes.tokens, l.cursor.outcomes.fault?⟩

theorem outcomes_of_look {l : Lexer} {t : Token} (h : l.look = some t) (ht : t.lexeme ≠ .eof) :
    l.outcomes = ⟨t :: l.cursor.outcomes.tokens, l.cursor.outcomes.fault?⟩ := by
  simp [outcomes, h, ht]

/-- Nothing is left behind a token read ahead that is the end of the text. -/
def Settled (l : Lexer) : Prop := ∀ t, l.look = some t → t.lexeme = .eof → l.cursor.rest = []

theorem settled_ofText (s : String) : (ofText s).Settled := by
  intro t ht; cases ht

theorem wf_outcomes (l : Lexer) : l.outcomes.WF := by
  unfold outcomes
  split
  · exact l.cursor.wf_outcomes
  · split
    · exact Outcomes.wf_eof ‹_›
    · exact l.cursor.wf_outcomes.cons ‹_›

/-! ## Refilling -/

/-- A refill that succeeds puts the next outcome into the room. -/
theorem fill_ok {l : Lexer} {t : Token} {ts : List Token} (h : l.cursor.outcomes.tokens = t :: ts) :
    ∃ l', fill l = .ok t l' ∧ l'.look = some t ∧ l'.Settled ∧
      l'.outcomes = l.cursor.outcomes := by
  cases hs : l.cursor.scan with
  | error e c => rw [Cursor.outcomes_error hs] at h; cases h
  | ok u c =>
    by_cases hu : u.lexeme = .eof
    · have ho := Cursor.outcomes_eof hs hu
      rw [ho] at h ⊢
      cases h
      refine ⟨⟨c, some t⟩, by simp [fill, hs], rfl, ?_, by simp [outcomes, hu]⟩
      intro _ _ _
      exact Cursor.scan_eof hs hu
    · have ho := Cursor.outcomes_token hs hu
      rw [ho] at h ⊢
      cases h
      refine ⟨⟨c, some t⟩, by simp [fill, hs], rfl, ?_, outcomes_of_look rfl hu⟩
      intro _ ht hte
      cases ht
      exact absurd hte hu

theorem fill_error {l : Lexer} {e : LexError} (h : l.cursor.outcomes = ⟨[], some e⟩) :
    ∃ l', fill l = .error e l' := by
  cases hs : l.cursor.scan with
  | error e' c =>
    rw [Cursor.outcomes_error hs] at h
    cases h
    exact ⟨_, by simp only [fill, hs]; rfl⟩
  | ok u c =>
    by_cases hu : u.lexeme = .eof
    · rw [Cursor.outcomes_eof hs hu] at h; cases h
    · rw [Cursor.outcomes_token hs hu] at h; cases h

/-- Behind the end of the text a refill finds the end again. -/
theorem fill_eof {l : Lexer} (h : l.cursor.rest = []) :
    ∃ t l', fill l = .ok t l' ∧ t.lexeme = .eof := by
  have hs : l.cursor.skipBlanks.rest = [] := by
    have := l.cursor.rest_skipBlanks_length_le
    rw [h] at this
    exact List.eq_nil_of_length_eq_zero (by simpa using this)
  exact ⟨_, _, by simp only [fill, Cursor.scan, Cursor.char?, hs, List.head?_nil]; rfl, rfl⟩

/-! ## Handing over -/

/-- Peeking shows the first outcome and leaves it in front. -/
theorem peek_ok {l : Lexer} {t : Token} {ts : List Token} (hl : l.Settled)
    (h : l.outcomes.tokens = t :: ts) :
    ∃ l', peek l = .ok t l' ∧ l'.look = some t ∧ l'.Settled ∧ l'.outcomes = l.outcomes := by
  cases hk : l.look with
  | none =>
    have ho : l.outcomes = l.cursor.outcomes := by simp [outcomes, hk]
    rw [ho] at h ⊢
    simpa [peek, hk] using fill_ok h
  | some u =>
    have hu : u = t := by
      simp only [outcomes, hk] at h
      split at h <;> cases h <;> rfl
    subst hu
    exact ⟨l, by simp [peek, hk], hk, hl, rfl⟩

/-- `next` hands over the first outcome if another token follows it. -/
theorem next_ok {l : Lexer} {t u : Token} {ts : List Token} (hl : l.Settled)
    (h : l.outcomes.tokens = t :: u :: ts) :
    ∃ l', next l = .ok t l' ∧ l'.look = some u ∧ l'.Settled ∧
      l'.outcomes = ⟨u :: ts, l.outcomes.fault?⟩ := by
  obtain ⟨l₁, hp, hk, -, ho⟩ := peek_ok hl h
  have ht : t.lexeme ≠ .eof := l.wf_outcomes.ne_eof [] h
  rw [← ho, outcomes_of_look hk ht] at h ⊢
  have hc : l₁.cursor.outcomes.tokens = u :: ts := (List.cons.inj h).2
  obtain ⟨l₂, hf, hk₂, hl₂, ho₂⟩ := fill_ok hc
  refine ⟨l₂, by rw [next_eq, hp]; simp [hf], hk₂, hl₂, ?_⟩
  rw [ho₂, ← hc]

/-- `next` hands over the end of the text and stays there. -/
theorem next_eof {l : Lexer} {t : Token} (hl : l.Settled) (h : l.outcomes = ⟨[t], none⟩) :
    ∃ l', next l = .ok t l' := by
  have htok : l.outcomes.tokens = [t] := by rw [h]
  obtain ⟨l₁, hp, hk, hl₁, ho⟩ := peek_ok hl htok
  have ht : t.lexeme = .eof := (h ▸ l.wf_outcomes).eof_of_single
  obtain ⟨u, l₂, hf, -⟩ := fill_eof (hl₁ t hk ht)
  exact ⟨l₂, by rw [next_eq, hp]; simp [hf]⟩

/-- An error overtakes the token in front of it: the refill meets it first. -/
theorem next_refill {l : Lexer} {t : Token} {e : LexError} (hl : l.Settled)
    (h : l.outcomes = ⟨[t], some e⟩) : ∃ l', next l = .error e l' := by
  have htok : l.outcomes.tokens = [t] := by rw [h]
  obtain ⟨l₁, hp, hk, -, ho⟩ := peek_ok hl htok
  rw [h] at ho
  simp only [outcomes, hk] at ho
  split at ho
  · cases ho
  · simp only [Outcomes.mk.injEq, List.cons.injEq, true_and] at ho
    have hc : l₁.cursor.outcomes = ⟨[], some e⟩ := by rw [← ho.1, ← ho.2]
    obtain ⟨l₂, hf⟩ := fill_error hc
    exact ⟨l₂, by rw [next_eq, hp]; simp [hf]⟩

/-- An error in front of all tokens is met at once. -/
theorem next_first {l : Lexer} {e : LexError} (h : l.outcomes = ⟨[], some e⟩) :
    ∃ l', next l = .error e l' := by
  cases hk : l.look with
  | none =>
    simp only [outcomes, hk] at h
    obtain ⟨l₂, hf⟩ := fill_error h
    exact ⟨l₂, by rw [next_eq]; simp [peek, hk, hf]⟩
  | some t =>
    simp only [outcomes, hk] at h
    split at h <;> cases h

/-- What `next` hands over is the first outcome: the end of the text, or a token with another
one behind it. -/
theorem next_cases {l l' : Lexer} {t : Token} (hl : l.Settled) (hn : next l = .ok t l') :
    (l.outcomes = ⟨[t], none⟩ ∧ t.lexeme = .eof) ∨
      ∃ u ts, l.outcomes.tokens = t :: u :: ts ∧ l'.Settled ∧
        l'.outcomes = ⟨u :: ts, l.outcomes.fault?⟩ := by
  cases htok : l.outcomes.tokens with
  | nil =>
    cases hfault : l.outcomes.fault? with
    | none =>
      obtain ⟨us, p, hus⟩ := l.wf_outcomes.ends hfault
      simp [htok] at hus
    | some e =>
      obtain ⟨l₁, he⟩ := next_first (l := l) (e := e) (by rw [← htok, ← hfault])
      rw [hn] at he
      cases he
  | cons u ts =>
    cases ts with
    | nil =>
      cases hfault : l.outcomes.fault? with
      | none =>
        have ho : l.outcomes = ⟨[u], none⟩ := by rw [← htok, ← hfault]
        obtain ⟨l₁, hu⟩ := next_eof hl ho
        rw [hn] at hu
        cases hu
        exact .inl ⟨ho, (ho ▸ l.wf_outcomes).eof_of_single⟩
      | some e =>
        obtain ⟨l₁, he⟩ := next_refill (t := u) hl (by rw [← htok, ← hfault])
        rw [hn] at he
        cases he
    | cons v ts =>
      obtain ⟨l₁, hu, -, hl₁, ho⟩ := next_ok hl htok
      rw [hn] at hu
      cases hu
      exact .inr ⟨v, ts, rfl, hl₁, ho⟩

/-! ## All tokens at once -/

theorem drain_error {done : List Token} {l l' : Lexer} {e : LexError} (h : next l = .error e l') :
    drain done l = .error e l' := by
  rw [drain]
  split
  · rename_i h'; rw [h] at h'; cases h'; rfl
  · rename_i h'; rw [h] at h'; cases h'

theorem drain_last {done : List Token} {l l' : Lexer} {t : Token} (h : next l = .ok t l')
    (ht : t.lexeme = .eof) : drain done l = .ok (t :: done).reverse l' := by
  rw [drain]
  split
  · rename_i h'; rw [h] at h'; cases h'
  · rename_i h'; rw [h] at h'; cases h'; rw [dif_pos ht]

theorem drain_next {done : List Token} {l l' : Lexer} {t : Token} (h : next l = .ok t l')
    (ht : t.lexeme ≠ .eof) : drain done l = drain (t :: done) l' := by
  conv => lhs; rw [drain]
  split
  · rename_i h'; rw [h] at h'; cases h'
  · rename_i h'; rw [h] at h'; cases h'; rw [dif_neg ht]

theorem drain_outcomes {ts : List Token} (done : List Token) {l : Lexer} (hl : l.Settled)
    (hts : l.outcomes.tokens = ts) :
    match l.outcomes.fault? with
    | none => ∃ l', drain done l = .ok (done.reverse ++ ts) l'
    | some e => ∃ l', drain done l = .error e l' := by
  induction ts generalizing l done with
  | nil =>
    cases hf : l.outcomes.fault? with
    | none =>
      obtain ⟨us, p, hus⟩ := l.wf_outcomes.ends hf
      rw [hts] at hus
      simp at hus
    | some e =>
      obtain ⟨l', hn⟩ := next_first (l := l) (e := e) (by rw [← hts, ← hf])
      exact ⟨l', drain_error hn⟩
  | cons t ts ih =>
    cases ts with
    | nil =>
      cases hf : l.outcomes.fault? with
      | none =>
        have ho : l.outcomes = ⟨[t], none⟩ := by rw [← hts, ← hf]
        have ht : t.lexeme = .eof := (ho ▸ l.wf_outcomes).eof_of_single
        obtain ⟨l', hn⟩ := next_eof hl ho
        exact ⟨l', by rw [drain_last hn ht]; simp⟩
      | some e =>
        obtain ⟨l', hn⟩ := next_refill (t := t) hl (by rw [← hts, ← hf])
        exact ⟨l', drain_error hn⟩
    | cons u ts =>
      obtain ⟨l', hn, -, hl', ho⟩ := next_ok hl hts
      have ht : t.lexeme ≠ .eof := l.wf_outcomes.ne_eof [] hts
      have hrest := ih (t :: done) hl' (by rw [ho])
      rw [ho] at hrest
      rw [drain_next hn ht]
      simpa using hrest

end Lexer

/-- The outcomes of scanning a text from its start. -/
def scans (text : String) : Outcomes := (Cursor.ofText text).outcomes

theorem outcomes_ofText (text : String) : (Lexer.ofText text).outcomes = scans text := rfl

theorem wf_scans (text : String) : (scans text).WF := (Cursor.ofText text).wf_outcomes

/-- The tokens of a text are its outcomes, unless there is an error among them. -/
theorem lex_eq (text : String) :
    lex text =
      match (scans text).fault? with
      | none => .ok (scans text).tokens
      | some e => .error e := by
  have h := Lexer.drain_outcomes [] (Lexer.settled_ofText text) rfl
  rw [outcomes_ofText] at h
  unfold lex Lexer.tokenize
  split at h
  · obtain ⟨l', h⟩ := h
    simp [h]
  · obtain ⟨l', h⟩ := h
    simp [h]

theorem lex_of_scans {text : String} {ts : List Token} (h : scans text = ⟨ts, none⟩) :
    lex text = .ok ts := by
  rw [lex_eq, h]

theorem scans_of_lex {text : String} {ts : List Token} (h : lex text = .ok ts) :
    scans text = ⟨ts, none⟩ := by
  rw [lex_eq] at h
  split at h
  · rename_i hf; cases h; rw [← hf]
  · cases h

theorem scans_of_lex_error {text : String} {e : LexError} (h : lex text = .error e) :
    (scans text).fault? = some e := by
  rw [lex_eq] at h
  split at h
  · cases h
  · rename_i hf; cases h; exact hf

end LetFun
