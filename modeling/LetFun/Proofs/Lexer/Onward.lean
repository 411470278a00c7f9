import LetFun.Call.Reachable
import LetFun.Proofs.Lexer.Delivery
import LetFun.Proofs.Lexer.Invariant
import LetFun.Proofs.Lexer.MaximalMunch
/-!
# A lexer and its stream

What a lexer is still going to find is one stream, the token read ahead and then the
scans, and `next` is told by the first two outcomes of it (`next_eq_stream`): the
first is handed over if the second is a token, which is then read ahead.  A lexer
that has handed over tokens is at a later place of the same stream
(`stream_add`, `behind_add`).

This needs nothing of the lexer.  Only that the end of the text stays does: a lexer
may hold an end that is not that of its text, but no calls that take tokens in order
lead to one (`Reachable.ends`).

Results:
* `justRead_behind`, `justRead_behind_error`: the cursor stands behind what it scanned last.
* `next_eq_stream`: what `next` answers, and the lexer that it leaves.
* `Reachable.of_fill`: what a refill keeps holds of every lexer that orderly calls lead to.
* `stream_eof`: behind the end of the text stands the end again.
-/
namespace LetFun

namespace Cursor

variable {c c' : Cursor} {t : Token} {e : LexError} {n : Nat}

/-! ## What was scanned last -/

theorem justRead_of_scan (h : c.scan = .ok t c') : c'.JustRead t.pos t.lexeme.spelling := by
  refine ⟨lexeme_of_scan h, ?_⟩
  by_cases ht : t.lexeme = .eof
  · obtain ⟨rfl, hrest⟩ := blanks_of_scan h ht
    have hend : c.scan = .ok ⟨.eof, c.skipBlanks.pos⟩ c.skipBlanks := by
      simp [scan, char?, hrest]
    rw [hend] at h
    cases h
    rfl
  · obtain ⟨hpos, -, -, -, hafter⟩ := spelled_of_scan h ht
    rw [hpos, hafter]

theorem justRead_of_scan_error (h : c.scan = .error e c') : c'.JustRead e.pos e.cause.bad := by
  unfold scan at h
  simp only at h
  split at h
  · cases h
  · rename_i ch hch
    obtain ⟨rest, hrest⟩ : ∃ rest, c.skipBlanks.rest = ch :: rest := List.head?_eq_some_iff.1 hch
    have htaken : c.skipBlanks.taken = [] := rfl
    simp only [scanFrom] at h
    split at h
    · cases h
    · rename_i ho
      obtain rfl := opening_dash ho
      split at h
      · cases h
      · cases h
        cases rest <;> simp [JustRead, advance, hrest, htaken, char?, lexeme, LexCause.bad]
    · cases h
    · cases h
    · cases h
      simp [JustRead, advance, hrest, htaken, lexeme, LexCause.bad]

theorem after_add (c : Cursor) (m n : Nat) : c.after (m + n) = (c.after m).after n := by
  induction n with
  | zero => rfl
  | succ n ih => rw [← Nat.add_assoc, after_succ, ih, ← after_succ]

theorem stream_add (c : Cursor) (m n : Nat) : c.stream (m + n) = (c.after m).stream n := by
  rw [stream, after_add, stream]

/-- What a scan comes to, told by the stream. -/
theorem scan_eq (c : Cursor) :
    c.scan =
      match c.stream 0 with
      | .ok t => .ok t (c.after 1)
      | .error e => .error e (c.after 1) := by
  cases h : c.scan <;> simp [stream, after, outcome, scanned, h]

theorem justRead_after (h : c.stream n = .ok t) :
    (c.after (n + 1)).JustRead t.pos t.lexeme.spelling := by
  rw [← Nat.add_zero n, stream_add] at h
  rw [after_add]
  exact justRead_of_scan (by rw [scan_eq, h])

theorem justRead_after_error (h : c.stream n = .error e) :
    (c.after (n + 1)).JustRead e.pos e.cause.bad := by
  rw [← Nat.add_zero n, stream_add] at h
  rw [after_add]
  exact justRead_of_scan_error (by rw [scan_eq, h])

/-- Behind the end of the text a scan finds the end again, at the same place. -/
theorem stream_eof (h : c.stream n = .ok t) (ht : t.lexeme = .eof) : c.stream (n + 1) = .ok t := by
  rw [← Nat.add_zero n, stream_add] at h
  have hscan : (c.after n).scan = .ok t ((c.after n).after 1) := by rw [scan_eq, h]
  have hrest : ((c.after n).after 1).rest = [] := scan_eof hscan ht
  obtain ⟨-, hpos⟩ := justRead_of_scan hscan
  rw [ht] at hpos
  obtain ⟨l, p⟩ := t
  obtain rfl : l = .eof := ht
  have hagain : ((c.after n).after 1).outcome = .ok ⟨.eof, p⟩ := by
    simp [outcome, scan, skipBlanks, advanceWhile, mark, char?, hrest, hpos, Lexeme.spelling]
  rw [stream_add, ← hagain]
  rfl

end Cursor

namespace Lexer

variable {l l' : Lexer} {t u : Token} {e : LexError} {n : Nat}

/-! ## Places of a stream -/

theorem behind_of_look (h : l.look = some t) (n : Nat) : l.behind n = l.cursor.after n := by
  simp [behind, h]

theorem behind_of_empty (h : l.look = none) (n : Nat) : l.behind n = l.cursor.after (n + 1) := by
  simp [behind, h]

/-- The stream behind an outcome is that of the cursor behind it. -/
theorem stream_behind (l : Lexer) (n i : Nat) : l.stream (n + (i + 1)) = (l.behind n).stream i := by
  cases h : l.look with
  | none =>
    rw [behind_of_empty h, ← Cursor.stream_add]
    simp only [stream, h]
    congr 1
    omega
  | some t =>
    rw [behind_of_look h, ← Cursor.stream_add, ← Nat.add_assoc]
    simp only [stream, h]

/-- The lexer that has read the outcome with index `n` ahead is at that place of the stream. -/
theorem stream_add (h : l.stream n = .ok u) (i : Nat) :
    stream ⟨l.behind n, some u⟩ i = l.stream (n + i) := by
  cases i with
  | zero => exact h.symm
  | succ i => exact (l.stream_behind n i).symm

theorem behind_add (l : Lexer) (n i : Nat) (u : Token) :
    behind ⟨l.behind n, some u⟩ i = l.behind (n + i) := by
  rw [behind_of_look rfl, behind, behind, ← Cursor.after_add]
  congr 1
  split <;> omega

theorem justRead_behind (h : l.stream (n + 1) = .ok t) :
    (l.behind (n + 1)).JustRead t.pos t.lexeme.spelling := by
  cases hl : l.look with
  | none =>
    rw [behind_of_empty hl]
    exact Cursor.justRead_after (by simpa [stream, hl] using h)
  | some u =>
    rw [behind_of_look hl]
    exact Cursor.justRead_after (by simpa [stream, hl] using h)

theorem justRead_behind_error (h : l.stream n = .error e) :
    (l.behind n).JustRead e.pos e.cause.bad := by
  cases hl : l.look with
  | none =>
    rw [behind_of_empty hl]
    exact Cursor.justRead_after_error (by simpa [stream, hl] using h)
  | some u =>
    rw [behind_of_look hl]
    cases n with
    | zero => simp [stream, hl] at h
    | succ n => exact Cursor.justRead_after_error (by simpa [stream, hl] using h)

/-! ## Handing over -/

theorem fill_eq_stream (l : Lexer) :
    fill l =
      match l.cursor.stream 0 with
      | .ok t => .ok t ⟨l.cursor.after 1, some t⟩
      | .error e => .error e ⟨l.cursor.after 1, l.look⟩ := by
  rw [fill, Cursor.scan_eq]
  cases l.cursor.stream 0 <;> rfl

/-- What `next` answers, and the lexer that it leaves. -/
theorem next_eq_stream (l : Lexer) :
    next l =
      match l.stream 0, l.stream 1 with
      | .ok t, .ok u => .ok t ⟨l.behind 1, some u⟩
      | .ok t, .error e => .error e ⟨l.behind 1, some t⟩
      | .error e, _ => .error e ⟨l.behind 0, none⟩ := by
  obtain ⟨c, look⟩ := l
  cases look with
  | some t =>
    simp only [next_eq, peek, fill_eq_stream, stream, behind, Option.isSome_some, if_true]
    cases c.stream 0 <;> rfl
  | none =>
    simp only [next_eq, peek, fill_eq_stream, stream, behind, Option.isSome_none]
    cases h : c.stream 0 with
    | error e => rfl
    | ok t =>
      simp only [← Cursor.stream_add, ← Cursor.after_add]
      cases c.stream 1 <;> rfl

theorem next_of_stream (h₀ : l.stream 0 = .ok t) (h₁ : l.stream 1 = .ok u) :
    next l = .ok t ⟨l.behind 1, some u⟩ := by
  rw [next_eq_stream, h₀, h₁]

/-- A token is handed over if another token is behind it. -/
theorem stream_of_next (h : next l = .ok t l') :
    l.stream 0 = .ok t ∧ ∃ u, l.stream 1 = .ok u ∧ l' = ⟨l.behind 1, some u⟩ := by
  rw [next_eq_stream] at h
  split at h
  · cases h
    exact ⟨‹_›, _, ‹_›, rfl⟩
  · cases h
  · cases h

/-! ## Beginnings of a stream -/

theorem begins_nil (l : Lexer) : l.Begins [] := by
  intro i t h
  simp at h

theorem begins_cons {ts : List Token} :
    l.Begins (t :: ts) ↔
      l.stream 0 = .ok t ∧ ∀ i u, ts[i]? = some u → l.stream (i + 1) = .ok u := by
  constructor
  · exact fun h => ⟨h 0 t rfl, fun i u hi => h (i + 1) u hi⟩
  · rintro ⟨h₀, hs⟩ (_ | i) u hi
    · cases hi
      exact h₀
    · exact hs i u hi

/-- What a lexer begins with behind the token that it hands over. -/
theorem begins_cons_cons {ts : List Token} (h₁ : l.stream 1 = .ok u) :
    l.Begins (t :: ts) ↔ l.stream 0 = .ok t ∧ Begins ⟨l.behind 1, some u⟩ ts := by
  rw [begins_cons]
  simp only [Begins, stream_add h₁, Nat.add_comm 1]

theorem Begins.of_append {ts us : List Token} (h : l.Begins (ts ++ us)) : l.Begins ts := by
  intro i t hi
  refine h i t ?_
  rw [List.getElem?_append_left (List.getElem?_eq_some_iff.1 hi).1, hi]

theorem Begins.stream_length {ts us : List Token} (h : l.Begins (ts ++ t :: us)) :
    l.stream ts.length = .ok t := h _ _ (by simp)

theorem begins_concat {ts : List Token} (h : l.Begins ts) (ht : l.stream ts.length = .ok t) :
    l.Begins (ts ++ [t]) := by
  intro i u hi
  rcases Nat.lt_or_ge i ts.length with hlt | hge
  · rw [List.getElem?_append_left hlt] at hi
    exact h i u hi
  · obtain ⟨rfl, rfl⟩ : i = ts.length ∧ u = t := by
      rw [List.getElem?_append_right hge, List.getElem?_singleton] at hi
      split at hi
      · cases hi
        exact ⟨by omega, rfl⟩
      · cases hi
    exact ht

/-- An error that `next` meets stands behind one token, which is read ahead then, or in front. -/
theorem begins_of_next_error (h : next l = .error e l') :
    ∃ ts, l.Begins ts ∧ l.stream ts.length = .error e ∧
      l' = ⟨l.behind ts.length, ts.getLast?⟩ := by
  rw [next_eq_stream] at h
  split at h
  · cases h
  · rename_i t e' h₀ h₁
    cases h
    exact ⟨[t], begins_concat l.begins_nil h₀, h₁, rfl⟩
  · cases h
    exact ⟨[], l.begins_nil, ‹_›, rfl⟩

theorem toOption_stream : (l.stream n).toOption = some t ↔ l.stream n = .ok t := by
  cases l.stream n <;> simp [Except.toOption]

instance (l : Lexer) (ts : List Token) : Decidable (l.Begins ts) :=
  decidable_of_iff (∀ i : Fin ts.length, (l.stream i).toOption = some ts[i]) <| by
    simp only [toOption_stream]
    refine ⟨fun h i t hi => ?_, fun h i => h i _ (List.getElem?_eq_getElem i.2)⟩
    obtain ⟨hlt, rfl⟩ := List.getElem?_eq_some_iff.1 hi
    exact h ⟨i, hlt⟩

/-- Of two beginnings of a stream the shorter one begins the other. -/
theorem Begins.isPrefix {ts us : List Token} (h : l.Begins ts) (h' : l.Begins us)
    (hlen : ts.length ≤ us.length) : ts <+: us := by
  refine List.prefix_iff_getElem?.2 fun i hi => ?_
  have ht := h i ts[i] (List.getElem?_eq_getElem hi)
  have hu := h' i us[i] (List.getElem?_eq_getElem (by omega))
  rw [ht, Except.ok.injEq] at hu
  rw [List.getElem?_eq_getElem (by omega), hu]

/-! ## The end of the text -/

/-- The token read ahead, if it is the end of the text, is what the next scan finds. -/
def Ends (l : Lexer) : Prop :=
  ∀ t, l.look = some t → t.lexeme = .eof → l.cursor.stream 0 = .ok t

theorem ends_ofText (text : String) : (ofText text).Ends := nofun

theorem Ends.fill (h : l.Ends) : (endState l.fill).Ends := by
  rw [fill_eq_stream]
  cases hs : l.cursor.stream 0 with
  | ok t =>
    rintro _ ⟨⟩ ht
    exact (Cursor.stream_add ..).symm.trans (Cursor.stream_eof hs ht)
  | error e =>
    intro t hl ht
    rw [h t hl ht] at hs
    cases hs

theorem Ends.stream_eof (hl : l.Ends) (h : l.stream n = .ok t) (ht : t.lexeme = .eof) :
    l.stream (n + 1) = .ok t := by
  cases hk : l.look with
  | none =>
    simp only [stream, hk] at h ⊢
    exact Cursor.stream_eof h ht
  | some u =>
    cases n with
    | zero =>
      simp only [stream, hk] at h ⊢
      cases h
      exact hl _ hk ht
    | succ n =>
      simp only [stream, hk] at h ⊢
      exact Cursor.stream_eof h ht

end Lexer

/-! ## Orderly calls -/

namespace Parse

/-- Hands over the next token and takes what it gives, or refuses it. -/
def accept {α : Type} (gives : Token → Option α) (w : Wanted) : Parsing α := fun l =>
  match l.next with
  | .error e l' => .error (.lex e) l'
  | .ok t l' =>
    match gives t with
    | some a => .ok a l'
    | none => .error (.parse ⟨.unexpected t.lexeme w, t.pos⟩) l'

theorem token_eq (f : Form) :
    token f = accept (fun t => if t.lexeme.form = f then some t else none) (.form f) := by
  funext l
  simp only [token, nextToken, accept, bind, EStateM.bind]
  cases l.next with
  | error e l' => rfl
  | ok t l' => by_cases ht : t.lexeme.form = f <;> simp only [ht, if_true, if_false] <;> rfl

theorem ident_eq :
    ident = accept (fun t => match t.lexeme with | .ident x => some x | _ => none)
      .identifier := by
  funext l
  simp only [ident, nextToken, accept, bind, EStateM.bind]
  cases l.next with
  | error e l' => rfl
  | ok t l' => obtain ⟨lexeme, p⟩ := t; cases lexeme <;> rfl

end Parse

namespace Lexer

/-- An operation keeps a property of lexers, whether it succeeds or fails. -/
def Keeps {ε α : Type} (P : Lexer → Prop) (m : EStateM ε Lexer α) : Prop :=
  ∀ l, P l → P (endState (m l))

section
variable {P : Lexer → Prop}

theorem Keeps.of_same {ε ε' α β : Type} {m : EStateM ε Lexer α} {m' : EStateM ε' Lexer β}
    (hm : Keeps P m) (h : ∀ l, endState (m' l) = endState (m l)) : Keeps P m' := by
  intro l hl
  rw [h l]
  exact hm l hl

theorem Keeps.map {ε α β : Type} {m : EStateM ε Lexer α} (hm : Keeps P m) (f : α → β) :
    Keeps P (f <$> m) := by
  refine hm.of_same fun l => ?_
  simp only [Functor.map, EStateM.map]
  cases m l <;> rfl

theorem Keeps.lifted {α : Type} {m : Lexing α} (hm : Keeps P m) (wrap : α → Answer) :
    Keeps P (Call.lifted wrap m) := by
  refine hm.of_same fun l => ?_
  unfold Call.lifted
  cases m l <;> rfl

theorem Keeps.reply {l : Lexer} {c : Call} (hc : Keeps P c.perform) (hl : P l) :
    P (c.reply l).2 := by
  have hperform := hc l hl
  unfold Call.reply
  cases hr : c.perform l <;> rw [hr] at hperform <;> exact hperform

variable (hfill : Keeps P fill)
include hfill

theorem keeps_peek : Keeps P peek := by
  intro l hl
  unfold peek
  split
  · exact hl
  · exact hfill l hl

theorem keeps_next : Keeps P next := by
  intro l hl
  have hp := keeps_peek hfill l hl
  rw [next_eq]
  cases hr : l.peek with
  | error e l₁ =>
    rw [hr] at hp
    exact hp
  | ok t l₁ =>
    rw [hr] at hp
    have hf := hfill l₁ hp
    dsimp only
    cases hr₁ : l₁.fill <;> rw [hr₁] at hf <;> exact hf

theorem keeps_run (limit : Option Nat) (goal : Parse.Goal) (s : Parse.State) :
    Keeps P (Parse.run limit goal s) := by
  intro l hl
  have hnext := keeps_next hfill l hl
  induction s, l using Parse.run.induct limit goal with
  | case1 s l e hr => rw [Parse.run_of_result hr]; exact hl
  | case2 s l hr e l' hn => rw [hn] at hnext; rw [Parse.run_of_next_error hr hn]; exact hnext
  | case3 s l hr t l' hn e hf =>
    rw [hn] at hnext
    rw [Parse.run_of_feed_error hr hn hf]
    exact hnext
  | case4 s l hr t l' hn s' hf hp =>
    rw [hn] at hnext
    rw [Parse.run_of_feed hr hn hf, if_pos hp]
    exact hnext
  | case5 s l hr t l' hn s' hf hp ih =>
    rw [hn] at hnext
    rw [Parse.run_of_feed hr hn hf, if_neg hp]
    exact ih hnext (keeps_next hfill l' hnext)

theorem keeps_accept {α : Type} (gives : Token → Option α) (w : Wanted) :
    Keeps P (Parse.accept gives w) := by
  refine (keeps_next hfill).of_same fun l => ?_
  unfold Parse.accept
  cases l.next with
  | error e l' => rfl
  | ok t l' => dsimp only; split <;> rfl

theorem keeps_perform {c : Call} (hc : c.isOrderly = true) : Keeps P c.perform := by
  cases c with
  | peek => exact (keeps_peek hfill).lifted _
  | next => exact (keeps_next hfill).lifted _
  | scan | tokenize | lexeme | advance | peekChar | name => cases hc
  | token f =>
    rw [Call.perform, Parse.token_eq]
    exact (keeps_accept hfill _ _).map _
  | ident =>
    rw [Call.perform, Parse.ident_eq]
    exact (keeps_accept hfill _ _).map _
  | simpleExpr | application | expr | letExpr | funExpr | program =>
    exact (keeps_run hfill _ _ _).map _

/-- What holds at the start and is kept by a refill holds of every lexer that orderly calls lead
to, also by way of errors. -/
theorem Reachable.of_fill {text : String} (h : Reachable Call.isOrderly text l)
    (hstart : P (ofText text)) : P l := by
  induction h with
  | start => exact hstart
  | call _ hc ih => exact (keeps_perform hfill hc).reply ih

end

/-- The end that a lexer holds is that of its text. -/
theorem Reachable.ends {text : String} (h : Reachable Call.isOrderly text l) : l.Ends :=
  h.of_fill (fun _ hl => hl.fill) (ends_ofText text)

end Lexer
end LetFun
