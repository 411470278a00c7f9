import LetFun.Proofs.Grammar.Feed
import LetFun.Proofs.Lexer.Onward
import LetFun.Proofs.Parse.Limit
/-!
# Parses from the middle of a text

A parse without a limit may begin with any lexer, also with one that has handed over
tokens or has failed.  What it comes to is told by the stream of that lexer
(`ComesTo`): it feeds the tokens of the stream one by one until its goal is reached,
the stream goes on with an error, or a token cannot be fed.  The lexer that it leaves
has read one outcome beyond the last token that was handed over.

Results:
* `comesTo_run`: every parse comes to one of these ends.
* `run_of_feeds`: a goal that is not reached before is reached where the tokens lead to it.
-/
namespace LetFun.Parse

/-- What a parse for a goal comes to when it begins with a state and a lexer. -/
inductive ComesTo (goal : Goal) (s : State) (l : Lexer) :
    EStateM.Result Fault Lexer Expr → Prop where
  /-- The goal was reached before. -/
  | here {e : Expr} : goal.result? s l.look = some e → ComesTo goal s l (.ok e l)
  /-- Tokens lead to the goal; the one behind them is read ahead. -/
  | reached {ts : List Token} {t : Token} {s' : State} {e : Expr} :
      l.Begins (ts ++ [t]) → ts ≠ [] → feeds s ts = .ok s' → goal.result? s' (some t) = some e →
      ComesTo goal s l (.ok e ⟨l.behind ts.length, some t⟩)
  /-- An error stands behind tokens; the last of them is kept. -/
  | lexical {ts : List Token} {e : LexError} :
      l.Begins ts → l.stream ts.length = .error e →
      ComesTo goal s l (.error (.lex e) ⟨l.behind ts.length, ts.getLast?⟩)
  /-- A token behind others cannot be fed; the one behind it is read ahead. -/
  | syntactic {ts : List Token} {t u : Token} {s' : State} {err : ParseError} :
      l.Begins (ts ++ [t, u]) → feeds s ts = .ok s' → feed s' t = .error err →
      ComesTo goal s l (.error (.parse err) ⟨l.behind (ts.length + 1), some u⟩)

section
variable {goal : Goal} {s s' : State} {l : Lexer} {t u : Token}

/-- A parse comes to what it comes to behind its first token. -/
theorem ComesTo.step {r : EStateM.Result Fault Lexer Expr} (h₀ : l.stream 0 = .ok t)
    (h₁ : l.stream 1 = .ok u) (hf : feed s t = .ok s')
    (h : ComesTo goal s' ⟨l.behind 1, some u⟩ r) : ComesTo goal s l r := by
  have hbegins : ∀ {ts}, Lexer.Begins ⟨l.behind 1, some u⟩ ts → l.Begins (t :: ts) :=
    fun hts => (Lexer.begins_cons_cons h₁).2 ⟨h₀, hts⟩
  cases h with
  | here hr =>
    exact .reached (hbegins (Lexer.begins_concat (Lexer.begins_nil _) rfl)) (List.cons_ne_nil t [])
      (feeds_cons [] hf) hr
  | @reached ts v s₂ e hts hne hfeeds hr =>
    rw [l.behind_add, Nat.add_comm]
    exact .reached (hbegins hts) (List.cons_ne_nil t ts) ((feeds_cons ts hf).trans hfeeds) hr
  | @lexical ts e hts herr =>
    -- the first outcome is the token that was read ahead, so the error is not in front
    have hne : ts ≠ [] := by
      rintro rfl
      cases herr
    rw [l.behind_add, Nat.add_comm, ← List.getLast?_cons_of_ne_nil hne]
    rw [Lexer.stream_add h₁, Nat.add_comm] at herr
    exact .lexical (hbegins hts) herr
  | @syntactic ts v w s₂ err hts hfeeds hv =>
    rw [l.behind_add, Nat.add_comm]
    have hbegins' : l.Begins ((t :: ts) ++ [v, w]) := hbegins hts
    exact .syntactic hbegins' ((feeds_cons ts hf).trans hfeeds) hv

end

theorem comesTo_run (goal : Goal) (s : State) (l : Lexer) :
    ComesTo goal s l (run none goal s l) := by
  induction s, l using run.induct none goal with
  | case1 s l e hr =>
    rw [run_of_result hr]
    exact .here hr
  | case2 s l hr e l' hn =>
    rw [run_of_next_error hr hn]
    obtain ⟨ts, hts, he, rfl⟩ := Lexer.begins_of_next_error hn
    exact .lexical hts he
  | case3 s l hr t l' hn err hf =>
    rw [run_of_feed_error hr hn hf]
    obtain ⟨h₀, u, h₁, rfl⟩ := Lexer.stream_of_next hn
    have hbegins : l.Begins ([] ++ [t, u]) :=
      Lexer.begins_concat (Lexer.begins_concat l.begins_nil h₀) h₁
    exact .syntactic hbegins rfl hf
  | case4 s l hr t l' hn s' hf hp => cases hp
  | case5 s l hr t l' hn s' hf hp ih =>
    obtain ⟨h₀, u, h₁, rfl⟩ := Lexer.stream_of_next hn
    rw [run_of_feed hr hn hf, if_neg hp]
    exact ih.step h₀ h₁ hf

/-- Tokens lead to a goal that is not reached before. -/
theorem run_of_feeds {goal : Goal} {s s' : State} {l : Lexer} {ts : List Token} {t : Token}
    {e : Expr} (hl : l.Begins (ts ++ [t])) (hfeeds : feeds s ts = .ok s')
    (hfirst : goal.result? s l.look = none)
    (hbefore : ∀ pre u post s₁, ts = pre ++ u :: post → pre ≠ [] → feeds s pre = .ok s₁ →
      goal.result? s₁ (some u) = none)
    (hend : goal.result? s' (some t) = some e) (hne : ts ≠ []) :
    run none goal s l = .ok e ⟨l.behind ts.length, some t⟩ := by
  induction ts generalizing s l with
  | nil => exact absurd rfl hne
  | cons v ts ih =>
    obtain ⟨s₁, hv, hrest⟩ : ∃ s₁, feed s v = .ok s₁ ∧ feeds s₁ ts = .ok s' := by
      simp only [feeds] at hfeeds
      split at hfeeds
      · exact ⟨_, ‹_›, hfeeds⟩
      · cases hfeeds
    have h₀ : l.stream 0 = .ok v := hl 0 v rfl
    cases ts with
    | nil =>
      cases hrest
      have h₁ : l.stream 1 = .ok t := hl 1 t rfl
      have hgoal : goal.result? s' (Lexer.mk (l.behind 1) (some t)).look = some e := hend
      rw [run_of_feed hfirst (Lexer.next_of_stream h₀ h₁) hv]
      exact run_of_result hgoal
    | cons w ts =>
      have h₁ : l.stream 1 = .ok w := hl 1 w rfl
      have hnext : goal.result? s₁ (some w) = none :=
        hbefore [v] w ts s₁ rfl (List.cons_ne_nil v []) (feeds_cons [] hv)
      have hrun := ih (l := ⟨l.behind 1, some w⟩) ((Lexer.begins_cons_cons h₁).1 hl).2 hrest hnext
        (fun pre u post s₂ heq _ hpre =>
          hbefore (v :: pre) u post s₂ (by rw [heq]; rfl) (List.cons_ne_nil v pre)
            ((feeds_cons pre hv).trans hpre))
        (List.cons_ne_nil w ts)
      rw [run_of_feed hfirst (Lexer.next_of_stream h₀ h₁) hv]
      rw [l.behind_add, Nat.add_comm] at hrun
      exact hrun

end LetFun.Parse
