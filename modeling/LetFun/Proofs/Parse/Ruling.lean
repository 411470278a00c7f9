import LetFun.Proofs.Grammar.Viable
import LetFun.Proofs.Lexer.Outcomes
import LetFun.Proofs.Parse.Limit
/-!
# What the outcomes of a text decide

Parsing on demand sees a text only through the outcomes of its scans.  It feeds
their tokens one by one, each as soon as the outcome behind it is known; so an
error of the lexer overtakes an error of syntax at the token right in front of
it, and no other.

`Ruling o r` says that outcomes `o` make a parse without a nesting limit come
to `r`.

Results:
* `steps_of_feeds`: tokens that can be fed are steps of a parse.
* `ruling_parse`: every parse comes to what the outcomes of its text decide.
-/
namespace LetFun

open Parse

namespace Parse

variable {s s' : State} {l : Lexer} {t : Token}

theorem not_done_of_feed (h : feed s t = .ok s') (e : Expr) : s.want ≠ .done e := by
  intro he
  unfold feed at h
  simp [he, unexpected] at h

theorem result?_program (h : ∀ e, s.want ≠ .done e) (look : Option Token) :
    Goal.program.result? s look = none := by
  unfold Goal.result?
  split
  · rename_i he; exact absurd he (h _)
  · rename_i hg; cases hg
  · rename_i hg; cases hg
  · rfl

/-- The end of the text is behind a state that has reached its goal. -/
theorem Holds.not_done {o : Outcomes} (ho : o.WF) {pre post : List Token} (hs : Holds s pre)
    (heq : o.tokens = pre ++ t :: post) (e : Expr) : s.want ≠ .done e := by
  intro he
  cases hs with
  | @done e' us p hd =>
    rw [List.append_assoc, List.singleton_append] at heq
    exact ho.ne_eof _ heq rfl
  | _ => cases he

theorem steps_of_feeds {pre post : List Token} (hl : l.Settled)
    (ho : l.outcomes.tokens = pre ++ t :: post) (hf : feeds s pre = .ok s') :
    ∃ l', Steps .program (s, l) (s', l') ∧ l'.Settled ∧
      l'.outcomes = ⟨t :: post, l.outcomes.fault?⟩ := by
  induction pre generalizing s l with
  | nil =>
    cases hf
    exact ⟨l, .refl, hl, by rw [List.nil_append] at ho; rw [← ho]⟩
  | cons u pre ih =>
    simp only [feeds] at hf
    split at hf
    · rename_i s₁ hu
      obtain ⟨v, vs, hv⟩ : ∃ v vs, pre ++ t :: post = v :: vs := by
        cases pre <;> exact ⟨_, _, rfl⟩
      rw [List.cons_append, hv] at ho
      obtain ⟨l₁, hn, -, hl₁, ho₁⟩ := Lexer.next_ok hl ho
      obtain ⟨l', hs, hl', ho'⟩ := ih hl₁ (by rw [ho₁, hv]) hf
      rw [ho₁] at ho'
      exact ⟨l', .step (.mk (result?_program (not_done_of_feed hu) _) hn hu) hs, hl', ho'⟩
    · cases hf

end Parse

/-- What a parse without a nesting limit comes to if the scans of its text have the
outcomes `o`. -/
inductive Ruling (o : Outcomes) : Except Fault Expr → Prop where
  /-- All tokens can be fed, and no error is behind them. -/
  | accepted {us : List Token} {e : Expr} {p : Pos} :
      o.fault? = none → o.tokens = us ++ [⟨.eof, p⟩] → Derives .expr us e → Ruling o (.ok e)
  /-- All tokens but the last can be fed, and an error is behind them. -/
  | lexical {err : LexError} {s : State} :
      o.fault? = some err → feeds start o.tokens.dropLast = .ok s → Ruling o (.error (.lex err))
  /-- A token cannot be fed, and what is behind it is no error. -/
  | syntactic {pre post : List Token} {t : Token} {s : State} {err : ParseError} :
      o.tokens = pre ++ t :: post → (o.fault? = none ∨ post ≠ []) →
      feeds start pre = .ok s → feed s t = .error err → Ruling o (.error (.parse err))

section
variable {text : String} {o : Outcomes} (ho : scans text = o)
include ho

/-- A parse goes on from the state behind the tokens that it has fed. -/
theorem parse_at {pre post : List Token} {t : Token} {s : State}
    (heq : o.tokens = pre ++ t :: post) (hf : feeds start pre = .ok s) :
    ∃ l, l.Settled ∧ l.outcomes = ⟨t :: post, o.fault?⟩ ∧
      run none .program start (Lexer.ofText text) = run none .program s l := by
  have hl : (Lexer.ofText text).outcomes = o := (outcomes_ofText text).trans ho
  obtain ⟨l, hs, hset, hout⟩ :=
    steps_of_feeds (Lexer.settled_ofText text) (by rw [hl, heq]) hf
  exact ⟨l, hset, by rw [hout, hl], run_eq_of_steps hs⟩

theorem parse_accepted {us : List Token} {p : Pos} {s : State} (hfault : o.fault? = none)
    (heq : o.tokens = us ++ [⟨.eof, p⟩]) (hf : feeds start (us ++ [⟨.eof, p⟩]) = .ok s) :
    ∃ e, parseWithin none text = .ok e ∧ Derives .expr us e := by
  obtain ⟨s₁, hus, heof⟩ := feeds_append_ok hf
  simp only [feeds] at heof
  split at heof
  · rename_i s₂ ht
    cases heof
    obtain ⟨l, hl, hout, hstart⟩ := parse_at ho heq hus
    rw [hfault] at hout
    obtain ⟨l', hn⟩ := Lexer.next_eof hl hout
    obtain ⟨e, he⟩ := feed_eof rfl ht
    obtain rfl := (holds_start.feeds hf).eq_done he
    have hrun : run none .program s₁ l = .ok e l' := by
      rw [run_of_feed (result?_program (not_done_of_feed ht) _) hn ht]
      exact run_of_result rfl
    exact ⟨e, parseWithin_of_run_ok (hstart.trans hrun), derives_of_feeds hf⟩
  · cases heof

theorem parse_lexical {pre : List Token} {t : Token} {s : State} {err : LexError}
    (hfault : o.fault? = some err) (heq : o.tokens = pre ++ [t]) (hf : feeds start pre = .ok s) :
    parseWithin none text = .error (.lex err) := by
  obtain ⟨l, hl, hout, hstart⟩ := parse_at ho heq hf
  rw [hfault] at hout
  obtain ⟨l', hn⟩ := Lexer.next_refill hl hout
  have hd := Holds.not_done (ho ▸ wf_scans text) (holds_start.feeds hf) heq
  have hgoal := result?_program hd l.look
  exact parseWithin_of_run_error (hstart.trans (run_of_next_error hgoal hn))

theorem parse_syntactic {pre post : List Token} {t : Token} {s : State} {err : ParseError}
    (heq : o.tokens = pre ++ t :: post) (hpost : o.fault? = none ∨ post ≠ [])
    (hf : feeds start pre = .ok s) (ht : feed s t = .error err) :
    parseWithin none text = .error (.parse err) := by
  obtain ⟨l, hl, hout, hstart⟩ := parse_at ho heq hf
  obtain ⟨l', hn⟩ : ∃ l', l.next = .ok t l' := by
    cases post with
    | nil =>
      have hfault : o.fault? = none := hpost.resolve_right fun h => h rfl
      exact Lexer.next_eof hl (by rw [hout, hfault])
    | cons u post =>
      obtain ⟨l', hn, -⟩ := Lexer.next_ok hl (by rw [hout])
      exact ⟨l', hn⟩
  have hd := Holds.not_done (ho ▸ wf_scans text) (holds_start.feeds hf) heq
  have hgoal := result?_program hd l.look
  exact parseWithin_of_run_error (hstart.trans (run_of_feed_error hgoal hn ht))

end

theorem ruling_parse (text : String) :
    Ruling (scans text) (parseWithin none text) := by
  generalize ho : scans text = o
  have hwf : o.WF := ho ▸ wf_scans text
  rcases feeds_total start o.tokens with ⟨s, hf⟩ | ⟨pre, t, post, s, err, heq, hf, ht⟩
  · cases hfault : o.fault? with
    | none =>
      obtain ⟨us, p, heq⟩ := hwf.ends hfault
      obtain ⟨e, hparse, he⟩ := parse_accepted ho hfault heq (heq ▸ hf)
      rw [hparse]
      exact .accepted hfault heq he
    | some err =>
      rcases List.eq_nil_or_concat o.tokens with hnil | ⟨pre, t, heq⟩
      · obtain ⟨l, hn⟩ := Lexer.next_first (l := Lexer.ofText text) (e := err)
          (by rw [outcomes_ofText, ho, ← hnil, ← hfault])
        have hgoal : Goal.program.result? start (Lexer.ofText text).look = none := rfl
        rw [parseWithin_of_run_error (run_of_next_error hgoal hn)]
        exact .lexical hfault (by rw [hnil]; rfl)
      · rw [List.concat_eq_append] at heq
        rw [heq] at hf
        obtain ⟨s₁, hpre, -⟩ := feeds_append_ok hf
        rw [parse_lexical ho hfault heq hpre]
        exact .lexical hfault (by rw [heq, List.dropLast_concat]; exact hpre)
  · by_cases hlast : o.fault? = none ∨ post ≠ []
    · rw [parse_syntactic ho heq hlast hf ht]
      exact .syntactic heq hlast hf ht
    · obtain ⟨hfault, hpost⟩ := not_or.1 hlast
      obtain ⟨err', hfault⟩ := Option.ne_none_iff_exists'.1 hfault
      obtain rfl : post = [] := Classical.not_not.1 hpost
      rw [parse_lexical ho hfault heq hf]
      exact .lexical hfault (by rw [heq, List.dropLast_concat]; exact hf)

end LetFun
