import LetFun.Parse.Steps
import LetFun.Proofs.Grammar.Feed
import LetFun.Proofs.Lexer.Outcomes
/-!
# The nesting limit

A parse under a limit is the parse without one up to the first state that passes
the limit, where it stops (`run_limit`).  A text is `Shallow` for a limit if its
parse without a limit comes to no such state; the limit then plays no part.

Results:
* `parseWithin_of_shallow`: a shallow text is parsed as without a limit.
* `parseWithin_of_cause`: an error other than that of the limit is found without a limit, too.
* `shallow_of_parseWithin`: a text whose parse does not fail at the limit is shallow.
* `shallow_of_within`: a text whose tokens can be fed within the limit is shallow.
-/
namespace LetFun

/-- Whether a parse of the text without a limit comes to no state that passes the limit. -/
def Shallow (limit : Option Nat) (text : String) : Prop :=
  ∀ s l, Parse.Steps .program (Parse.start, Lexer.ofText text) (s, l) → s.passes limit = false

namespace Parse

variable {limit : Option Nat} {goal : Goal} {s s' : State} {l l' : Lexer} {t : Token}

/-! ## One round of a parse -/

theorem run_of_result {e : Expr} (hr : goal.result? s l.look = some e) :
    run limit goal s l = .ok e l := by
  rw [run]
  split
  · rename_i h; rw [hr] at h; cases h; rfl
  · rename_i h; rw [hr] at h; cases h

theorem run_of_next_error {e : LexError} (hr : goal.result? s l.look = none)
    (hn : l.next = .error e l') : run limit goal s l = .error (.lex e) l' := by
  rw [run]
  split
  · rename_i h; rw [hr] at h; cases h
  · split
    · rename_i h; rw [hn] at h; cases h; rfl
    · rename_i h; rw [hn] at h; cases h

theorem run_of_feed_error {e : ParseError} (hr : goal.result? s l.look = none)
    (hn : l.next = .ok t l') (hf : feed s t = .error e) :
    run limit goal s l = .error (.parse e) l' := by
  rw [run]
  split
  · rename_i h; rw [hr] at h; cases h
  · split
    · rename_i h; rw [hn] at h; cases h
    · rename_i h
      rw [hn] at h
      cases h
      split
      · rename_i h; rw [hf] at h; cases h; rfl
      · rename_i h; rw [hf] at h; cases h

theorem run_of_feed (hr : goal.result? s l.look = none) (hn : l.next = .ok t l')
    (hf : feed s t = .ok s') :
    run limit goal s l =
      if s'.passes limit then .error (.parse ⟨.tooDeep, l'.cursor.pos⟩) l'
      else run limit goal s' l' := by
  conv => lhs; rw [run]
  split
  · rename_i h; rw [hr] at h; cases h
  · split
    · rename_i h; rw [hn] at h; cases h
    · rename_i h
      rw [hn] at h
      cases h
      split
      · rename_i h; rw [hf] at h; cases h
      · rename_i h; rw [hf] at h; cases h; rfl

/-! ## Runs -/

theorem run_eq_of_steps {a b : State × Lexer} (h : Steps goal a b) :
    run none goal a.1 a.2 = run none goal b.1 b.2 := by
  induction h with
  | refl => rfl
  | step h _ ih => rw [← ih]; exact run_eq_of_step h

/-- A limited parse is the parse without a limit, unless that comes to a state that passes the
limit; then it stops there. -/
theorem run_limit (limit : Option Nat) (goal : Goal) (s : State) (l : Lexer) :
    run limit goal s l = run none goal s l ∨
      ∃ s' l', Steps goal (s, l) (s', l') ∧ s'.passes limit = true ∧
        run limit goal s l = .error (.parse ⟨.tooDeep, l'.cursor.pos⟩) l' := by
  induction s, l using run.induct limit goal with
  | case1 s l e hr => exact .inl (by rw [run_of_result hr, run_of_result hr])
  | case2 s l hr e l' hn =>
    exact .inl (by rw [run_of_next_error hr hn, run_of_next_error hr hn])
  | case3 s l hr t l' hn e hf =>
    exact .inl (by rw [run_of_feed_error hr hn hf, run_of_feed_error hr hn hf])
  | case4 s l hr t l' hn s' hf hp =>
    refine .inr ⟨s', l', .step (.mk hr hn hf) .refl, hp, ?_⟩
    rw [run_of_feed hr hn hf, if_pos hp]
  | case5 s l hr t l' hn s' hf hp ih =>
    have hstep : Step goal (s, l) (s', l') := .mk hr hn hf
    have hrun : run limit goal s l = run limit goal s' l' := by
      rw [run_of_feed hr hn hf, if_neg hp]
    rw [hrun, run_eq_of_step hstep]
    rcases ih with h | ⟨s₂, l₂, h, hp₂, he⟩
    · exact .inl h
    · exact .inr ⟨s₂, l₂, .step hstep h, hp₂, he⟩

/-- A parse that would come to a state past the limit fails at the limit. -/
theorem run_of_passes {a b : State × Lexer} (h : Steps goal a b) (ha : a.1.passes limit = false)
    (hb : b.1.passes limit = true) :
    ∃ p l', run limit goal a.1 a.2 = .error (.parse ⟨.tooDeep, p⟩) l' := by
  induction h with
  | refl => rw [ha] at hb; cases hb
  | @step a b c h _ ih =>
    cases h with
    | @mk s s' l l' t hr hn hf =>
      by_cases hp : s'.passes limit = true
      · exact ⟨_, _, by rw [run_of_feed hr hn hf, if_pos hp]⟩
      · obtain ⟨p, l₂, he⟩ := ih (by simpa using hp) hb
        exact ⟨p, l₂, by rw [run_of_feed hr hn hf, if_neg hp, he]⟩

end Parse

open Parse

variable {limit : Option Nat} {text : String}

theorem parseWithin_of_run_ok {e : Expr} {l : Lexer}
    (h : run limit .program start (Lexer.ofText text) = .ok e l) :
    parseWithin limit text = .ok e := by
  unfold parseWithin program
  rw [h]

theorem parseWithin_of_run_error {e : Fault} {l : Lexer}
    (h : run limit .program start (Lexer.ofText text) = .error e l) :
    parseWithin limit text = .error e := by
  unfold parseWithin program
  rw [h]

theorem start_passes (limit : Option Nat) : start.passes limit = false := by
  cases limit <;> simp [State.passes, State.cost, Want.cost, Context.cost]

theorem parseWithin_limit (limit : Option Nat) (text : String) :
    parseWithin limit text = parseWithin none text ∨
      (∃ s l, Steps .program (start, Lexer.ofText text) (s, l) ∧ s.passes limit = true) ∧
        ∃ p, parseWithin limit text = .error (.parse ⟨.tooDeep, p⟩) := by
  rcases run_limit limit .program start (Lexer.ofText text) with h | ⟨s, l, hs, hp, h⟩
  · exact .inl (by unfold parseWithin program; rw [h])
  · exact .inr ⟨⟨s, l, hs, hp⟩, _, parseWithin_of_run_error h⟩

theorem parseWithin_of_shallow (h : Shallow limit text) :
    parseWithin limit text = parseWithin none text := by
  rcases parseWithin_limit limit text with he | ⟨⟨s, l, hs, hp⟩, -⟩
  · exact he
  · rw [h s l hs] at hp; cases hp

theorem parseWithin_of_cause {e : ParseError} (h : parseWithin limit text = .error (.parse e))
    (hc : e.cause ≠ .tooDeep) : parseWithin none text = .error (.parse e) := by
  rcases parseWithin_limit limit text with he | ⟨-, p, he⟩
  · rw [← he, h]
  · rw [he] at h; cases h; exact absurd rfl hc

theorem parseWithin_of_ok {e : Expr} (h : parseWithin limit text = .ok e) :
    parseWithin none text = .ok e := by
  rcases parseWithin_limit limit text with he | ⟨-, p, he⟩
  · rw [← he, h]
  · rw [he] at h; cases h

theorem shallow_of_parseWithin
    (h : ∀ p, parseWithin limit text ≠ .error (.parse ⟨.tooDeep, p⟩)) : Shallow limit text := by
  intro s l hs
  cases hp : s.passes limit with
  | false => rfl
  | true =>
    obtain ⟨p, l', he⟩ := run_of_passes hs (start_passes limit) hp
    exact absurd (parseWithin_of_run_error he) (h p)

/-! ## Tokens within a limit -/

/-- Whether feeding the tokens, up to the first that cannot be fed, comes to no state that passes
the limit. -/
def Parse.within (limit : Option Nat) (s : State) : List Token → Bool
  | [] => !s.passes limit
  | t :: ts =>
    !s.passes limit &&
      match feed s t with
      | .ok s' => within limit s' ts
      | .error _ => true

theorem passes_of_within {s : State} {ts : List Token} (h : within limit s ts = true) :
    s.passes limit = false := by
  cases ts with
  | nil => simpa [within] using h
  | cons t ts =>
    simp only [within, Bool.and_eq_true, Bool.not_eq_true'] at h
    exact h.1

theorem within_of_feed {s s' : State} {t : Token} {ts : List Token}
    (h : within limit s (t :: ts) = true) (hf : feed s t = .ok s') :
    within limit s' ts = true := by
  simp only [within, hf, Bool.and_eq_true] at h
  exact h.2

/-- No step leaves a state that has reached the end of the program. -/
theorem steps_of_done {s : State} {l : Lexer} {b : State × Lexer} {e : Expr}
    (h : Steps .program (s, l) b) (hd : s.want = .done e) : b = (s, l) := by
  cases h with
  | refl => rfl
  | step h _ =>
    cases h with
    | mk hr _ _ => simp [Goal.result?, hd] at hr

/-- A parse draws the tokens that are still to come, so the induction is on its steps, with the
outcomes of the lexer as what is left to feed. -/
theorem steps_within {a b : State × Lexer} (h : Steps .program a b) (hl : a.2.Settled)
    (hw : within limit a.1 a.2.outcomes.tokens = true) : b.1.passes limit = false := by
  induction h with
  | refl => exact passes_of_within hw
  | @step a b c hstep hrest ih =>
    cases hstep with
    | @mk s s₁ l l₁ t hr hn hf =>
      rcases Lexer.next_cases hl hn with ⟨ho, ht⟩ | ⟨u, ts, htok, hl₁, ho⟩
      · obtain ⟨e, hd⟩ := feed_eof ht hf
        obtain rfl := steps_of_done hrest hd
        rw [ho] at hw
        exact passes_of_within (within_of_feed hw hf)
      · rw [htok] at hw
        exact ih hl₁ (by rw [ho]; exact within_of_feed hw hf)

theorem shallow_of_within (h : within limit start (scans text).tokens = true) :
    Shallow limit text :=
  fun _ _ hs => steps_within hs (Lexer.settled_ofText text) (by rw [outcomes_ofText]; exact h)

end LetFun
