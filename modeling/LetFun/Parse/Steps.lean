import LetFun.Parse
/-!
# Steps of a parse

A parse without a limit goes from state to state by single steps, each of which
draws one token and feeds it.  `Steps` is the closure of this; it says which states
a parse comes through, whether it succeeds or not.

Results:
* `Steps.trans`: steps compose.
* `run_eq_of_step`: a step does not change what a parse comes to.
-/

namespace LetFun.Parse

/-- One step of a parse that has not reached its goal. -/
inductive Step (goal : Goal) : State × Lexer → State × Lexer → Prop where
  | mk {s s' : State} {l l' : Lexer} {t : Token} :
      goal.result? s l.look = none → l.next = .ok t l' → feed s t = .ok s' →
      Step goal (s, l) (s', l')

/-- Any number of steps. -/
inductive Steps (goal : Goal) : State × Lexer → State × Lexer → Prop where
  | refl {c : State × Lexer} : Steps goal c c
  | step {a b c : State × Lexer} : Step goal a b → Steps goal b c → Steps goal a c

theorem Steps.trans {goal : Goal} {a b c : State × Lexer} (h₁ : Steps goal a b)
    (h₂ : Steps goal b c) : Steps goal a c := by
  induction h₁ with
  | refl => exact h₂
  | step h _ ih => exact .step h (ih h₂)

theorem run_eq_of_step {goal : Goal} {s s' : State} {l l' : Lexer}
    (h : Step goal (s, l) (s', l')) : run none goal s l = run none goal s' l' := by
  cases h with
  | mk hr hn hf =>
    rw [run]
    split
    · next h => rw [hr] at h; cases h
    · split
      · next h => rw [hn] at h; cases h
      · next h =>
        rw [hn] at h
        cases h
        split
        · next h => rw [hf] at h; cases h
        · next h =>
          rw [hf] at h
          cases h
          simp [State.passes]

end LetFun.Parse
