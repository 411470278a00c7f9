import LetFun.Pos
/-!
# The order of positions

Positions are ordered as the text is read, by line and then by column.  Every
character moves on in this order, a newline too, although it goes back to the first
column.

Results:
* `before_after`: a text that is not empty ends behind the place where it begins.
-/

namespace LetFun.Pos

/-- Whether a position comes before another one. -/
def Before (p q : Pos) : Prop := p.line < q.line ∨ p.line = q.line ∧ p.column < q.column

theorem Before.ne {p q : Pos} (h : p.Before q) : p ≠ q := by
  rintro rfl
  rcases h with h | ⟨-, h⟩ <;> exact Int.lt_irrefl _ h

theorem Before.trans {p q r : Pos} (h₁ : p.Before q) (h₂ : q.Before r) : p.Before r := by
  unfold Before at *
  omega

theorem before_next (p : Pos) (c : Char) : p.Before (p.next c) := by
  unfold next
  split
  · exact .inl (Int.lt_succ _)
  · exact .inr ⟨rfl, Int.lt_succ _⟩

theorem Before.after {p q : Pos} (h : p.Before q) (cs : List Char) : p.Before (q.after cs) := by
  induction cs generalizing q with
  | nil => exact h
  | cons c cs ih => exact ih (h.trans (q.before_next c))

theorem before_after (p : Pos) {cs : List Char} (h : cs ≠ []) : p.Before (p.after cs) := by
  obtain ⟨c, cs, rfl⟩ := List.exists_cons_of_ne_nil h
  exact (p.before_next c).after cs

end LetFun.Pos
