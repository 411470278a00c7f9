import LetFun.Pos
/-!
# Moved positions

A text that does not stand alone but behind another has its positions moved: its
first line goes on where the other text ends, and its other lines follow.

Results:
* `after_shift`: moving over a text commutes with moving the text.
-/

namespace LetFun.Pos

/-- A position of a text that stands behind a text ending at `base`. -/
def shift (base p : Pos) : Pos :=
  if p.line = 1 then ⟨base.line, base.column + p.column - 1⟩ else ⟨base.line + p.line - 1, p.column⟩

@[simp] theorem shift_origin (base : Pos) : base.shift origin = base := by
  simp [shift, origin]

theorem next_shift (base p : Pos) (c : Char) (h : 1 ≤ p.line) :
    (base.shift p).next c = base.shift (p.next c) := by
  simp only [shift, next]
  by_cases hl : p.line = 1
  · by_cases hc : c = '\n'
    · simp [hl, hc]; omega
    · simp [hl, hc]; omega
  · have : p.line + 1 ≠ 1 := by omega
    by_cases hc : c = '\n'
    · simp [hl, hc, this]; omega
    · simp [hl, hc]

theorem line_le_next (p : Pos) (c : Char) : p.line ≤ (p.next c).line := by
  unfold next; split <;> simp only <;> omega

theorem line_le_after (p : Pos) (cs : List Char) : p.line ≤ (p.after cs).line := by
  induction cs generalizing p with
  | nil => exact Int.le_refl _
  | cons c cs ih => exact Int.le_trans (p.line_le_next c) (ih _)

theorem after_shift (base p : Pos) (cs : List Char) (h : 1 ≤ p.line) :
    (base.shift p).after cs = base.shift (p.after cs) := by
  induction cs generalizing p with
  | nil => rfl
  | cons c cs ih =>
    rw [after_cons, after_cons, next_shift base p c h]
    exact ih _ (Int.le_trans h (p.line_le_next c))

end LetFun.Pos
