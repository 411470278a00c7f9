/-!
# Positions in a text

A position is a line and a column, both counted from one in code points.
`Pos.next` moves over one character and `Pos.after` over many.  A newline ends
its line and nothing else does, so a tab counts as one column.

Results:
* `Pos.after_append`: moving over two texts is moving over one, then the other.
* `Pos.after_origin`: moving on from the start of a text counts its newlines and what is behind
  the last one.
-/

namespace LetFun

/-- A line and a column. Trees built by hand may carry any integers. -/
structure Pos where
  line : Int
  column : Int
deriving DecidableEq, Repr, Inhabited

namespace Pos

/-- Where every text begins. -/
def origin : Pos := ⟨1, 1⟩

/-- The position that a tree carries when none was given. -/
def none : Pos := ⟨0, 0⟩

/-- The position just after the character `c` at `p`. -/
def next (p : Pos) (c : Char) : Pos :=
  if c = '\n' then ⟨p.line + 1, 1⟩ else ⟨p.line, p.column + 1⟩

/-- The position just after the characters `cs` that start at `p`. -/
def after (p : Pos) (cs : List Char) : Pos := cs.foldl next p

@[simp] theorem after_nil (p : Pos) : p.after [] = p := rfl

@[simp] theorem after_cons (p : Pos) (c : Char) (cs : List Char) :
    p.after (c :: cs) = (p.next c).after cs := rfl

theorem after_append (p : Pos) (cs ds : List Char) :
    p.after (cs ++ ds) = (p.after cs).after ds := List.foldl_append ..

/-- The position just after a text that starts at the origin, counted in the text as a whole: a
line for each newline, and a column for each character behind the last of them. -/
def behind (cs : List Char) : Pos :=
  ⟨1 + cs.count '\n', 1 + (cs.reverse.takeWhile (· ≠ '\n')).length⟩

theorem behind_concat (cs : List Char) (c : Char) : behind (cs ++ [c]) = (behind cs).next c := by
  by_cases hc : c = '\n'
  · simp [behind, next, hc]; omega
  · simp [behind, next, hc]; omega

theorem after_origin (cs : List Char) : origin.after cs = behind cs := by
  -- The last character is the one that `next` moves over, so the induction is on the reverse.
  rw [← cs.reverse_reverse]
  induction cs.reverse with
  | nil => rfl
  | cons c ds ih =>
    rw [List.reverse_cons, after_append, ih, behind_concat, after_cons, after_nil]

end Pos
end LetFun
