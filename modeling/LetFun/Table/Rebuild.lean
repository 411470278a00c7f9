import LetFun.Table
/-!
# Trees from tables

A table holds its tree: following the numbers of the children from the first
record on gives it back.  Children must stand behind their parent, which is why
following them ends.

Results:
* `rebuildAt?_of_getElem?`: the tree at a record, in terms of those at its children.
-/

namespace LetFun.Table

/-- The tree whose root is the record with number `id`. -/
def rebuildAt? (records : List Record) (id : Nat) : Option Expr :=
  match _h : records[id]? with
  | none => none
  | some r =>
    let pos := r.pos.getD Pos.none
    match r.node with
    | .var x => some (.var x pos)
    | .con c => some (.con c pos)
    | .letIn x b e =>
      if _hb : id < b ∧ id < e then do
        return .letIn x (← rebuildAt? records b) (← rebuildAt? records e) pos
      else none
    | .lam x e =>
      if _he : id < e then do
        return .lam x (← rebuildAt? records e) pos
      else none
    | .app f a =>
      if _hf : id < f ∧ id < a then do
        return .app (← rebuildAt? records f) (← rebuildAt? records a) pos
      else none
termination_by records.length - id
decreasing_by
  all_goals
    have := (List.getElem?_eq_some_iff.1 _h).1
    omega

/-- The tree of a table. -/
def rebuild? (t : Table) : Option Expr := rebuildAt? t.records 0

/-- The tree at a record, in terms of the trees at its children. -/
theorem rebuildAt?_of_getElem? {records : List Record} {id : Nat} {r : Record}
    (h : records[id]? = some r) :
    rebuildAt? records id =
      let pos := r.pos.getD Pos.none
      match r.node with
      | .var x => some (.var x pos)
      | .con c => some (.con c pos)
      | .letIn x b e =>
        if id < b ∧ id < e then do
          return .letIn x (← rebuildAt? records b) (← rebuildAt? records e) pos
        else none
      | .lam x e =>
        if id < e then do
          return .lam x (← rebuildAt? records e) pos
        else none
      | .app f a =>
        if id < f ∧ id < a then do
          return .app (← rebuildAt? records f) (← rebuildAt? records a) pos
        else none := by
  conv => lhs; rw [rebuildAt?]
  split
  · next h' => rw [h] at h'; cases h'
  · next r' h' =>
    rw [h] at h'
    cases h'
    rfl

end LetFun.Table
