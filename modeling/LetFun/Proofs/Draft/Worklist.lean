import LetFun.Draft.Worklist
import LetFun.Proofs.Table.Preorder
/-!
# What the loops over a draft make

The loops that work a draft off a stack make what the recursions over it make.  Each
is told for one draft on the stack, with anything below it: the loop goes on below
with what the recursion makes of the draft, or fails as the recursion does.

For a table this rests on the slots.  When a draft is done, the number of its root is
in its slot and all slots of its own nodes are filled, and no other row has changed;
so the row of a parent is complete once its last child is done.

Results:
* `tabulate_draft`, `tabulate_eq`: the loop for tables makes the table.
* `sketch_draft`, `sketch_eq`: the loop for drawings makes the drawing.
-/
namespace LetFun.Draft

/-! ## Tables -/

section
variable {positions : Bool} {rows : List Row} {slot : Option Slot} {stack : List Pending}

/-- The rows of a tree whose root has the number `id`. -/
def rowsOf (positions : Bool) (id : Nat) (e : Expr) : List Row :=
  (Table.number positions e id []).map Record.fields

theorem length_rowsOf (id : Nat) (e : Expr) : (rowsOf positions id e).length = e.size := by
  simp [rowsOf, Table.length_number]

theorem rowsOf_lam (id : Nat) (x : String) (e : Expr) (p : Pos) :
    rowsOf positions id (.lam x e p) =
      (row positions id [("node_type", .text ExprKind.lam.label), ("param", .text x)] p ++
          [("body", .int (id + 1 : Nat))]) ::
        rowsOf positions (id + 1) e := by
  cases positions <;> rfl

theorem rowsOf_letIn (id : Nat) (x : String) (b e : Expr) (p : Pos) :
    rowsOf positions id (.letIn x b e p) =
      (row positions id [("node_type", .text ExprKind.letIn.label), ("name", .text x)] p ++
          [("bound", .int (id + 1 : Nat)), ("body", .int (id + 1 + b.size : Nat))]) ::
        (rowsOf positions (id + 1) b ++ rowsOf positions (id + 1 + b.size) e) := by
  rw [rowsOf, Table.number, Table.number_append b, List.map_cons, List.map_append]
  cases positions <;> rfl

theorem rowsOf_app (id : Nat) (f a : Expr) (p : Pos) :
    rowsOf positions id (.app f a p) =
      (row positions id [("node_type", .text ExprKind.app.label)] p ++
          [("function", .int (id + 1 : Nat)), ("argument", .int (id + 1 + f.size : Nat))]) ::
        (rowsOf positions (id + 1) f ++ rowsOf positions (id + 1 + f.size) a) := by
  rw [rowsOf, Table.number, Table.number_append f, List.map_cons, List.map_append]
  cases positions <;> rfl

/-- A slot, if there is one, is in one of the rows. -/
def Inside (slot : Option Slot) (rows : List Row) : Prop := ∀ s ∈ slot, s.row < rows.length

theorem length_fill (slot : Option Slot) (id : Nat) (rows : List Row) :
    (fill slot id rows).length = rows.length := by
  cases slot with
  | none => rfl
  | some s => exact List.length_modify ..

/-- Rows that come later play no part in a slot. -/
theorem fill_append (h : Inside slot rows) (id : Nat) (later : List Row) :
    fill slot id (rows ++ later) = fill slot id rows ++ later := by
  cases slot with
  | none => rfl
  | some s =>
    have hs : s.row < rows.length := h s rfl
    have hs' : s.row < (rows ++ later).length := by rw [List.length_append]; omega
    have hdrop : s.row + 1 ≤ rows.length := hs
    simp only [fill]
    rw [List.modify_eq_take_cons_drop hs', List.modify_eq_take_cons_drop hs,
      List.take_append_of_le_length (Nat.le_of_lt hs), List.getElem_append_left hs,
      List.drop_append_of_le_length hdrop, List.append_assoc, List.cons_append]

/-- The slot that is filled next is in the row of the parent, which stands behind `rows`. -/
theorem fill_row (rows later : List Row) (r : Row) (role : String) (id : Nat) :
    fill (some ⟨rows.length, role⟩) id (rows ++ r :: later) =
      rows ++ (r ++ [(role, .int id)]) :: later := by
  have hlt : rows.length < (rows ++ r :: later).length := by simp
  simp only [fill]
  rw [List.modify_eq_take_cons_drop hlt]
  simp

theorem tabulate_cons {d : Draft} {data : Row} {children : List (String × Draft)}
    (h : d.fields = .ok (data, children)) (hslot : Inside slot rows) :
    tabulate positions rows (⟨d, slot⟩ :: stack) =
      tabulate positions (fill slot rows.length rows ++ [row positions rows.length data d.pos])
        (pending rows.length children ++ stack) := by
  rw [tabulate]
  split
  · rename_i h'
    rw [h] at h'
    cases h'
  · rename_i h'
    rw [h] at h'
    cases h'
    rw [fill_append hslot, push_eq]

theorem tabulate_error {d : Draft} {e : DraftError} (h : d.fields = .error e) :
    tabulate positions rows (⟨d, slot⟩ :: stack) = .error e := by
  rw [tabulate]
  split <;> rename_i h' <;> rw [h] at h' <;> cases h'
  rfl

/-- Working a draft off writes the number of its root into its slot, and then the rows of its
nodes behind the others. -/
def Tabulates (positions : Bool) (d : Draft) : Prop :=
  ∀ rows slot stack, Inside slot rows →
    tabulate positions rows (⟨d, slot⟩ :: stack) =
      d.toExpr? >>= fun e =>
        tabulate positions (fill slot rows.length rows ++ rowsOf positions rows.length e) stack

namespace Tabulates

/-- A node with a wrong tag stops the loop as it stops the recursion. -/
theorem of_wrong {d : Draft} {k : ExprKind} (hk : d.form = some k) (ht : d.tag ≠ some k) :
    Tabulates positions d := by
  have hcheck : checkTag d.tag k = .error (.notSerializable d.tag) := if_neg ht
  have hfields : d.fields = .error (.notSerializable d.tag) := by
    cases d <;> cases hk <;> exact congrArg (· >>= _) hcheck
  have hexpr : d.toExpr? = .error (.notSerializable d.tag) := by
    cases d <;> cases hk <;> exact congrArg (· >>= _) hcheck
  intro rows slot stack _
  rw [tabulate_error hfields, hexpr]
  rfl

/-- A child that comes off right behind its parent. -/
theorem child {e : Draft} (he : Tabulates positions e) (rows : List Row) (r : Row)
    (role : String) (stack : List Pending) :
    tabulate positions (rows ++ [r]) (⟨e, some ⟨rows.length, role⟩⟩ :: stack) =
      e.toExpr? >>= fun e' =>
        tabulate positions
          (rows ++ (r ++ [(role, .int (rows.length + 1 : Nat))]) ::
            rowsOf positions (rows.length + 1) e') stack := by
  rw [he _ _ _ (by rintro _ ⟨⟩; simp)]
  simp only [fill_row, List.length_append, List.length_singleton, List.append_assoc,
    List.cons_append, List.nil_append]

/-- Two children of one parent: the second comes off once the first is done, and gets the next
number behind the nodes of the first. -/
theorem children {b e : Draft} (hb : Tabulates positions b) (he : Tabulates positions e)
    (rows : List Row) (r : Row) (role role' : String) (stack : List Pending) :
    tabulate positions (rows ++ [r])
        (⟨b, some ⟨rows.length, role⟩⟩ :: ⟨e, some ⟨rows.length, role'⟩⟩ :: stack) =
      b.toExpr? >>= fun b' => e.toExpr? >>= fun e' =>
        tabulate positions
          (rows ++ (r ++ [(role, .int (rows.length + 1 : Nat)),
              (role', .int (rows.length + 1 + b'.size : Nat))]) ::
            (rowsOf positions (rows.length + 1) b' ++
              rowsOf positions (rows.length + 1 + b'.size) e')) stack := by
  rw [hb.child]
  refine congrArg (b.toExpr? >>= ·) (funext fun b' => ?_)
  rw [he _ _ _ (by rintro _ ⟨⟩; simp)]
  refine congrArg (e.toExpr? >>= ·) (funext fun e' => ?_)
  have hlength : (rows ++ (r ++ [(role, .int (rows.length + 1 : Nat))]) ::
      rowsOf positions (rows.length + 1) b').length = rows.length + 1 + b'.size := by
    simp [length_rowsOf]
    omega
  rw [hlength, fill_row]
  simp only [List.append_assoc, List.cons_append, List.nil_append]

/-- A node without children. -/
theorem of_leaf {d : Draft} {data : Row} {e : Expr} (hfields : d.fields = .ok (data, []))
    (hexpr : d.toExpr? = .ok e)
    (hrows : ∀ id, rowsOf positions id e = [row positions id data d.pos]) :
    Tabulates positions d := by
  intro rows slot stack hslot
  rw [tabulate_cons hfields hslot, hexpr]
  simp only [pending, List.map_nil, List.nil_append, ← hrows]
  rfl

/-- A node with one child, once the child is told. -/
theorem of_one {d e : Draft} {data : Row} {role : String} {make : Expr → Expr}
    (he : Tabulates positions e) (hfields : d.fields = .ok (data, [(role, e)]))
    (hexpr : d.toExpr? = e.toExpr? >>= fun e' => pure (make e'))
    (hrows : ∀ id e', rowsOf positions id (make e') =
      (row positions id data d.pos ++ [(role, .int (id + 1 : Nat))]) ::
        rowsOf positions (id + 1) e') :
    Tabulates positions d := by
  intro rows slot stack hslot
  have hchild := he.child (fill slot rows.length rows)
  rw [length_fill] at hchild
  rw [tabulate_cons hfields hslot, hexpr]
  simp only [bind_assoc, pure_bind, hrows]
  exact hchild ..

/-- A node with two children, once they are told. -/
theorem of_two {d b e : Draft} {data : Row} {role role' : String} {make : Expr → Expr → Expr}
    (hb : Tabulates positions b) (he : Tabulates positions e)
    (hfields : d.fields = .ok (data, [(role, b), (role', e)]))
    (hexpr : d.toExpr? = b.toExpr? >>= fun b' => e.toExpr? >>= fun e' => pure (make b' e'))
    (hrows : ∀ id b' e', rowsOf positions id (make b' e') =
      (row positions id data d.pos ++
          [(role, .int (id + 1 : Nat)), (role', .int (id + 1 + b'.size : Nat))]) ::
        (rowsOf positions (id + 1) b' ++ rowsOf positions (id + 1 + b'.size) e')) :
    Tabulates positions d := by
  intro rows slot stack hslot
  have hchildren := hb.children he (fill slot rows.length rows)
  rw [length_fill] at hchildren
  rw [tabulate_cons hfields hslot, hexpr]
  simp only [bind_assoc, pure_bind, hrows]
  exact hchildren ..

end Tabulates

theorem tabulate_draft (d : Draft) : Tabulates positions d := by
  induction d with
  | bare t p => exact fun rows slot stack _ => tabulate_error rfl
  | var t x p =>
    by_cases ht : t = some .var
    · subst ht
      exact .of_leaf rfl rfl fun id => by cases positions <;> rfl
    · exact .of_wrong rfl ht
  | con t c p =>
    by_cases ht : t = some .con
    · subst ht
      exact .of_leaf rfl rfl fun id => by cases positions <;> rfl
    · exact .of_wrong rfl ht
  | letIn t x b e p ihb ihe =>
    by_cases ht : t = some .letIn
    · subst ht
      exact .of_two ihb ihe rfl rfl fun id b' e' => rowsOf_letIn id x b' e' p
    · exact .of_wrong rfl ht
  | lam t x e p ih =>
    by_cases ht : t = some .lam
    · subst ht
      exact .of_one ih rfl rfl fun id e' => rowsOf_lam id x e' p
    · exact .of_wrong rfl ht
  | app t f a p ihf iha =>
    by_cases ht : t = some .app
    · subst ht
      exact .of_two ihf iha rfl rfl fun id f' a' => rowsOf_app id f' a' p
    · exact .of_wrong rfl ht

/-- The loop for tables, started with the root alone, makes the rows of the table. -/
theorem tabulate_eq (positions : Bool) (d : Draft) :
    tabulate positions [] [⟨d, none⟩] =
      (d.table? positions).map fun t => t.records.map Record.fields := by
  rw [tabulate_draft d [] none [] nofun, table?]
  cases d.toExpr? with
  | error e => rfl
  | ok e =>
    simp only [Functor.map, Except.map, Table.records_ofExpr]
    exact tabulate.eq_1 ..

end

/-! ## Drawings -/

theorem sketch_error {d : Draft} {e : DraftError} (h : d.label? = .error e) (id : Nat)
    (state : Nat × List Statement) (stack : List (Draft × Nat)) :
    sketch state ((d, id) :: stack) = .error e := by
  rw [sketch, h]

theorem sketch_cons {d : Draft} {label : String} (h : d.label? = .ok label) (id n : Nat)
    (drawn : List Statement) (stack : List (Draft × Nat)) :
    sketch (n, drawn) ((d, id) :: stack) =
      sketch (attach id d.limbs (n, .node id label :: drawn)).2
        ((attach id d.limbs (n, .node id label :: drawn)).1 ++ stack) := by
  rw [sketch, h]
  simp only [push_eq]

theorem outline?_error {d : Draft} {e : DraftError} (h : d.label? = .error e) :
    d.outline? = .error e := by
  cases d <;> exact congrArg (· >>= _) h

/-- Working a draft off draws it. -/
def Sketches (d : Draft) : Prop :=
  ∀ id state stack,
    sketch state ((d, id) :: stack) = d.outline? >>= fun o => sketch (o.draw id state) stack

/-- It is enough to look at a node that has a label. -/
theorem Sketches.of_label {d : Draft}
    (h : ∀ label id n drawn stack, d.label? = .ok label →
      sketch (attach id d.limbs (n, .node id label :: drawn)).2
          ((attach id d.limbs (n, .node id label :: drawn)).1 ++ stack) =
        d.outline? >>= fun o => sketch (o.draw id (n, drawn)) stack) :
    Sketches d := by
  rintro id ⟨n, drawn⟩ stack
  cases hlabel : d.label? with
  | error e =>
    rw [sketch_error hlabel, outline?_error hlabel]
    rfl
  | ok label => rw [sketch_cons hlabel, h label id n drawn stack hlabel]

theorem sketch_draft (d : Draft) : Sketches d := by
  induction d with
  | bare | var | con =>
    refine .of_label fun label id n drawn stack hlabel => ?_
    simp only [outline?, hlabel]
    rfl
  | letIn t x b e p ihb ihe =>
    refine .of_label fun label id n drawn stack hlabel => ?_
    simp only [outline?, hlabel, bind_assoc, pure_bind]
    exact (ihb ..).trans (congrArg (b.outline? >>= ·) (funext fun ob => ihe ..))
  | lam t x e p ih =>
    refine .of_label fun label id n drawn stack hlabel => ?_
    simp only [outline?, hlabel, bind_assoc, pure_bind]
    exact ih ..
  | app t f a p ihf iha =>
    refine .of_label fun label id n drawn stack hlabel => ?_
    simp only [outline?, hlabel, bind_assoc, pure_bind]
    exact (ihf ..).trans (congrArg (f.outline? >>= ·) (funext fun of => iha ..))

/-- The loop for drawings, started with the root alone, makes the drawing. -/
theorem sketch_eq (d : Draft) :
    sketch (0, []) [(d, 0)] = Outline.statements <$> d.outline? := by
  rw [sketch_draft]
  cases d.outline? with
  | error e => rfl
  | ok o => exact sketch.eq_1 ..

end LetFun.Draft
