import LetFun.Expr
/-!
# Node tables

A node table lists the nodes of a tree in pre-order, left to right, and numbers
them from zero.  A record names its children by number, so a table is flat
however deep its tree is.  Positions are left out unless they are asked for.

Results:
* `records_ofExpr`: the records are numbered in pre-order, children behind their parent.
* `length_ofExpr`: a table has one record for each node.
-/

namespace LetFun

/-- A node whose children are given by their numbers. -/
inductive Node where
  | var (name : String)
  | con (name : String)
  | letIn (name : String) (bound body : Nat)
  | lam (param : String) (body : Nat)
  | app (function argument : Nat)
deriving DecidableEq, Repr

/-- A numbered node, with its position if the table shows positions. -/
structure Record where
  id : Nat
  node : Node
  pos : Option Pos
deriving DecidableEq, Repr

/-- A value in a record. -/
inductive Scalar where
  | int (n : Int)
  | text (s : String)
deriving DecidableEq, Repr

namespace Record

/-- The name of a record's form. -/
def label (r : Record) : String :=
  match r.node with
  | .var _ => ExprKind.var.label
  | .con _ => ExprKind.con.label
  | .letIn .. => ExprKind.letIn.label
  | .lam .. => ExprKind.lam.label
  | .app .. => ExprKind.app.label

/-- The node's own name, if its form has one. -/
def names (r : Record) : List (String × Scalar) :=
  match r.node with
  | .var x | .con x | .letIn x _ _ => [("name", .text x)]
  | .lam x _ => [("param", .text x)]
  | .app .. => []

/-- The position, if the table shows positions. -/
def place (r : Record) : List (String × Scalar) :=
  match r.pos with
  | some p => [("line", .int p.line), ("column", .int p.column)]
  | none => []

/-- The numbers of the children, by role. -/
def children (r : Record) : List (String × Scalar) :=
  match r.node with
  | .var _ | .con _ => []
  | .letIn _ b e => [("bound", .int b), ("body", .int e)]
  | .lam _ e => [("body", .int e)]
  | .app f a => [("function", .int f), ("argument", .int a)]

/-- What a record says besides its number and its form. -/
def details (r : Record) : List (String × Scalar) := r.names ++ r.place ++ r.children

/-- All that a record says, in the order in which it is written. -/
def fields (r : Record) : List (String × Scalar) :=
  ("id", .int r.id) :: ("node_type", .text r.label) :: r.details

end Record

/-- The nodes of a tree; the first is its root. -/
structure Table where
  records : List Record
deriving DecidableEq, Repr

namespace Table

/-- The position of a node as a record holds it. -/
def shown (positions : Bool) (p : Pos) : Option Pos := if positions then some p else none

/-- The records of a tree whose root has the number `id`, in front of those of `rest`. A first
child has the next number, and a second child the next behind the first child's nodes. -/
def number (positions : Bool) : Expr → Nat → List Record → List Record
  | .var x p, id, rest => ⟨id, .var x, shown positions p⟩ :: rest
  | .con c p, id, rest => ⟨id, .con c, shown positions p⟩ :: rest
  | .letIn x b e p, id, rest =>
    ⟨id, .letIn x (id + 1) (id + 1 + b.size), shown positions p⟩ ::
      number positions b (id + 1) (number positions e (id + 1 + b.size) rest)
  | .lam x e p, id, rest =>
    ⟨id, .lam x (id + 1), shown positions p⟩ :: number positions e (id + 1) rest
  | .app f a p, id, rest =>
    ⟨id, .app (id + 1) (id + 1 + f.size), shown positions p⟩ ::
      number positions f (id + 1) (number positions a (id + 1 + f.size) rest)

/-- Puts the records of a tree in front of others, last node first. The pair holds the records
so far and the number of the first of them; each node takes the number before it. -/
def place (positions : Bool) : Expr → List Record × Nat → List Record × Nat
  | .var x p, (rest, n) => (⟨n - 1, .var x, shown positions p⟩ :: rest, n - 1)
  | .con c p, (rest, n) => (⟨n - 1, .con c, shown positions p⟩ :: rest, n - 1)
  | .letIn x b e p, later =>
    let second := place positions e later
    let first := place positions b second
    (⟨first.2 - 1, .letIn x first.2 second.2, shown positions p⟩ :: first.1, first.2 - 1)
  | .lam x e p, later =>
    let child := place positions e later
    (⟨child.2 - 1, .lam x child.2, shown positions p⟩ :: child.1, child.2 - 1)
  | .app f a p, later =>
    let second := place positions a later
    let first := place positions f second
    (⟨first.2 - 1, .app first.2 second.2, shown positions p⟩ :: first.1, first.2 - 1)

/-- The table of a tree. -/
def ofExpr (positions : Bool) (e : Expr) : Table := ⟨(place positions e ([], e.size)).1⟩

/-- Placing the nodes from the last to the first gives them their numbers in pre-order. -/
theorem place_eq (positions : Bool) (e : Expr) (id : Nat) (rest : List Record) :
    place positions e (rest, id + e.size) = (number positions e id rest, id) := by
  induction e generalizing id rest with
  | var | con => rfl
  | letIn x b e p ihb ihe =>
    have h : id + (1 + b.size + e.size) = (id + 1 + b.size) + e.size := by omega
    simp only [place, number, Expr.size, h, ihe, ihb, Nat.add_sub_cancel]
  | lam x e p ih =>
    have h : id + (1 + e.size) = (id + 1) + e.size := by omega
    simp only [place, number, Expr.size, h, ih, Nat.add_sub_cancel]
  | app f a p ihf iha =>
    have h : id + (1 + f.size + a.size) = (id + 1 + f.size) + a.size := by omega
    simp only [place, number, Expr.size, h, iha, ihf, Nat.add_sub_cancel]

/-- The records of a table are those of its tree, numbered from zero. -/
theorem records_ofExpr (positions : Bool) (e : Expr) :
    (ofExpr positions e).records = number positions e 0 [] := by
  have h := place_eq positions e 0 []
  rw [Nat.zero_add] at h
  simp [ofExpr, h]

theorem length_number (positions : Bool) (e : Expr) (id : Nat) (rest : List Record) :
    (number positions e id rest).length = e.size + rest.length := by
  induction e generalizing id rest with
  | var | con => simp [number, Expr.size]; omega
  | letIn x b e p ihb ihe => simp [number, Expr.size, ihb, ihe]; omega
  | lam x e p ih => simp [number, Expr.size, ih]; omega
  | app f a p ihf iha => simp [number, Expr.size, ihf, iha]; omega

theorem length_ofExpr (positions : Bool) (e : Expr) :
    (ofExpr positions e).records.length = e.size := by
  simp [records_ofExpr, length_number]

end Table
end LetFun
