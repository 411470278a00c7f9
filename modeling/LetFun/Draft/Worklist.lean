import LetFun.Draft
/-!
# Drafts worked off a stack

However deep a draft is, its table and its drawing are made without going down into
it: a loop takes the nodes off a stack, and pushes the children of each node in
reverse, so that they come off from left to right.

For a table (`tabulate`) a node gets its number when it comes off the stack.  Its
row is written then without the numbers of its children, which are not known yet:
each child takes along the row and the role that its own number goes to.

For a drawing (`sketch`) the children of a node get their numbers together, when the
node comes off the stack, and take them along.
-/

namespace LetFun.Draft

/-! ## Stacks -/

/-- Pushes entries on a stack, the last one first. -/
def push {α : Type} (entries stack : List α) : List α :=
  entries.reverse.foldl (fun stack entry => entry :: stack) stack

theorem push_eq {α : Type} (entries stack : List α) : push entries stack = entries ++ stack := by
  simp [push, List.foldl_reverse]

/-- The number of nodes of a draft. -/
def size (d : Draft) : Nat := d.nodes.length

/-- The number of nodes of several drafts. -/
def total : List Draft → Nat
  | [] => 0
  | d :: ds => d.size + total ds

theorem total_append (ds ds' : List Draft) : total (ds ++ ds') = total ds + total ds' := by
  induction ds with
  | nil => simp [total]
  | cons d ds ih => simp [total, ih, Nat.add_assoc]

/-! ## Tables -/

/-- The position of a node. -/
def pos : Draft → Pos
  | bare _ p | var _ _ p | con _ _ p | letIn _ _ _ _ p | lam _ _ _ p | app _ _ _ p => p

/-- The fields of a node in a table, apart from its number and its position, and its children by
role. -/
def fields : Draft → Except DraftError (List (String × Scalar) × List (String × Draft))
  | bare t _ => .error (.notSerializable t)
  | var t x _ => do
    checkTag t .var
    return ([("node_type", .text ExprKind.var.label), ("name", .text x)], [])
  | con t c _ => do
    checkTag t .con
    return ([("node_type", .text ExprKind.con.label), ("name", .text c)], [])
  | letIn t x b e _ => do
    checkTag t .letIn
    return ([("node_type", .text ExprKind.letIn.label), ("name", .text x)],
      [("bound", b), ("body", e)])
  | lam t x e _ => do
    checkTag t .lam
    return ([("node_type", .text ExprKind.lam.label), ("param", .text x)], [("body", e)])
  | app t f a _ => do
    checkTag t .app
    return ([("node_type", .text ExprKind.app.label)], [("function", f), ("argument", a)])

theorem size_of_fields {d : Draft} {data : List (String × Scalar)}
    {children : List (String × Draft)} (h : d.fields = .ok (data, children)) :
    d.size = 1 + total (children.map (·.2)) := by
  cases d with
  | bare => cases h
  | var | con =>
    simp only [fields, checkTag] at h
    split at h <;> cases h
    rfl
  | letIn | lam | app =>
    simp only [fields, checkTag] at h
    split at h <;> cases h
    simp [size, nodes, total]
    omega

/-- A record as far as it is written: its fields in order. -/
abbrev Row := List (String × Scalar)

/-- The row of a node as it is written first, with no child in it. -/
def row (positions : Bool) (id : Nat) (data : Row) (p : Pos) : Row :=
  ("id", .int id) :: data ++
    if positions then [("line", .int p.line), ("column", .int p.column)] else []

/-- The row and the role that the number of a child goes to. -/
structure Slot where
  row : Nat
  role : String
deriving DecidableEq, Repr

/-- Writes a number into its slot. -/
def fill (slot : Option Slot) (id : Nat) (rows : List Row) : List Row :=
  match slot with
  | none => rows
  | some s => rows.modify s.row (· ++ [(s.role, .int id)])

/-- A node that is still to come, and where its number goes. -/
structure Pending where
  node : Draft
  slot : Option Slot
deriving DecidableEq, Repr

/-- The children of the node with the number `id`, each with its slot. -/
def pending (id : Nat) (children : List (String × Draft)) : List Pending :=
  children.map fun (role, child) => ⟨child, some ⟨id, role⟩⟩

theorem map_node_pending (id : Nat) (children : List (String × Draft)) :
    (pending id children).map (·.node) = children.map (·.2) := by
  simp [pending, Function.comp_def]

/-- Writes the rows of the nodes on a stack, and of those below them, behind other rows. -/
def tabulate (positions : Bool) (rows : List Row) : List Pending → Except DraftError (List Row)
  | [] => .ok rows
  | ⟨d, slot⟩ :: stack =>
    match _h : d.fields with
    | .error e => .error e
    | .ok (data, children) =>
      tabulate positions (fill slot rows.length (rows ++ [row positions rows.length data d.pos]))
        (push (pending rows.length children) stack)
termination_by stack => total (stack.map (·.node))
decreasing_by
  rw [push_eq, List.map_append, map_node_pending, total_append, List.map_cons, total,
    size_of_fields _h]
  omega

/-! ## Drawings -/

/-- The children of a node by the role that a drawing gives them, whatever the tag is. -/
def limbs : Draft → List (String × Draft)
  | letIn _ _ b e _ => [("bound", b), ("body", e)]
  | lam _ _ e _ => [("body", e)]
  | app _ f a _ => [("fun", f), ("arg", a)]
  | _ => []

theorem size_limbs (d : Draft) : d.size = 1 + total (d.limbs.map (·.2)) := by
  cases d with
  | bare | var | con => rfl
  | letIn | lam | app =>
    simp [size, nodes, limbs, total]
    omega

/-- Gives the children of the node `id` the next numbers and draws the arrows to them. The pair
holds the last number used and the statements so far, latest first. -/
def attach (id : Nat) :
    List (String × Draft) → Nat × List Statement → List (Draft × Nat) × (Nat × List Statement)
  | [], state => ([], state)
  | (role, child) :: limbs, (n, drawn) =>
    let (edges, state) := attach id limbs (n + 1, .edge id (n + 1) role :: drawn)
    ((child, n + 1) :: edges, state)

theorem map_fst_attach (id : Nat) (limbs : List (String × Draft)) (state : Nat × List Statement) :
    (attach id limbs state).1.map (·.1) = limbs.map (·.2) := by
  induction limbs generalizing state with
  | nil => rfl
  | cons limb limbs ih => exact congrArg (limb.2 :: ·) (ih _)

/-- Draws the nodes on a stack, each with its number, and those below them, behind what is drawn
already. -/
def sketch (state : Nat × List Statement) :
    List (Draft × Nat) → Except DraftError (List Statement)
  | [] => .ok state.2.reverse
  | (d, id) :: stack =>
    match d.label? with
    | .error e => .error e
    | .ok label =>
      let attached := attach id d.limbs (state.1, .node id label :: state.2)
      sketch attached.2 (push attached.1 stack)
termination_by stack => total (stack.map (·.1))
decreasing_by
  rw [push_eq, List.map_append, map_fst_attach, total_append, List.map_cons, total,
    d.size_limbs]
  omega

end LetFun.Draft
