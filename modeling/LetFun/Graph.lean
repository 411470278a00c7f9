import LetFun.Expr
/-!
# Graphs of trees

A tree is drawn as a graph: a box for each node, labelled with its form and its
name, and an arrow to each child, labelled with the child's role.  An outline
is what is drawn, a tree of labels with roles; its statements draw it, node by
node in pre-order.  One counter numbers the nodes: a node's children take the
next numbers together when the node is drawn, before anything below them.
-/

namespace LetFun

/-- A tree of labels, whose children have roles. -/
inductive Outline where
  | leaf (label : String)
  | one (label : String) (role : String) (child : Outline)
  | two (label : String) (role₁ : String) (child₁ : Outline) (role₂ : String) (child₂ : Outline)
deriving DecidableEq, Repr

/-- A form and a name. -/
def ExprKind.drawn (kind : ExprKind) (name : String) : String :=
  match kind with
  | var => "Var " ++ name
  | con => "Con " ++ name
  | letIn => "Let " ++ name
  | lam => "Fun " ++ name
  | app => "App"

/-- What is drawn of a tree. -/
def Expr.outline : Expr → Outline
  | var x _ => .leaf (ExprKind.var.drawn x)
  | con c _ => .leaf (ExprKind.con.drawn c)
  | letIn x b e _ => .two (ExprKind.letIn.drawn x) "bound" b.outline "body" e.outline
  | lam x e _ => .one (ExprKind.lam.drawn x) "body" e.outline
  | app f a _ => .two (ExprKind.app.drawn "") "fun" f.outline "arg" a.outline

/-- One line of a drawing. -/
inductive Statement where
  | node (id : Nat) (label : String)
  | edge (source target : Nat) (label : String)
deriving DecidableEq, Repr

namespace Outline

/-- Draws an outline whose root has the number `id`. The pair holds the last number used and
the statements so far, latest first. -/
def draw : Outline → Nat → Nat × List Statement → Nat × List Statement
  | leaf l, id, (n, drawn) => (n, .node id l :: drawn)
  | one l r c, id, (n, drawn) =>
    c.draw (n + 1) (n + 1, .edge id (n + 1) r :: .node id l :: drawn)
  | two l r₁ c₁ r₂ c₂, id, (n, drawn) =>
    c₂.draw (n + 2) (c₁.draw (n + 1)
      (n + 2, .edge id (n + 2) r₂ :: .edge id (n + 1) r₁ :: .node id l :: drawn))

/-- The statements that draw an outline. -/
def statements (o : Outline) : List Statement := (o.draw 0 (0, [])).2.reverse

end Outline

/-- The characters of a quoted label, of which `slashes` backslashes are read but not yet
written. A quote is escaped by one backslash of its own, for which an odd backslash before it
makes room. -/
def escapeLabel (slashes : Nat) : List Char → List Char
  | [] => List.replicate slashes '\\'
  | c :: cs =>
    if c = '\\' then escapeLabel (slashes + 1) cs
    else if c = '"' then
      List.replicate (slashes / 2 * 2) '\\' ++ '\\' :: '"' :: escapeLabel 0 cs
    else List.replicate slashes '\\' ++ c :: escapeLabel 0 cs

/-- A label as a graph writes it: bare if it is a single word, and quoted otherwise. -/
def writeLabel (l : String) : String :=
  if l.toList.contains ' ' then String.ofList ('"' :: escapeLabel 0 l.toList ++ ['"']) else l

/-- The label of a box or an arrow, as an attribute. -/
def labelAttribute (l : String) : String := " [label=" ++ writeLabel l ++ "]\n"

/-- The line of a statement. -/
def Statement.text : Statement → String
  | node id l => "\tn" ++ toString id ++ labelAttribute l
  | edge s t l => "\tn" ++ toString s ++ " -> n" ++ toString t ++ labelAttribute l

/-- The text of a graph: a heading, the statements, and a closing brace. -/
def Outline.dot (o : Outline) : String :=
  "digraph \x7b\n\tgraph [rankdir=TB]\n\tnode [fontname=Helvetica shape=box]\n" ++
    String.join (o.statements.map Statement.text) ++ "\x7d\n"

/-- The drawing of a tree. -/
def Expr.dot (e : Expr) : String := e.outline.dot

end LetFun
