import LetFun.Graph
import LetFun.Table.Listing
/-!
# Trees built by hand

A draft is a tree whose nodes carry a tag that says which form they are, and the
tag may be wrong or missing.  Tables and listings are made only of drafts without
a wrong tag, which are the expressions.  A drawing takes its labels from the tags
and its arrows from the nodes, and fails only where a tag asks for a name that the
node does not have.

Results:
* `toExpr?_ofExpr`: every expression is a draft that is accepted as itself.
-/

namespace LetFun

/-- A node of a form and the tag that it carries; `bare` has no form at all. -/
inductive Draft where
  | bare (tag : Option ExprKind) (pos : Pos)
  | var (tag : Option ExprKind) (name : String) (pos : Pos)
  | con (tag : Option ExprKind) (name : String) (pos : Pos)
  | letIn (tag : Option ExprKind) (name : String) (bound body : Draft) (pos : Pos)
  | lam (tag : Option ExprKind) (param : String) (body : Draft) (pos : Pos)
  | app (tag : Option ExprKind) (function argument : Draft) (pos : Pos)
deriving DecidableEq, Repr

/-- Why a draft cannot be shown. -/
inductive DraftError where
  /-- A node's tag is not that of its form, so it has no record. -/
  | notSerializable (tag : Option ExprKind)
  /-- A node without a tag has no label. -/
  | notDrawable
  /-- A node lacks what the label for its tag is made of. -/
  | missingField (tag : ExprKind) (field : String)
deriving DecidableEq, Repr

namespace DraftError

/-- The name of a tag, also of a missing one. -/
def tagName (tag : Option ExprKind) : String := (tag.map ExprKind.name).getD "None"

def message : DraftError → String
  | notSerializable tag => "Cannot serialize node of type " ++ tagName tag
  | notDrawable => "Cannot render node of type " ++ tagName none
  | missingField tag field =>
    "Cannot render node of type " ++ tag.name ++ " without a " ++ field

end DraftError

namespace Draft

/-- An expression as a draft whose tags are right. -/
def ofExpr : Expr → Draft
  | .var x p => var (some .var) x p
  | .con c p => con (some .con) c p
  | .letIn x b e p => letIn (some .letIn) x (ofExpr b) (ofExpr e) p
  | .lam x e p => lam (some .lam) x (ofExpr e) p
  | .app f a p => app (some .app) (ofExpr f) (ofExpr a) p

/-- The form of a node. -/
def form : Draft → Option ExprKind
  | bare .. => none
  | var .. => some .var
  | con .. => some .con
  | letIn .. => some .letIn
  | lam .. => some .lam
  | app .. => some .app

/-- The tag of a node. -/
def tag : Draft → Option ExprKind
  | bare t _ | var t _ _ | con t _ _ | letIn t _ _ _ _ | lam t _ _ _ | app t _ _ _ => t

/-- The nodes of a draft in pre-order, left to right. -/
def nodes : Draft → List Draft
  | d@(letIn _ _ b e _) => d :: b.nodes ++ e.nodes
  | d@(lam _ _ e _) => d :: e.nodes
  | d@(app _ f a _) => d :: f.nodes ++ a.nodes
  | d => [d]

/-- Whether a node has a form and the tag of it. -/
def isWellTagged (d : Draft) : Bool := d.form.isSome && d.tag = d.form

/-- Changes every position by `f`. -/
def mapPos (f : Pos → Pos) : Draft → Draft
  | bare t p => bare t (f p)
  | var t x p => var t x (f p)
  | con t c p => con t c (f p)
  | letIn t x b e p => letIn t x (b.mapPos f) (e.mapPos f) (f p)
  | lam t x e p => lam t x (e.mapPos f) (f p)
  | app t g a p => app t (g.mapPos f) (a.mapPos f) (f p)

/-- Whether two drafts agree in everything but positions. -/
def same (a b : Draft) : Bool := a.mapPos (fun _ => Pos.none) = b.mapPos fun _ => Pos.none

/-- Passes if a node's tag is that of the form. -/
def checkTag (tag : Option ExprKind) (form : ExprKind) : Except DraftError Unit :=
  if tag = some form then .ok () else .error (.notSerializable tag)

/-- The expression that a draft is, or its first wrong tag in pre-order. -/
def toExpr? : Draft → Except DraftError Expr
  | bare t _ => .error (.notSerializable t)
  | var t x p => do
    checkTag t .var
    return .var x p
  | con t c p => do
    checkTag t .con
    return .con c p
  | letIn t x b e p => do
    checkTag t .letIn
    return .letIn x (← b.toExpr?) (← e.toExpr?) p
  | lam t x e p => do
    checkTag t .lam
    return .lam x (← e.toExpr?) p
  | app t f a p => do
    checkTag t .app
    return .app (← f.toExpr?) (← a.toExpr?) p

theorem toExpr?_ofExpr (e : Expr) : (ofExpr e).toExpr? = .ok e := by
  induction e with
  | var | con => rfl
  | letIn x b e p ihb ihe =>
    simp [ofExpr, toExpr?, checkTag, ihb, ihe, bind, Except.bind, pure, Except.pure]
  | lam x e p ih => simp [ofExpr, toExpr?, checkTag, ih, bind, Except.bind, pure, Except.pure]
  | app f a p ihf iha =>
    simp [ofExpr, toExpr?, checkTag, ihf, iha, bind, Except.bind, pure, Except.pure]

/-- The table of a draft. -/
def table? (positions : Bool) (d : Draft) : Except DraftError Table :=
  (Table.ofExpr positions) <$> d.toExpr?

/-- The listing of a draft. -/
def listing? (d : Draft) : Except DraftError String := Table.listing <$> d.table? false

/-- What a node's label is made of, apart from its tag. -/
def name? : Draft → Option String
  | var _ x _ | con _ x _ | letIn _ x _ _ _ => some x
  | _ => none

def param? : Draft → Option String
  | lam _ x _ _ => some x
  | _ => none

/-- The label of a node. -/
def label? (d : Draft) : Except DraftError String :=
  let needs (kind : ExprKind) (field : String) (value : Option String) :=
    match value with
    | some x => .ok (kind.drawn x)
    | none => .error (.missingField kind field)
  match d.tag with
  | none => .error .notDrawable
  | some .app => .ok (ExprKind.app.drawn "")
  | some .lam => needs .lam "param" d.param?
  | some kind => needs kind "name" d.name?

/-- What is drawn of a draft. -/
def outline? : Draft → Except DraftError Outline
  | d@(letIn _ _ b e _) => do
    return .two (← d.label?) "bound" (← b.outline?) "body" (← e.outline?)
  | d@(lam _ _ e _) => do
    return .one (← d.label?) "body" (← e.outline?)
  | d@(app _ f a _) => do
    return .two (← d.label?) "fun" (← f.outline?) "arg" (← a.outline?)
  | d => do
    return .leaf (← d.label?)

/-- The drawing of a draft. -/
def dot? (d : Draft) : Except DraftError String := Outline.dot <$> d.outline?

end Draft
end LetFun
