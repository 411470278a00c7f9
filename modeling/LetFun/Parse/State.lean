import LetFun.Expr
import LetFun.Fault
/-!
# The state of a parse

Parsing takes the tokens one at a time, and this module says what each does.
The grammar is

    expr   ::= LET IDENT EQUAL expr IN expr | FUN IDENT ARROW expr | simple simple*
    simple ::= IDENT | CON | LPAREN expr RPAREN

A state holds what is needed next (`Want`) and the unfinished constructs around
it (`Context`).  An application grows as long as simple expressions follow; the
first other token closes it, together with every `fun` and every `let` body that
ends there.

Results:
* `feed_eof`: the end of the text is taken only by a state that it completes.
-/

namespace LetFun.Parse

/-- The constructs that are open around the place of the next token, innermost first. -/
inductive Context where
  | top
  /-- An open parenthesis, and the function whose argument it begins if there is one. -/
  | paren (function : Option Expr) (outer : Context)
  /-- Between the equals sign and the `in` of a `let`. -/
  | bound (name : String) (pos : Pos) (outer : Context)
  /-- Behind the `in` of a `let`. -/
  | body (name : String) (bound : Expr) (pos : Pos) (outer : Context)
  /-- Behind the arrow of a `fun`. -/
  | lam (param : String) (pos : Pos) (outer : Context)
deriving DecidableEq, Repr

/-- What the next token is needed for. -/
inductive Want where
  | expr
  | simple
  | letKw
  | funKw
  /-- The name behind the `let` at `pos`. -/
  | letName (pos : Pos)
  | equal (name : String) (pos : Pos)
  /-- The parameter behind the `fun` at `pos`. -/
  | funName (pos : Pos)
  | arrow (param : String) (pos : Pos)
  /-- The expression so far, which a further argument may extend. -/
  | more (e : Expr)
  /-- Nothing: the program has ended. -/
  | done (e : Expr)
deriving DecidableEq, Repr

structure State where
  want : Want
  context : Context
deriving DecidableEq, Repr

/-- The nesting that the open constructs cost: three for a parenthesis, two for a `let` or `fun`. -/
def Context.cost : Context → Nat
  | top => 0
  | paren _ k => 3 + k.cost
  | bound _ _ k | body _ _ _ k | lam _ _ k => 2 + k.cost

/-- A `let` or `fun` counts from its keyword on. -/
def Want.cost : Want → Nat
  | letName _ | equal .. | funName _ | arrow .. => 2
  | _ => 0

def State.cost (s : State) : Nat := s.want.cost + s.context.cost

/-- A further simple expression: the argument of the function before it, if there is one. -/
def extend : Option Expr → Expr → Expr
  | none, e => e
  | some f, e => f.apply e

def unexpected (t : Token) (w : Wanted) : Except ParseError State :=
  .error ⟨.unexpected t.lexeme w, t.pos⟩

/-- A token that should begin a simple expression. -/
def feedSimple (function : Option Expr) (k : Context) (t : Token) : Except ParseError State :=
  match t.lexeme with
  | .ident x => .ok ⟨.more (extend function (.var x t.pos)), k⟩
  | .con c => .ok ⟨.more (extend function (.con c t.pos)), k⟩
  | .lparen => .ok ⟨.expr, .paren function k⟩
  | _ => unexpected t .simpleExpr

/-- A token that does not extend the expression `e` and so ends it. -/
def close (t : Token) (e : Expr) : Context → Except ParseError State
  | .top =>
    if t.lexeme = .eof then .ok ⟨.done e, .top⟩ else unexpected t (.form ⟨.eof, none⟩)
  | .paren f k =>
    if t.lexeme = .rparen then .ok ⟨.more (extend f e), k⟩
    else unexpected t (.form ⟨.rparen, none⟩)
  | .bound x p k =>
    if t.lexeme = .inKw then .ok ⟨.expr, .body x e p k⟩ else unexpected t (.form ⟨.inKw, none⟩)
  | .body x b p k => close t (.letIn x b e p) k
  | .lam x p k => close t (.lam x e p) k

/-- Takes one token. -/
def feed (s : State) (t : Token) : Except ParseError State :=
  match s.want with
  | .expr =>
    match t.lexeme with
    | .eof => .error ⟨.missingExpr, t.pos⟩
    | .letKw => .ok ⟨.letName t.pos, s.context⟩
    | .funKw => .ok ⟨.funName t.pos, s.context⟩
    | _ => feedSimple none s.context t
  | .simple => feedSimple none s.context t
  | .letKw =>
    if t.lexeme = .letKw then .ok ⟨.letName t.pos, s.context⟩
    else unexpected t (.form ⟨.letKw, none⟩)
  | .funKw =>
    if t.lexeme = .funKw then .ok ⟨.funName t.pos, s.context⟩
    else unexpected t (.form ⟨.funKw, none⟩)
  | .letName p =>
    match t.lexeme with
    | .ident x => .ok ⟨.equal x p, s.context⟩
    | _ => unexpected t .identifier
  | .equal x p =>
    if t.lexeme = .equal then .ok ⟨.expr, .bound x p s.context⟩
    else unexpected t (.form ⟨.equal, none⟩)
  | .funName p =>
    match t.lexeme with
    | .ident x => .ok ⟨.arrow x p, s.context⟩
    | _ => unexpected t .identifier
  | .arrow x p =>
    if t.lexeme = .arrow then .ok ⟨.expr, .lam x p s.context⟩
    else unexpected t (.form ⟨.arrow, none⟩)
  | .more e =>
    if t.lexeme.startsSimple then feedSimple (some e) s.context t else close t e s.context
  | .done _ => unexpected t (.form ⟨.eof, none⟩)

theorem close_eof {t : Token} {e : Expr} {k : Context} {s : State} (ht : t.lexeme = .eof)
    (h : close t e k = .ok s) : ∃ e', s.want = .done e' := by
  induction k generalizing e with
  | top => simp only [close, ht, if_true] at h; cases h; exact ⟨e, rfl⟩
  | paren f k => simp [close, ht, unexpected] at h
  | bound x p k => simp [close, ht, unexpected] at h
  | body x b p k ih => exact ih h
  | lam x p k ih => exact ih h

theorem feed_eof {s s' : State} {t : Token} (ht : t.lexeme = .eof) (h : feed s t = .ok s') :
    ∃ e, s'.want = .done e := by
  unfold feed at h
  split at h <;> simp [ht, feedSimple, unexpected, Lexeme.startsSimple] at h
  exact close_eof ht h

end LetFun.Parse
