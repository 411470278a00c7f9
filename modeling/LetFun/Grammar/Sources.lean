import LetFun.Grammar
/-!
# The sources of nodes

Each node of a derived tree is read from a part of the tokens, its source.  That of a
variable or a constructor is the name; that of a `let` or a `fun` is all of it, from
the keyword to the end of the body; and that of an application is a run of simple
expressions up to the argument.

Parentheses around a phrase are not in the sources of the nodes in it.  Those in a run
are in the source of the application: the source of the one in `(f) x` begins with
a parenthesis.

Results:
* `Derives.exists_sourced`, `Sourced.derives`: the nodes of every derived tree have sources, and
  of no others.
* `Sourced.map_node`: the sources are those of the nodes in pre-order.
-/

namespace LetFun

/-- The nodes of a tree in pre-order, left to right. -/
def Expr.nodes : Expr → List Expr
  | n@(var ..) | n@(con ..) => [n]
  | n@(letIn _ b e _) => n :: (b.nodes ++ e.nodes)
  | n@(lam _ e _) => n :: e.nodes
  | n@(app f a _) => n :: (f.nodes ++ a.nodes)

/-- A node and the tokens of the phrase that it is read from. -/
structure Source where
  node : Expr
  tokens : List Token
deriving DecidableEq, Repr

/-- Tokens that form a phrase with a tree, and the sources of the nodes of the tree in pre-order. -/
inductive Sourced : Phrase → List Token → Expr → List Source → Prop where
  | ident {x : String} {p : Pos} :
      Sourced .simple [⟨.ident x, p⟩] (.var x p) [⟨.var x p, [⟨.ident x, p⟩]⟩]
  | con {c : String} {p : Pos} :
      Sourced .simple [⟨.con c, p⟩] (.con c p) [⟨.con c p, [⟨.con c, p⟩]⟩]
  | paren {ts : List Token} {e : Expr} {ss : List Source} {p q : Pos} :
      Sourced .expr ts e ss → Sourced .simple (⟨.lparen, p⟩ :: ts ++ [⟨.rparen, q⟩]) e ss
  | single {ts : List Token} {e : Expr} {ss : List Source} :
      Sourced .simple ts e ss → Sourced .run ts e ss
  | apply {ts us : List Token} {f a : Expr} {ss ss' : List Source} :
      Sourced .run ts f ss → Sourced .simple us a ss' →
      Sourced .run (ts ++ us) (f.apply a) (⟨f.apply a, ts ++ us⟩ :: (ss ++ ss'))
  | run {ts : List Token} {e : Expr} {ss : List Source} :
      Sourced .run ts e ss → Sourced .expr ts e ss
  | letIn {x : String} {ts us : List Token} {b e : Expr} {ss ss' : List Source}
      {p p₁ p₂ p₃ : Pos} :
      Sourced .expr ts b ss → Sourced .expr us e ss' →
      Sourced .expr
        (⟨.letKw, p⟩ :: ⟨.ident x, p₁⟩ :: ⟨.equal, p₂⟩ :: ts ++ ⟨.inKw, p₃⟩ :: us)
        (.letIn x b e p)
        (⟨.letIn x b e p,
          ⟨.letKw, p⟩ :: ⟨.ident x, p₁⟩ :: ⟨.equal, p₂⟩ :: ts ++ ⟨.inKw, p₃⟩ :: us⟩ ::
          (ss ++ ss'))
  | lam {x : String} {ts : List Token} {e : Expr} {ss : List Source} {p p₁ p₂ : Pos} :
      Sourced .expr ts e ss →
      Sourced .expr (⟨.funKw, p⟩ :: ⟨.ident x, p₁⟩ :: ⟨.arrow, p₂⟩ :: ts) (.lam x e p)
        (⟨.lam x e p, ⟨.funKw, p⟩ :: ⟨.ident x, p₁⟩ :: ⟨.arrow, p₂⟩ :: ts⟩ :: ss)

section
variable {k : Phrase} {ts : List Token} {e : Expr}

theorem Sourced.derives {ss : List Source} (h : Sourced k ts e ss) : Derives k ts e := by
  induction h with
  | ident => exact .ident
  | con => exact .con
  | paren _ ih => exact .paren ih
  | single _ ih => exact .single ih
  | apply _ _ ihf iha => exact .apply ihf iha
  | run _ ih => exact .run ih
  | letIn _ _ ihb ihe => exact .letIn ihb ihe
  | lam _ ih => exact .lam ih

theorem Derives.exists_sourced (h : Derives k ts e) : ∃ ss, Sourced k ts e ss := by
  induction h with
  | ident => exact ⟨_, .ident⟩
  | con => exact ⟨_, .con⟩
  | paren _ ih => exact ih.imp fun _ => .paren
  | single _ ih => exact ih.imp fun _ => .single
  | apply _ _ ihf iha =>
    obtain ⟨_, hf⟩ := ihf
    obtain ⟨_, ha⟩ := iha
    exact ⟨_, .apply hf ha⟩
  | run _ ih => exact ih.imp fun _ => .run
  | letIn _ _ ihb ihe =>
    obtain ⟨_, hb⟩ := ihb
    obtain ⟨_, he⟩ := ihe
    exact ⟨_, .letIn hb he⟩
  | lam _ ih =>
    obtain ⟨_, he⟩ := ih
    exact ⟨_, .lam he⟩

theorem Sourced.map_node {ss : List Source} (h : Sourced k ts e ss) :
    ss.map (·.node) = e.nodes := by
  induction h with
  | ident | con => rfl
  | paren _ ih | single _ ih | run _ ih => exact ih
  | apply _ _ ihf iha => simp only [List.map_cons, List.map_append, ihf, iha]; rfl
  | letIn _ _ ihb ihe => simp only [List.map_cons, List.map_append, ihb, ihe]; rfl
  | lam _ ih => simp only [List.map_cons, ih]; rfl

end
end LetFun
