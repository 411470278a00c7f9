import LetFun.Proofs.Parse.Language
import LetFun.Proofs.Table.Preorder
import Mathlib.Data.List.Forall2
/-!
# The tokens of a table

In a parsed tree every node but an application has a token of its own, at which
it stands: its keyword, or its name.  In pre-order these nodes come in the order of
their tokens, and no token is left over but those that only join others: marks,
the keyword `in`, and the names that a `let` or a `fun` binds, which belong to the
keyword before them.

Results:
* `Derives.accounted`: the tokens of a phrase are those of the records of its tree.
* `Derives.anchored`: an application stands where its function stands.
* `tokens_accounted`: the same of a text and of the table of its tree.
-/
namespace LetFun

/-- Whether the identifier behind a lexeme is a binder's. -/
def Lexeme.binds : Lexeme → Bool
  | letKw | funKw => true
  | _ => false

/-- Whether a node stands at a lexeme: a keyword that begins an expression, a constructor, or an
identifier that is not `bound` by the token before it. -/
def Lexeme.isHead (bound : Bool) : Lexeme → Bool
  | letKw | funKw | con _ => true
  | ident _ => !bound
  | _ => false

/-- The tokens at which nodes stand, each with the token right behind it. The first one of the
list may be `bound` by a token before it. -/
def heads (bound : Bool) : List Token → List (Token × Option Token)
  | [] => []
  | t :: ts =>
    if t.lexeme.isHead bound then (t, ts.head?) :: heads t.lexeme.binds ts
    else heads t.lexeme.binds ts

/-- The record and the token are of one form, name and position; the name of a `let` or a `fun` is
in the token behind its keyword. -/
inductive Record.StandsAt : Record → Token × Option Token → Prop where
  | var {id : Nat} {x : String} {p : Pos} {next : Option Token} :
      StandsAt ⟨id, .var x, some p⟩ (⟨.ident x, p⟩, next)
  | con {id : Nat} {c : String} {p : Pos} {next : Option Token} :
      StandsAt ⟨id, .con c, some p⟩ (⟨.con c, p⟩, next)
  | letIn {id b e : Nat} {x : String} {p q : Pos} :
      StandsAt ⟨id, .letIn x b e, some p⟩ (⟨.letKw, p⟩, some ⟨.ident x, q⟩)
  | lam {id e : Nat} {x : String} {p q : Pos} :
      StandsAt ⟨id, .lam x e, some p⟩ (⟨.funKw, p⟩, some ⟨.ident x, q⟩)

namespace Table

/-- The records of nodes other than applications. -/
def named (records : List Record) : List Record :=
  records.filter fun r => r.label ≠ ExprKind.app.label

theorem named_append (records records' : List Record) :
    named (records ++ records') = named records ++ named records' := List.filter_append ..

end Table

open Table

/-- The tokens of a phrase at which nodes stand are those of the records of its tree, wherever
these are numbered from and whatever follows the phrase. -/
def Accounted (us : List Token) (e : Expr) : Prop :=
  ∀ id rest, ∃ hs, List.Forall₂ Record.StandsAt (named (number true e id [])) hs ∧
    heads false (us ++ rest) = hs ++ heads false rest

-- The token behind the last one of a phrase belongs to what follows, so `rest` cannot be dropped.
theorem Accounted.paren {ts : List Token} {e : Expr} {p q : Pos} (h : Accounted ts e) :
    Accounted (⟨.lparen, p⟩ :: ts ++ [⟨.rparen, q⟩]) e := by
  intro id rest
  obtain ⟨hs, hforall, hheads⟩ := h id (⟨.rparen, q⟩ :: rest)
  refine ⟨hs, hforall, ?_⟩
  simpa [heads, Lexeme.isHead, Lexeme.binds] using hheads

theorem Accounted.apply {ts us : List Token} {f a : Expr} (hf : Accounted ts f)
    (ha : Accounted us a) : Accounted (ts ++ us) (f.apply a) := by
  intro id rest
  obtain ⟨hs, hforall, hheads⟩ := hf (id + 1) (us ++ rest)
  obtain ⟨hs', hforall', hheads'⟩ := ha (id + 1 + f.size) rest
  have hnamed : named (number true (f.apply a) id []) =
      named (number true f (id + 1) []) ++ named (number true a (id + 1 + f.size) []) := by
    rw [← named_append, ← number_append]
    rfl
  refine ⟨hs ++ hs', ?_, ?_⟩
  · rw [hnamed]
    exact List.rel_append hforall hforall'
  · rw [List.append_assoc, hheads, hheads', List.append_assoc]

theorem Accounted.letIn {x : String} {ts us : List Token} {b e : Expr} {p p₁ p₂ p₃ : Pos}
    (hb : Accounted ts b) (he : Accounted us e) :
    Accounted (⟨.letKw, p⟩ :: ⟨.ident x, p₁⟩ :: ⟨.equal, p₂⟩ :: ts ++ ⟨.inKw, p₃⟩ :: us)
      (.letIn x b e p) := by
  intro id rest
  obtain ⟨hs, hforall, hheads⟩ := hb (id + 1) (⟨.inKw, p₃⟩ :: (us ++ rest))
  obtain ⟨hs', hforall', hheads'⟩ := he (id + 1 + b.size) rest
  have hnamed : named (number true (.letIn x b e p) id []) =
      ⟨id, .letIn x (id + 1) (id + 1 + b.size), some p⟩ ::
        (named (number true b (id + 1) []) ++ named (number true e (id + 1 + b.size) [])) := by
    rw [← named_append, ← number_append]
    rfl
  refine ⟨(⟨.letKw, p⟩, some ⟨.ident x, p₁⟩) :: (hs ++ hs'), ?_, ?_⟩
  · rw [hnamed]
    exact .cons .letIn (List.rel_append hforall hforall')
  · simp [heads, Lexeme.isHead, Lexeme.binds, hheads, hheads']

theorem Accounted.lam {x : String} {ts : List Token} {e : Expr} {p p₁ p₂ : Pos}
    (he : Accounted ts e) :
    Accounted (⟨.funKw, p⟩ :: ⟨.ident x, p₁⟩ :: ⟨.arrow, p₂⟩ :: ts) (.lam x e p) := by
  intro id rest
  obtain ⟨hs, hforall, hheads⟩ := he (id + 1) rest
  refine ⟨(⟨.funKw, p⟩, some ⟨.ident x, p₁⟩) :: hs, .cons .lam hforall, ?_⟩
  simp [heads, Lexeme.isHead, Lexeme.binds, hheads]

theorem Derives.accounted {k : Phrase} {us : List Token} {e : Expr} (h : Derives k us e) :
    Accounted us e := by
  induction h with
  | ident => exact fun _ _ => ⟨_, .cons .var .nil, rfl⟩
  | con => exact fun _ _ => ⟨_, .cons .con .nil, rfl⟩
  | paren _ ih => exact ih.paren
  | single _ ih | run _ ih => exact ih
  | apply _ _ ihf iha => exact ihf.apply iha
  | letIn _ _ ihb ihe => exact ihb.letIn ihe
  | lam _ ih => exact ih.lam

/-! ## Applications -/

/-- If the record is an application, it has the position of the record of its function. -/
def Record.AnchoredIn (records : List Record) (r : Record) : Prop :=
  ∀ f a, r.node = .app f a → ∃ r' ∈ records, r'.id = f ∧ ∃ p, r'.pos = some p ∧ r.pos = some p

theorem Record.anchoredIn_of_ne {records : List Record} {r : Record}
    (h : ∀ f a, r.node ≠ .app f a) : r.AnchoredIn records := fun f a hnode => absurd hnode (h f a)

theorem Record.AnchoredIn.mono {records records' : List Record} {r : Record}
    (h : r.AnchoredIn records) (hsub : records ⊆ records') : r.AnchoredIn records' := by
  intro f a hnode
  obtain ⟨r', hr', hpos⟩ := h f a hnode
  exact ⟨r', hsub hr', hpos⟩

namespace Table

/-- Each application among the records stands where its function stands. -/
def Anchored (records : List Record) : Prop := ∀ r ∈ records, r.AnchoredIn records

theorem Anchored.append {records records' : List Record} (h : Anchored records)
    (h' : Anchored records') : Anchored (records ++ records') :=
  List.forall_mem_append.2
    ⟨fun r hr => (h r hr).mono (List.subset_append_left ..),
      fun r hr => (h' r hr).mono (List.subset_append_right ..)⟩

theorem Anchored.cons {r : Record} {records : List Record} (hr : r.AnchoredIn records)
    (h : Anchored records) : Anchored (r :: records) :=
  List.forall_mem_cons.2
    ⟨hr.mono (List.subset_cons_self ..), fun r hr => (h r hr).mono (List.subset_cons_self ..)⟩

/-- Among the records of a tree is that of its root. -/
theorem exists_root_number (e : Expr) (id : Nat) :
    ∃ r ∈ number true e id [], r.id = id ∧ r.pos = some e.pos := by
  cases e <;> exact ⟨_, List.mem_cons_self, rfl, rfl⟩

end Table

theorem Derives.anchored {k : Phrase} {us : List Token} {e : Expr} (h : Derives k us e) (id : Nat) :
    Anchored (number true e id []) := by
  induction h generalizing id with
  | ident | con => exact List.forall_mem_singleton.2 (Record.anchoredIn_of_ne (by simp))
  | paren _ ih | single _ ih | run _ ih => exact ih id
  | @apply _ _ f a _ _ ihf iha =>
    rw [Expr.apply, number, number_append f]
    refine .cons ?_ ((ihf _).append (iha _))
    rintro _ _ ⟨rfl, rfl⟩
    -- the function has the next number, and its record is the first of its own
    obtain ⟨r, hr, hid, hpos⟩ := exists_root_number f (id + 1)
    exact ⟨r, List.mem_append_left _ hr, hid, _, hpos, rfl⟩
  | letIn _ _ ihb ihe =>
    rw [number, number_append]
    exact .cons (Record.anchoredIn_of_ne (by simp)) ((ihb _).append (ihe _))
  | lam _ ih => exact .cons (Record.anchoredIn_of_ne (by simp)) (ih _)

/-! ## The tokens of a text -/

/-- **Every token is accounted for.** The tokens of a text that is parsed at which nodes can stand
are those of the records of its table that are no applications, one for one and in order, and an
application has the position of its function. -/
theorem tokens_accounted {limit : Option Nat} {text : String} {e : Expr}
    (h : parseWithin limit text = .ok e) :
    ∃ ts t, lex text = .ok ts ∧ (Draft.ofExpr e).table? true = .ok t ∧
      List.Forall₂ Record.StandsAt (named t.records) (heads false ts) ∧
      ∀ r ∈ t.records, ∀ f a, r.node = .app f a →
        ∃ r' p, t.records[f]? = some r' ∧ r'.pos = some p ∧ r.pos = some p := by
  obtain ⟨us, p, hlex, he⟩ := derives_of_parse (parseWithin_of_ok h)
  refine ⟨us ++ [⟨.eof, p⟩], .ofExpr true e, hlex, Draft.table?_ofExpr true e, ?_, ?_⟩
  · obtain ⟨hs, hforall, hheads⟩ := he.accounted 0 [⟨.eof, p⟩]
    have heof : heads false [⟨.eof, p⟩] = [] := rfl
    rw [records_ofExpr, hheads, heof, List.append_nil]
    exact hforall
  · intro r hr f a hnode
    have happ : Anchored (ofExpr true e).records := records_ofExpr true e ▸ he.anchored 0
    obtain ⟨r', hr', rfl, q, hpos⟩ := happ r hr f a hnode
    obtain ⟨i, hi⟩ := List.mem_iff_getElem?.1 hr'
    exact ⟨r', q, by rw [id_of_getElem? hi, hi], hpos⟩

/-- In a text with every construct the binders are no nodes, and the brackets leave no mark. -/
theorem tokens_accounted_let :
    ∃ e ts t, parse "let f = fun x -> x in f (f Nil)" = .ok e ∧
      lex "let f = fun x -> x in f (f Nil)" = .ok ts ∧ (Draft.ofExpr e).table? true = .ok t ∧
      ((heads false ts).map (·.1.lexeme) =
        [.letKw, .funKw, .ident "x", .ident "f", .ident "f", .con "Nil"]) ∧
      List.Forall₂ Record.StandsAt (named t.records) (heads false ts) ∧
      ∃ r', t.records[4]? = some r' ∧ r'.pos = some ⟨1, 23⟩ := by
  have hs : scans "let f = fun x -> x in f (f Nil)" =
      ⟨[⟨.letKw, ⟨1, 1⟩⟩, ⟨.ident "f", ⟨1, 5⟩⟩, ⟨.equal, ⟨1, 7⟩⟩, ⟨.funKw, ⟨1, 9⟩⟩,
        ⟨.ident "x", ⟨1, 13⟩⟩, ⟨.arrow, ⟨1, 15⟩⟩, ⟨.ident "x", ⟨1, 18⟩⟩, ⟨.inKw, ⟨1, 20⟩⟩,
        ⟨.ident "f", ⟨1, 23⟩⟩, ⟨.lparen, ⟨1, 25⟩⟩, ⟨.ident "f", ⟨1, 26⟩⟩, ⟨.con "Nil", ⟨1, 28⟩⟩,
        ⟨.rparen, ⟨1, 31⟩⟩] ++ [⟨.eof, ⟨1, 32⟩⟩], none⟩ := by
    decide +kernel
  have hshallow : Shallow (some nestingLimit) "let f = fun x -> x in f (f Nil)" :=
    shallow_of_within (by rw [hs]; decide)
  have hparse : parse "let f = fun x -> x in f (f Nil)" = .ok _ :=
    (parseWithin_of_shallow hshallow).trans
      (parse_of_derives (p := ⟨1, 32⟩) (by rw [lex_eq, hs]) (Parse.derives_of_feeds (p := ⟨1, 32⟩) rfl))
  obtain ⟨ts, t, hlex, htable, hforall, happ⟩ := tokens_accounted hparse
  refine ⟨_, ts, t, hparse, hlex, htable, ?_, hforall, ?_⟩
  · rw [lex_eq, hs] at hlex
    cases hlex
    rfl
  · cases htable
    obtain ⟨r', p, hr', hpos, hp⟩ := happ _ (List.mem_of_getElem? (i := 3) rfl) _ _ rfl
    cases hp
    exact ⟨r', hr', hpos⟩

end LetFun
