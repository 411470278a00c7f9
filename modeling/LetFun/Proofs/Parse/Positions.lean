import LetFun.Grammar.Sources
import LetFun.Pos.Order
import LetFun.Proofs.Lexer.MaximalMunch
import LetFun.Proofs.Parse.Language
/-!
# Where nodes stand

A node stands at the first token of its source that opens no parenthesis.  For every
node but an application that is the first token of its source.  An application takes
the position of its function, and so it stands behind the parentheses with which its
source begins, if there are any: the one in `(f) x` stands at `f`.

No two tokens of a text stand at one place, so the position of an application
is that of the first token exactly if no parenthesis is opened there.

Results:
* `Reads.before`: the tokens of a text stand in the order in which they are read.
* `Derives.find_pos`: where the root of a derived tree stands.
* `Sourced.within`: the source of a node is a part of the tokens that derives the node.
* `nodes_stand_in_sources`: where the nodes of a parsed tree stand.
-/
namespace LetFun

/-! ## The order of tokens -/

section
variable {p q : Pos} {cs ds : List Char} {ts : List Token}

theorem Lexeme.spelling_ne_nil {l : Lexeme} (hl : l ≠ .eof) (hg : l.legal = true) :
    l.spelling.toList ≠ [] := by
  obtain ⟨c, hc, -⟩ := Lexeme.getLast_spelling hl hg
  intro hnil
  rw [hnil] at hc
  cases hc

/-- Tokens stand in the order in which they are read, behind all that is in front of them. -/
theorem Reads.before (h : Reads p cs ts q ds) :
    (∀ r : Pos, r.Before p → ∀ t ∈ ts, r.Before t.pos) ∧
      ts.Pairwise fun t u => t.pos.Before u.pos := by
  induction h with
  | nil => exact ⟨fun _ _ _ ht => absurd ht List.not_mem_nil, .nil⟩
  | @cons p q blanks rest ds l ts hb hl hg he _ ih =>
    have hnext : (p.after blanks).Before ((p.after blanks).after l.spelling.toList) :=
      Pos.before_after _ (Lexeme.spelling_ne_nil hl hg)
    refine ⟨fun r hr => List.forall_mem_cons.2 ⟨hr.after blanks, ?_⟩, ?_⟩
    · exact ih.1 r ((hr.after blanks).after _)
    · exact List.pairwise_cons.2 ⟨ih.1 _ hnext, ih.2⟩

theorem pairwise_before_of_lex {text : String} {us : List Token}
    (h : lex text = .ok (us ++ [⟨.eof, q⟩])) : us.Pairwise fun t u => t.pos.Before u.pos := by
  obtain ⟨us', r, blanks, hread, -, heq⟩ := tokenizes_of_lex h
  obtain ⟨rfl, -⟩ := List.append_inj' heq rfl
  exact hread.before.2

end

/-! ## Roots -/

/-- The position of the first token that opens no parenthesis. -/
def posBehindParens (ts : List Token) : Option Pos :=
  (ts.find? fun t => t.lexeme ≠ .lparen).map (·.pos)

theorem posBehindParens_append {ts us : List Token} {p : Pos} (h : posBehindParens ts = some p) :
    posBehindParens (ts ++ us) = some p := by
  obtain ⟨t, ht, hp⟩ := Option.map_eq_some_iff.1 h
  rw [posBehindParens, List.find?_append, ht, Option.some_or, Option.map_some, hp]

/-- The root of a derived tree stands behind the parentheses with which its tokens begin. -/
theorem Derives.find_pos {k : Phrase} {ts : List Token} {e : Expr} (h : Derives k ts e) :
    posBehindParens ts = some e.pos := by
  induction h with
  | ident | con | letIn _ _ _ _ | lam _ _ => rfl
  | paren _ ih => exact posBehindParens_append ih
  | single _ ih | run _ ih => exact ih
  | apply _ _ ihf _ => exact posBehindParens_append ihf

/-! ## All nodes -/

/-- A source is a part of the tokens that derives its node, and begins with a parenthesis only if
the node is an application. -/
structure Source.Within (s : Source) (ts : List Token) : Prop where
  part : s.tokens <:+: ts
  derives : ∃ k, Derives k s.tokens s.node
  head : s.node.kind ≠ .app → ∃ t, s.tokens.head? = some t ∧ t.lexeme ≠ .lparen

section
variable {s : Source} {k : Phrase} {t : Token} {ts us : List Token} {e : Expr}

theorem Source.Within.mono (h : s.Within ts) (hsub : ts <:+: us) : s.Within us :=
  ⟨h.part.trans hsub, h.derives, h.head⟩

/-- The tokens of a phrase are the source of its root, if they begin with no parenthesis. -/
theorem within_of_head (h : Derives k (t :: ts) e) (ht : t.lexeme ≠ .lparen) :
    Source.Within ⟨e, t :: ts⟩ (t :: ts) := ⟨List.infix_refl _, ⟨k, h⟩, fun _ => ⟨t, rfl, ht⟩⟩

theorem within_of_app (h : Derives k ts e) (he : e.kind = .app) : Source.Within ⟨e, ts⟩ ts :=
  ⟨List.infix_refl _, ⟨k, h⟩, fun hne => absurd he hne⟩

theorem Sourced.within {ss : List Source} (h : Sourced k ts e ss) : ∀ s ∈ ss, s.Within ts := by
  induction h with
  | ident => exact List.forall_mem_singleton.2 (within_of_head .ident nofun)
  | con => exact List.forall_mem_singleton.2 (within_of_head .con nofun)
  | @paren ts _ _ p q _ ih =>
    exact fun s hs => (ih s hs).mono ⟨[⟨.lparen, p⟩], [⟨.rparen, q⟩], rfl⟩
  | single _ ih | run _ ih => exact ih
  | @apply ts us f a ss ss' hf ha ihf iha =>
    refine List.forall_mem_cons.2 ⟨within_of_app (hf.derives.apply ha.derives) rfl, ?_⟩
    exact List.forall_mem_append.2
      ⟨fun s hs => (ihf s hs).mono (List.prefix_append ts us).isInfix,
        fun s hs => (iha s hs).mono (List.suffix_append ts us).isInfix⟩
  | @letIn x ts us b e ss ss' p p₁ p₂ p₃ hb he ihb ihe =>
    refine List.forall_mem_cons.2 ⟨within_of_head (.letIn hb.derives he.derives) nofun, ?_⟩
    refine List.forall_mem_append.2 ⟨fun s hs => (ihb s hs).mono ?_, fun s hs => (ihe s hs).mono ?_⟩
    · exact ⟨[⟨.letKw, p⟩, ⟨.ident x, p₁⟩, ⟨.equal, p₂⟩], ⟨.inKw, p₃⟩ :: us, by simp⟩
    · exact ⟨⟨.letKw, p⟩ :: ⟨.ident x, p₁⟩ :: ⟨.equal, p₂⟩ :: (ts ++ [⟨.inKw, p₃⟩]), [], by simp⟩
  | @lam x ts e ss p p₁ p₂ he ih =>
    refine List.forall_mem_cons.2 ⟨within_of_head (.lam he.derives) nofun, ?_⟩
    exact fun s hs => (ih s hs).mono ⟨[⟨.funKw, p⟩, ⟨.ident x, p₁⟩, ⟨.arrow, p₂⟩], [], by simp⟩

end

/-- A source whose tokens stand in order begins where its node stands exactly if it does not begin
with a parenthesis. -/
theorem head_pos_iff {ts : List Token} {p : Pos}
    (hts : ts.Pairwise fun t u => t.pos.Before u.pos) (h : posBehindParens ts = some p) :
    ts.head?.map (·.pos) = some p ↔ ts.head?.map (·.lexeme) ≠ some .lparen := by
  cases ts with
  | nil => cases h
  | cons t ts =>
    by_cases ht : t.lexeme = .lparen
    · -- the node stands at a token further on, and so elsewhere
      obtain ⟨u, hu, rfl⟩ := Option.map_eq_some_iff.1 h
      rw [List.find?_cons_of_neg (by simp [ht])] at hu
      have hbefore := List.rel_of_pairwise_cons hts (List.mem_of_find?_eq_some hu)
      simp [ht, hbefore.ne]
    · rw [posBehindParens, List.find?_cons_of_pos (by simp [ht])] at h
      simpa [ht] using h

/-- **Where nodes stand.** The tokens of a text that is parsed have sources for the nodes of its
tree, and only for these. Each node stands at the first token of its source that opens no
parenthesis. If the node is no application its source begins with that token; and in any case it
stands at the first token of its source exactly if that opens no parenthesis. -/
theorem nodes_stand_in_sources {limit : Option Nat} {text : String} {e : Expr}
    (h : parseWithin limit text = .ok e) :
    ∃ us q, lex text = .ok (us ++ [⟨.eof, q⟩]) ∧ (∃ ss, Sourced .expr us e ss) ∧
      ∀ ss, Sourced .expr us e ss → ss.map (·.node) = e.nodes ∧ ∀ s ∈ ss,
        s.tokens <:+: us ∧ posBehindParens s.tokens = some s.node.pos ∧
        (s.node.kind ≠ .app → s.tokens.head?.map (·.pos) = some s.node.pos) ∧
        (s.tokens.head?.map (·.pos) = some s.node.pos ↔
          s.tokens.head?.map (·.lexeme) ≠ some .lparen) := by
  obtain ⟨us, q, hlex, hd⟩ := derives_of_parse (parseWithin_of_ok h)
  refine ⟨us, q, hlex, hd.exists_sourced, fun ss hss => ⟨hss.map_node, fun s hs => ?_⟩⟩
  obtain ⟨hpart, ⟨k, hderives⟩, hhead⟩ := hss.within s hs
  have hordered := (pairwise_before_of_lex hlex).sublist hpart.sublist
  have hiff := head_pos_iff hordered hderives.find_pos
  refine ⟨hpart, hderives.find_pos, fun happ => hiff.2 ?_, hiff⟩
  obtain ⟨t, ht, hlexeme⟩ := hhead happ
  simpa [ht] using hlexeme

/-- The application to `y` begins with two parentheses, and stands at the `g` behind them. -/
theorem nodes_stand_in_sources_nested :
    parse "let g = f in\n((g) x) y" =
        .ok (.letIn "g" (.var "f" ⟨1, 9⟩) (.app (.app (.var "g" ⟨2, 3⟩) (.var "x" ⟨2, 6⟩) ⟨2, 3⟩)
          (.var "y" ⟨2, 9⟩) ⟨2, 3⟩) ⟨1, 1⟩) ∧
      ∃ us ss, lex "let g = f in\n((g) x) y" = .ok (us ++ [⟨.eof, ⟨2, 10⟩⟩]) ∧
        (ss : List Source).map (·.node.pos) =
          [⟨1, 1⟩, ⟨1, 9⟩, ⟨2, 3⟩, ⟨2, 3⟩, ⟨2, 3⟩, ⟨2, 6⟩, ⟨2, 9⟩] ∧
        ∀ s ∈ ss, s.tokens <:+: us ∧ posBehindParens s.tokens = some s.node.pos := by
  have hs : scans "let g = f in\n((g) x) y" =
      ⟨[⟨.letKw, ⟨1, 1⟩⟩, ⟨.ident "g", ⟨1, 5⟩⟩, ⟨.equal, ⟨1, 7⟩⟩, ⟨.ident "f", ⟨1, 9⟩⟩,
        ⟨.inKw, ⟨1, 11⟩⟩, ⟨.lparen, ⟨2, 1⟩⟩, ⟨.lparen, ⟨2, 2⟩⟩, ⟨.ident "g", ⟨2, 3⟩⟩,
        ⟨.rparen, ⟨2, 4⟩⟩, ⟨.ident "x", ⟨2, 6⟩⟩, ⟨.rparen, ⟨2, 7⟩⟩, ⟨.ident "y", ⟨2, 9⟩⟩] ++
        [⟨.eof, ⟨2, 10⟩⟩], none⟩ := by
    decide +kernel
  have hlex := lex_of_scans hs
  have hparse : parse "let g = f in\n((g) x) y" = .ok _ :=
    parseWithin_of_scans hs (by decide) (Parse.derives_of_feeds (p := ⟨2, 10⟩) rfl)
  obtain ⟨us, q, hus, ⟨ss, hss⟩, hall⟩ := nodes_stand_in_sources hparse
  obtain ⟨hnodes, hstand⟩ := hall ss hss
  rw [hlex, Except.ok.injEq] at hus
  obtain ⟨rfl, -⟩ := List.append_inj' hus rfl
  refine ⟨hparse, _, ss, hlex, ?_, fun s hs => ⟨(hstand s hs).1, (hstand s hs).2.1⟩⟩
  have hpos := congrArg (List.map Expr.pos) hnodes
  rw [List.map_map] at hpos
  exact hpos

/-- In `(f) x` the source of the application begins with the parenthesis, and the application
stands behind it. -/
theorem application_behind_paren :
    let e : Expr := .app (.var "f" ⟨1, 2⟩) (.var "x" ⟨1, 5⟩) ⟨1, 2⟩
    parse "(f) x" = .ok e ∧
      ∃ us ss, lex "(f) x" = .ok (us ++ [⟨.eof, ⟨1, 6⟩⟩]) ∧ Sourced .expr us e ss ∧
        ∃ s ∈ ss, s.node = e ∧ s.tokens = us ∧ us.head? = some ⟨.lparen, ⟨1, 1⟩⟩ ∧
          us.head?.map (·.pos) ≠ some s.node.pos := by
  intro e
  have hs : scans "(f) x" = ⟨[⟨.lparen, ⟨1, 1⟩⟩, ⟨.ident "f", ⟨1, 2⟩⟩, ⟨.rparen, ⟨1, 3⟩⟩,
      ⟨.ident "x", ⟨1, 5⟩⟩] ++ [⟨.eof, ⟨1, 6⟩⟩], none⟩ := by
    decide +kernel
  have hlex := lex_of_scans hs
  have hsourced : Sourced .expr [⟨.lparen, ⟨1, 1⟩⟩, ⟨.ident "f", ⟨1, 2⟩⟩, ⟨.rparen, ⟨1, 3⟩⟩,
      ⟨.ident "x", ⟨1, 5⟩⟩] e _ :=
    .run (.apply (.single (.paren (.run (.single .ident)))) .ident)
  refine ⟨?_, _, _, hlex, hsourced, _, List.mem_cons_self, rfl, rfl, rfl, by decide⟩
  exact parseWithin_of_scans hs (by decide) hsourced.derives

end LetFun
