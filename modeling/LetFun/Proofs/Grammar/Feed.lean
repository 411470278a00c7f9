import LetFun.Grammar
import LetFun.Parse.State
/-!
# Phrases lead from state to state

`feeds` takes the tokens of a list one after another.  The tokens of a phrase,
fed to a state that wants the phrase, lead to a state that holds its tree: a
simple expression extends the function before it, a run stands in its place, and
an expression may leave `let` bodies and `fun` bodies open behind it
(`Unfinished`), which the next token closes.

Since feeding is a function, no tokens have two trees.

Results:
* `Derives.fed`: what feeding the tokens of a phrase comes to.
* `feeds_program`: a program is fed to its end and leaves its tree.
* `Derives.tree_unique`: the tokens of a phrase fix its tree.
* `Derives.relocate`: moving the tokens of a phrase moves its tree and does no more.
-/
namespace LetFun.Parse

/-- Takes tokens one after another. -/
def feeds (s : State) : List Token → Except ParseError State
  | [] => .ok s
  | t :: ts =>
    match feed s t with
    | .ok s' => feeds s' ts
    | .error e => .error e

theorem feeds_cons {s s' : State} {t : Token} (ts : List Token) (h : feed s t = .ok s') :
    feeds s (t :: ts) = feeds s' ts := by
  simp only [feeds, h]

theorem feeds_append {s s' : State} {ts : List Token} (us : List Token)
    (h : feeds s ts = .ok s') : feeds s (ts ++ us) = feeds s' us := by
  induction ts generalizing s with
  | nil => simp only [feeds, Except.ok.injEq] at h; subst h; rfl
  | cons t ts ih =>
    simp only [feeds] at h
    split at h
    · rename_i s₁ hs
      rw [List.cons_append, feeds_cons _ hs]
      exact ih h
    · cases h

/-- What is fed in two parts passes through a state between them. -/
theorem feeds_append_ok {s s' : State} {ts us : List Token} (h : feeds s (ts ++ us) = .ok s') :
    ∃ s₁, feeds s ts = .ok s₁ ∧ feeds s₁ us = .ok s' := by
  induction ts generalizing s with
  | nil => exact ⟨s, rfl, h⟩
  | cons t ts ih =>
    rw [List.cons_append, feeds] at h
    split at h
    · rename_i s₁ hs
      obtain ⟨s₂, h₁, h₂⟩ := ih h
      exact ⟨s₂, by rw [feeds_cons _ hs, h₁], h₂⟩
    · cases h

/-- Either all tokens can be fed, or there is a first that cannot. -/
theorem feeds_total (s : State) (ts : List Token) :
    (∃ s', feeds s ts = .ok s') ∨
      ∃ pre t post s' e, ts = pre ++ t :: post ∧ feeds s pre = .ok s' ∧ feed s' t = .error e := by
  induction ts generalizing s with
  | nil => exact .inl ⟨s, rfl⟩
  | cons t ts ih =>
    cases ht : feed s t with
    | error e => exact .inr ⟨[], t, ts, s, e, rfl, rfl, ht⟩
    | ok s₁ =>
      rcases ih s₁ with ⟨s', h⟩ | ⟨pre, t', post, s', e, rfl, h, he⟩
      · exact .inl ⟨s', by rw [feeds_cons _ ht, h]⟩
      · exact .inr ⟨t :: pre, t', post, s', e, rfl, by rw [feeds_cons _ ht, h], he⟩

/-! ## Open ends -/

/-- The expression `e'` in `k'` is the open end of the expression `e` in `k`: the token that
ends the one ends the other. -/
inductive Unfinished : Expr → Context → Expr → Context → Prop where
  | here {e : Expr} {k : Context} : Unfinished e k e k
  | body {x : String} {b e e' : Expr} {p : Pos} {k k' : Context} :
      Unfinished e (.body x b p k) e' k' → Unfinished (.letIn x b e p) k e' k'
  | lam {x : String} {e e' : Expr} {p : Pos} {k k' : Context} :
      Unfinished e (.lam x p k) e' k' → Unfinished (.lam x e p) k e' k'

theorem Unfinished.close {e e' : Expr} {k k' : Context} (h : Unfinished e k e' k') (t : Token) :
    close t e' k' = close t e k := by
  induction h with
  | here => rfl
  | body _ ih => rw [ih]; rfl
  | lam _ ih => rw [ih]; rfl

theorem Unfinished.feed {e e' : Expr} {k k' : Context} (h : Unfinished e k e' k') {t : Token}
    (ht : t.lexeme.startsSimple = false) : feed ⟨.more e', k'⟩ t = Parse.close t e k := by
  simp [Parse.feed, ht, h.close t]

theorem Unfinished.feed_rparen {f : Option Expr} {e e' : Expr} {k k' : Context}
    (h : Unfinished e (.paren f k) e' k') (p : Pos) :
    Parse.feed ⟨.more e', k'⟩ ⟨.rparen, p⟩ = .ok ⟨.more (extend f e), k⟩ := by
  rw [h.feed rfl]; simp [Parse.close]

theorem Unfinished.feed_inKw {x : String} {p : Pos} {b b' : Expr} {k k' : Context}
    (h : Unfinished b (.bound x p k) b' k') (q : Pos) :
    Parse.feed ⟨.more b', k'⟩ ⟨.inKw, q⟩ = .ok ⟨.expr, .body x b p k⟩ := by
  rw [h.feed rfl]; simp [Parse.close]

theorem Unfinished.feed_eof {e e' : Expr} {k' : Context} (h : Unfinished e .top e' k') (p : Pos) :
    Parse.feed ⟨.more e', k'⟩ ⟨.eof, p⟩ = .ok ⟨.done e, .top⟩ := by
  rw [h.feed rfl]; simp [Parse.close]

/-! ## Feeding a phrase -/

/-- The want of a state in which a simple expression is next. -/
def wantAfter : Option Expr → Want
  | none => .simple
  | some f => .more f

theorem feed_wantAfter {f : Option Expr} {k : Context} {t : Token}
    (ht : t.lexeme.startsSimple = true) : feed ⟨wantAfter f, k⟩ t = feedSimple f k t := by
  cases f with
  | none => rfl
  | some f => simp [feed, wantAfter, ht]

theorem feed_expr {k : Context} {t : Token} (ht : t.lexeme.startsSimple = true) :
    feed ⟨.expr, k⟩ t = feed ⟨.simple, k⟩ t := by
  unfold feed
  cases hl : t.lexeme <;> simp [Lexeme.startsSimple, hl] at ht ⊢

end Parse

open Parse

/-- A run begins with a token that can begin a simple expression. -/
theorem Derives.head_startsSimple {k : Phrase} {ts : List Token} {e : Expr} (h : Derives k ts e)
    (hk : k ≠ .expr) : ∃ t us, ts = t :: us ∧ t.lexeme.startsSimple = true := by
  induction h with
  | ident => exact ⟨_, _, rfl, rfl⟩
  | con => exact ⟨_, _, rfl, rfl⟩
  | paren => exact ⟨_, _, rfl, rfl⟩
  | single _ ih => exact ih (by decide)
  | apply _ _ ih _ =>
    obtain ⟨t, us, rfl, ht⟩ := ih (by decide)
    exact ⟨t, _, rfl, ht⟩
  | run | letIn | lam => exact absurd rfl hk

/-- What feeding the tokens of a phrase comes to, wherever the phrase stands. -/
def Fed : Phrase → List Token → Expr → Prop
  | .simple, ts, e => ∀ f k, feeds ⟨wantAfter f, k⟩ ts = .ok ⟨.more (extend f e), k⟩
  | .run, ts, e => ∀ k, feeds ⟨.simple, k⟩ ts = .ok ⟨.more e, k⟩
  | .expr, ts, e => ∀ k, ∃ e' k', feeds ⟨.expr, k⟩ ts = .ok ⟨.more e', k'⟩ ∧ Unfinished e k e' k'

theorem Fed.paren {ts : List Token} {e : Expr} {p q : Pos} (h : Fed .expr ts e) :
    Fed .simple (⟨.lparen, p⟩ :: ts ++ [⟨.rparen, q⟩]) e := by
  intro f k
  obtain ⟨e', k', hts, hu⟩ := h (.paren f k)
  have hopen : feed ⟨wantAfter f, k⟩ ⟨.lparen, p⟩ = .ok ⟨.expr, .paren f k⟩ := feed_wantAfter rfl
  rw [List.cons_append, feeds_cons _ hopen, feeds_append _ hts, feeds_cons _ (hu.feed_rparen q),
    feeds]

theorem Fed.letIn {x : String} {ts us : List Token} {b e : Expr} {p p₁ p₂ p₃ : Pos}
    (hb : Fed .expr ts b) (he : Fed .expr us e) :
    Fed .expr (⟨.letKw, p⟩ :: ⟨.ident x, p₁⟩ :: ⟨.equal, p₂⟩ :: ts ++ ⟨.inKw, p₃⟩ :: us)
      (.letIn x b e p) := by
  intro k
  obtain ⟨b', k₁, hts, hub⟩ := hb (.bound x p k)
  obtain ⟨e', k', hus, hue⟩ := he (.body x b p k)
  refine ⟨e', k', ?_, .body hue⟩
  calc feeds ⟨.expr, k⟩
        (⟨.letKw, p⟩ :: ⟨.ident x, p₁⟩ :: ⟨.equal, p₂⟩ :: ts ++ ⟨.inKw, p₃⟩ :: us)
      = feeds ⟨.expr, .bound x p k⟩ (ts ++ ⟨.inKw, p₃⟩ :: us) := by simp [feeds, feed]
    _ = feeds ⟨.more b', k₁⟩ (⟨.inKw, p₃⟩ :: us) := feeds_append _ hts
    _ = .ok ⟨.more e', k'⟩ := by rw [feeds_cons _ (hub.feed_inKw p₃), hus]

theorem Fed.lam {x : String} {ts : List Token} {e : Expr} {p p₁ p₂ : Pos} (he : Fed .expr ts e) :
    Fed .expr (⟨.funKw, p⟩ :: ⟨.ident x, p₁⟩ :: ⟨.arrow, p₂⟩ :: ts) (.lam x e p) := by
  intro k
  obtain ⟨e', k', hts, hu⟩ := he (.lam x p k)
  exact ⟨e', k', by simpa [feeds, feed] using hts, .lam hu⟩

/-- A run leaves nothing open where an expression is wanted. -/
theorem Fed.run {ts : List Token} {e : Expr} (h : Fed .run ts e) (hd : Derives .run ts e)
    (k : Context) : feeds ⟨.expr, k⟩ ts = .ok ⟨.more e, k⟩ := by
  obtain ⟨t, us, rfl, ht⟩ := hd.head_startsSimple (by decide)
  rw [← h k]
  simp only [feeds, feed_expr ht]

theorem Derives.fed {k : Phrase} {ts : List Token} {e : Expr} (h : Derives k ts e) :
    Fed k ts e := by
  induction h with
  | ident => intro f k; rw [feeds_cons _ (feed_wantAfter rfl)]; rfl
  | con => intro f k; rw [feeds_cons _ (feed_wantAfter rfl)]; rfl
  | paren _ ih => exact ih.paren
  | single _ ih => exact ih none
  | apply _ _ ihf iha =>
    intro k
    rw [feeds_append _ (ihf k)]
    exact iha (some _) k
  | run hr ih => exact fun k => ⟨_, k, ih.run hr k, .here⟩
  | letIn _ _ ihb ihe => exact ihb.letIn ihe
  | lam _ ih => exact ih.lam

/-! ## Programs -/

/-- The state before the first token of a program. -/
abbrev Parse.start : State := ⟨.expr, .top⟩

theorem feeds_program {us : List Token} {e : Expr} {p : Pos} (h : Derives .expr us e) :
    feeds start (us ++ [⟨.eof, p⟩]) = .ok ⟨.done e, .top⟩ := by
  obtain ⟨e', k', hus, hu⟩ := h.fed .top
  rw [feeds_append _ hus, feeds_cons _ (hu.feed_eof p), feeds]

/-- Every phrase is an expression when it stands alone. -/
theorem Derives.toExpr {k : Phrase} {ts : List Token} {e : Expr} (h : Derives k ts e) :
    Derives .expr ts e := by
  cases k with
  | expr => exact h
  | run => exact .run h
  | simple => exact .run (.single h)

theorem Derives.tree_unique {k : Phrase} {ts : List Token} {e₁ e₂ : Expr} (h₁ : Derives k ts e₁)
    (h₂ : Derives k ts e₂) : e₁ = e₂ := by
  have h := feeds_program (p := Pos.none) h₁.toExpr
  rw [feeds_program h₂.toExpr] at h
  cases h
  rfl

/-! ## Positions -/

theorem tokens_of_lexemes_cons {us : List Token} {l : Lexeme} {ls : List Lexeme}
    (h : us.map (·.lexeme) = l :: ls) : ∃ p vs, us = ⟨l, p⟩ :: vs ∧ vs.map (·.lexeme) = ls := by
  obtain ⟨⟨l', p⟩, vs, rfl, rfl, hvs⟩ := List.map_eq_cons_iff.1 h
  exact ⟨p, vs, rfl, hvs⟩

/-- Tokens that say the same form the same phrases, wherever they stand. -/
theorem Derives.relocate {k : Phrase} {ts : List Token} {e : Expr} (h : Derives k ts e) :
    ∀ {us : List Token}, us.map (·.lexeme) = ts.map (·.lexeme) →
      ∃ e', Derives k us e' ∧ e'.strip = e.strip := by
  induction h with
  | ident =>
    intro us hus
    obtain ⟨q, rest, rfl, hrest⟩ := tokens_of_lexemes_cons hus
    obtain rfl := List.map_eq_nil_iff.1 hrest
    exact ⟨_, .ident, rfl⟩
  | con =>
    intro us hus
    obtain ⟨q, rest, rfl, hrest⟩ := tokens_of_lexemes_cons hus
    obtain rfl := List.map_eq_nil_iff.1 hrest
    exact ⟨_, .con, rfl⟩
  | paren _ ih =>
    intro us hus
    simp only [List.cons_append, List.map_cons, List.map_append, List.map_nil] at hus
    obtain ⟨p', rest, rfl, hrest⟩ := tokens_of_lexemes_cons hus
    obtain ⟨vs, last, rfl, hvs, hlast⟩ := List.map_eq_append_iff.1 hrest
    obtain ⟨q', tail, rfl, htail⟩ := tokens_of_lexemes_cons hlast
    obtain rfl := List.map_eq_nil_iff.1 htail
    obtain ⟨e', he, hs⟩ := ih hvs
    exact ⟨e', .paren he, hs⟩
  | single _ ih =>
    intro us hus
    obtain ⟨e', he, hs⟩ := ih hus
    exact ⟨e', .single he, hs⟩
  | apply _ _ ihf iha =>
    intro us hus
    rw [List.map_append] at hus
    obtain ⟨vs, ws, rfl, hvs, hws⟩ := List.map_eq_append_iff.1 hus
    obtain ⟨f', hf, hsf⟩ := ihf hvs
    obtain ⟨a', ha, hsa⟩ := iha hws
    exact ⟨f'.apply a', .apply hf ha, Expr.strip_app hsf hsa⟩
  | run _ ih =>
    intro us hus
    obtain ⟨e', he, hs⟩ := ih hus
    exact ⟨e', .run he, hs⟩
  | letIn _ _ ihb ihe =>
    intro us hus
    simp only [List.cons_append, List.map_cons, List.map_append] at hus
    obtain ⟨p', us₁, rfl, h₁⟩ := tokens_of_lexemes_cons hus
    obtain ⟨p₁', us₂, rfl, h₂⟩ := tokens_of_lexemes_cons h₁
    obtain ⟨p₂', us₃, rfl, h₃⟩ := tokens_of_lexemes_cons h₂
    obtain ⟨vs, us₄, rfl, hvs, h₄⟩ := List.map_eq_append_iff.1 h₃
    obtain ⟨p₃', ws, rfl, hws⟩ := tokens_of_lexemes_cons h₄
    obtain ⟨b', hb, hsb⟩ := ihb hvs
    obtain ⟨e', he, hse⟩ := ihe hws
    exact ⟨_, .letIn hb he, Expr.strip_letIn hsb hse⟩
  | lam _ ih =>
    intro us hus
    simp only [List.map_cons] at hus
    obtain ⟨p', us₁, rfl, h₁⟩ := tokens_of_lexemes_cons hus
    obtain ⟨p₁', us₂, rfl, h₂⟩ := tokens_of_lexemes_cons h₁
    obtain ⟨p₂', vs, rfl, hvs⟩ := tokens_of_lexemes_cons h₂
    obtain ⟨e', he, hs⟩ := ih hvs
    exact ⟨_, .lam he, Expr.strip_lam hs⟩

/-- The lexemes of a phrase fix its tree up to positions. -/
theorem Derives.strip_unique {k : Phrase} {ts us : List Token} {e₁ e₂ : Expr}
    (h₁ : Derives k ts e₁) (h₂ : Derives k us e₂)
    (h : ts.map (·.lexeme) = us.map (·.lexeme)) : e₁.strip = e₂.strip := by
  obtain ⟨e, he, hs⟩ := h₂.relocate h
  rw [h₁.tree_unique he, hs]

end LetFun
