import LetFun.Parse.Rule
import LetFun.Proofs.Grammar.Viable
/-!
# How far a phrase goes

A phrase that can be extended to a longer one is extended by a simple expression
(`Derives.startsSimple_of_append`), for any other token closes it.  A simple
expression cannot be extended to another one.  So the token behind the tokens of a
rule ends them once and for all (`Rule.Yields.not_extended`).

Conversely a parse for a rule that stops has come past tokens of the rule and a
token that ends them (`yields_of_result`).

Results:
* `Rule.Yields.fed`: the tokens of a rule lead to where its parse stops.
* `Rule.Yields.not_extended`: no rule goes on behind a token that ends it.
* `Rule.yields_of_result`: where a parse may stop, it is behind tokens of its rule.
-/
namespace LetFun

open Parse

/-! ## Closing what is open -/

theorem Parse.Unfinished.closed? {e e' : Expr} {k k' : Context} (h : Unfinished e k e' k') :
    closed? e' k' = closed? e k := by
  induction h with
  | here => rfl
  | body _ ih => rw [ih]; rfl
  | lam _ ih => rw [ih]; rfl

/-- What is closed around an expression is the phrase of all tokens so far; as in `close_holds`
the induction is on the context, and each body turns the expression into a longer one. -/
theorem Parse.Opened.derives_closed {k : Context} {ts us : List Token} {e e' : Expr}
    (hk : Opened k ts) (he : Derives .expr us e) (h : closed? e k = some e') :
    Derives .expr (ts ++ us) e' := by
  induction hk generalizing us e with
  | top => cases h; exact he
  | paren | bound => cases h
  | @body x b k ts vs p p₁ p₂ p₃ hk hb ih =>
    have hlet : Derives .expr
        (⟨.letKw, p⟩ :: ⟨.ident x, p₁⟩ :: ⟨.equal, p₂⟩ :: vs ++ ⟨.inKw, p₃⟩ :: us)
        (.letIn x b e p) := .letIn hb he
    simpa using ih hlet h
  | @lam x k ts p p₁ p₂ hk ih =>
    have hlam : Derives .expr (⟨.funKw, p⟩ :: ⟨.ident x, p₁⟩ :: ⟨.arrow, p₂⟩ :: us)
        (.lam x e p) := .lam he
    simpa using ih hlam h

/-! ## Longer phrases -/

/-- An expression is extended to a longer one by a simple expression only: any other token closes
it, and behind the end of the text nothing is fed. -/
theorem Derives.startsSimple_of_append {us vs : List Token} {t : Token} {e e' : Expr}
    (h : Derives .expr us e) (h' : Derives .expr (us ++ t :: vs) e') :
    t.lexeme.startsSimple = true := by
  cases ht : t.lexeme.startsSimple with
  | true => rfl
  | false =>
    obtain ⟨e₁, k₁, hus, hu⟩ := h.fed .top
    have hall := feeds_program (p := Pos.none) h'
    rw [List.append_assoc, feeds_append _ hus, List.cons_append, feeds, hu.feed ht] at hall
    by_cases heof : t.lexeme = .eof
    · cases vs <;> simp [close, heof, feeds, feed, unexpected] at hall
    · simp [close, heof, unexpected] at hall

/-- No simple expression begins another one. -/
theorem Derives.simple_eq_of_append {us vs : List Token} {e e' : Expr} (h : Derives .simple us e)
    (h' : Derives .simple (us ++ vs) e') : vs = [] := by
  cases h with
  | ident => cases h'; rfl
  | con => cases h'; rfl
  | @paren ts _ p q he =>
    generalize hall : (⟨.lparen, p⟩ :: ts ++ [⟨.rparen, q⟩]) ++ vs = all at h'
    cases h' with
    | ident | con => cases hall
    | @paren ts' _ p' q' he' =>
      -- a longer pair of parentheses would hold the first closing one
      rcases List.eq_nil_or_concat vs with rfl | ⟨ws, w, rfl⟩
      · rfl
      · have hin : (ts ++ ⟨.rparen, q⟩ :: ws) ++ [w] = ts' ++ [⟨.rparen, q'⟩] := by
          simpa using (List.cons.inj hall).2
        obtain ⟨rfl, -⟩ := List.append_inj' hin rfl
        cases he.startsSimple_of_append he'

/-- A run begins with a simple expression. -/
theorem Derives.exists_simple {ts : List Token} {e : Expr} (h : Derives .run ts e) :
    ∃ us vs e', ts = us ++ vs ∧ Derives .simple us e' := by
  generalize hk : Phrase.run = k at h
  induction h with
  | @single ts e h => exact ⟨ts, [], e, by simp, h⟩
  | @apply ts us f a _ _ ih _ =>
    obtain ⟨vs, ws, e', rfl, h'⟩ := ih rfl
    exact ⟨vs, ws ++ us, e', List.append_assoc .., h'⟩
  | _ => cases hk

namespace Rule

variable {r : Rule} {ts us : List Token} {t : Token} {s : State} {e e' : Expr}

theorem Yields.derives (h : r.Yields ts e) : Derives .expr ts e := by
  cases h with
  | expr h => exact h
  | letIn hb he => exact .letIn hb he
  | lam he => exact .lam he
  | application h => exact .run h
  | simple h => exact h.toExpr

theorem Yields.not_extended (h : r.Yields ts e) (ht : r.endsAt t = true)
    (hus : ts ++ [t] <+: us) : ¬r.Yields us e' := by
  intro h'
  obtain ⟨vs, rfl⟩ := hus
  rw [List.append_assoc, List.singleton_append] at h'
  by_cases hr : r = .simple
  · subst hr
    cases h with
    | simple h => cases h' with
      | simple h' => cases h.simple_eq_of_append h'
  · have := h.derives.startsSimple_of_append h'.derives
    cases r <;> simp_all [endsAt]

/-! ## Feeding the tokens of a rule -/

/-- What a rule takes first is also what an expression takes. -/
theorem feed_expr_of_want (h : feed ⟨r.want, .top⟩ t = .ok s) : feed ⟨.expr, .top⟩ t = .ok s := by
  cases r with
  | expr => exact h
  | letIn | lam =>
    simp only [want, feed, unexpected] at h
    split at h
    · rename_i ht
      rw [← h]
      simp [feed, ht]
    · cases h
  | application | simple =>
    simp only [want, feed, feedSimple, unexpected] at h ⊢
    cases hl : t.lexeme <;> simp_all

theorem feeds_expr_of_want (hts : ts ≠ []) (h : feeds ⟨r.want, .top⟩ ts = .ok s) :
    feeds start ts = .ok s := by
  obtain ⟨t, us, rfl⟩ := List.exists_cons_of_ne_nil hts
  simp only [feeds] at h
  split at h
  · rename_i s' ht
    rw [feeds_cons us (feed_expr_of_want ht), h]
  · cases h

/-- Behind an expression with an open end a parse for a phrase stops at a token that ends it. -/
theorem result_of_unfinished {e₁ : Expr} {k₁ : Context} (hr : r ≠ .simple)
    (hu : Unfinished e .top e₁ k₁) (ht : r.endsAt t = true) :
    r.goal.result? ⟨.more e₁, k₁⟩ (some t) = some e := by
  have hclosed : closed? e₁ k₁ = some e := hu.closed?
  cases r <;> simp_all [goal, Goal.result?, endsAt]

theorem fed_of_expr (hr : r ≠ .simple) (he : Derives .expr ts e)
    (h : feeds ⟨r.want, .top⟩ ts = feeds start ts) :
    ∃ s, feeds ⟨r.want, .top⟩ ts = .ok s ∧
      ∀ t, r.endsAt t = true → r.goal.result? s (some t) = some e := by
  obtain ⟨e₁, k₁, hts, hu⟩ := he.fed .top
  exact ⟨_, h.trans hts, fun t => result_of_unfinished hr hu⟩

/-- The tokens of a rule lead to where its parse stops, at a token that ends them. -/
theorem Yields.fed (h : r.Yields ts e) :
    ∃ s, feeds ⟨r.want, .top⟩ ts = .ok s ∧
      ∀ t, r.endsAt t = true → r.goal.result? s (some t) = some e := by
  cases h with
  | expr h => exact fed_of_expr nofun h rfl
  | letIn hb he => exact fed_of_expr nofun (.letIn hb he) rfl
  | lam he => exact fed_of_expr nofun (.lam he) rfl
  | application h => exact ⟨_, h.fed .top, fun t => result_of_unfinished nofun .here⟩
  | simple h => exact ⟨_, h.fed none .top, fun _ _ => rfl⟩

/-- An expression that begins as a rule does is one of the rule. -/
theorem yields_of_derives (hr : r ≠ .simple) (he : Derives .expr ts e)
    (h : feeds ⟨r.want, .top⟩ ts = .ok s) : r.Yields ts e := by
  cases r with
  | expr => exact .expr he
  | simple => exact absurd rfl hr
  | letIn =>
    cases he with
    | run hrun =>
      obtain ⟨⟨l, p⟩, us, rfl, ht⟩ := hrun.head_startsSimple (by decide)
      cases l <;> cases ht <;> cases h
    | letIn hb he => exact .letIn hb he
    | lam => cases h
  | lam =>
    cases he with
    | run hrun =>
      obtain ⟨⟨l, p⟩, us, rfl, ht⟩ := hrun.head_startsSimple (by decide)
      cases l <;> cases ht <;> cases h
    | letIn => cases h
    | lam he => exact .lam he
  | application =>
    cases he with
    | run hrun => exact .application hrun
    | letIn | lam => cases h

/-! ## Where a parse may stop -/

theorem prefix_of_concat {v : Token} (h : us ++ [v] <+: ts ++ [t]) : us <+: ts := by
  refine List.prefix_of_prefix_length_le ((List.prefix_append us [v]).trans h)
    (List.prefix_append ts [t]) ?_
  simpa using h.length_le

/-- A parse for a phrase may stop behind an expression; the end of the text may have been fed. -/
theorem derives_of_result (hs : Holds s ts) (h : r.goal.result? s (some t) = some e) :
    ∃ us v, us ++ [v] <+: ts ++ [t] ∧ Derives .expr us e ∧ r.endsAt v = true := by
  cases hs with
  | @done e' us p he =>
    cases h
    exact ⟨us, ⟨.eof, p⟩, List.prefix_append .., he, by cases r <;> rfl⟩
  | @more e' k ts us hk he =>
    refine ⟨ts ++ us, t, List.prefix_rfl, ?_, ?_⟩
    · cases r <;> simp [goal, Goal.result?] at h
      case simple =>
        obtain ⟨rfl, rfl⟩ := h
        cases hk
        exact .run he
      all_goals exact hk.derives_closed (.run he) h.2
    · cases r <;> simp_all [goal, Goal.result?, endsAt]
  | _ => cases r <;> cases h

theorem yields_of_result (hts : ts ≠ []) (hfed : feeds ⟨r.want, .top⟩ ts = .ok s)
    (h : r.goal.result? s (some t) = some e) :
    ∃ us v e', us ++ [v] <+: ts ++ [t] ∧ r.Yields us e' ∧ r.endsAt v = true := by
  have hs : Holds s ts := holds_iff_feeds.2 (feeds_expr_of_want hts hfed)
  obtain ⟨us, v, hpre, he, hv⟩ := derives_of_result hs h
  obtain ⟨ws, rfl⟩ := prefix_of_concat hpre
  obtain ⟨s₁, hus, -⟩ := feeds_append_ok hfed
  by_cases hr : r = .simple
  · -- an expression that begins as a simple one is a run, whose first simple expression counts
    subst hr
    cases yields_of_derives (r := .application) nofun he hus with
    | application hrun =>
      obtain ⟨us₁, us₂, e₁, rfl, he₁⟩ := hrun.exists_simple
      cases us₂ with
      | nil => exact ⟨us₁, v, e₁, by simpa using hpre, .simple he₁, rfl⟩
      | cons w us₂ => exact ⟨us₁, w, e₁, by simp, .simple he₁, rfl⟩
  · exact ⟨us, v, e, hpre, yields_of_derives hr he hus, hv⟩

end Rule
end LetFun
