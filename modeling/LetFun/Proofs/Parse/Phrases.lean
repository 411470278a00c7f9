import LetFun.Call.Reachable
import LetFun.Proofs.Grammar.Extent
import LetFun.Proofs.Parse.Runs
/-!
# What a parser consumes

The parser of a rule finds its phrase if the stream of the lexer begins with tokens
of the rule and a token that ends them, and in no other case (`phrase_consumed`).
The tokens of the phrase are handed over, and the one behind them is read ahead.
The lexer may be any one, also one that calls before have left in the middle of a
text or behind an error.

Results:
* `Lexer.Offers.unique`: a stream offers a rule one phrase at most.
* `Lexer.Offers.parser`: what is offered is found.
* `offers_of_ok`: what is found was offered.
-/
namespace LetFun

open Parse

variable {r : Rule} {l l' : Lexer} {ts us : List Token} {t u : Token} {e e' : Expr}

namespace Lexer.Offers

theorem isPrefix (h : l.Offers r ts t e) (h' : l.Offers r us u e')
    (hlen : ts.length ≤ us.length) : ts ++ [t] <+: us ++ [u] :=
  h.begins.isPrefix h'.begins (by simpa using hlen)

/-- The shorter one of two phrases would be ended within the longer one. -/
theorem length_le (h : l.Offers r ts t e) (h' : l.Offers r us u e') : us.length ≤ ts.length := by
  refine Nat.le_of_not_lt fun hlt => ?_
  have hpre : ts ++ [t] <+: us :=
    List.prefix_of_prefix_length_le (h.isPrefix h' (Nat.le_of_lt hlt)) (List.prefix_append us [u])
      (by rw [List.length_append]; exact hlt)
  exact h.yields.not_extended h.ends hpre h'.yields

theorem unique (h : l.Offers r ts t e) (h' : l.Offers r us u e') : ts = us ∧ t = u ∧ e = e' := by
  have hlen : ts.length = us.length := Nat.le_antisymm (h'.length_le h) (h.length_le h')
  have heq : ts ++ [t] = us ++ [u] :=
    (h.isPrefix h' (Nat.le_of_eq hlen)).eq_of_length (by simpa using hlen)
  obtain ⟨rfl, ht⟩ := List.append_inj' heq rfl
  exact ⟨rfl, by simpa using ht, h.yields.derives.tree_unique h'.yields.derives⟩

/-- What is offered is found.  Before the end of the tokens the parse does not stop, for there it
would be behind a phrase that is ended within the one offered. -/
theorem parser (h : l.Offers r ts t e) : r.parser l = .ok e ⟨l.behind ts.length, some t⟩ := by
  obtain ⟨s, hfed, hstop⟩ := h.yields.fed
  have hne : ts ≠ [] := h.yields.derives.ne_nil
  rw [Rule.parser_eq]
  refine run_of_feeds h.begins hfed (by cases r <;> rfl) ?_ (hstop t h.ends) hne
  intro pre v post s₁ heq hpre hfed₁
  refine Option.eq_none_iff_forall_ne_some.2 fun e₁ he₁ => ?_
  obtain ⟨vs, w, e₂, hvs, hyields, hends⟩ := Rule.yields_of_result hpre hfed₁ he₁
  have hts : pre ++ [v] <+: ts := ⟨post, by simp [heq]⟩
  exact hyields.not_extended hends (hvs.trans hts) h.yields

end Lexer.Offers

/-- What is found was offered, for the parse would have stopped at what the stream offers. -/
theorem offers_of_ok (h : r.parser l = .ok e l') :
    ∃ ts t, l.Offers r ts t e ∧ l' = ⟨l.behind ts.length, some t⟩ := by
  have hrun := comesTo_run r.goal ⟨r.want, .top⟩ l
  rw [← r.parser_eq, h] at hrun
  cases hrun with
  | here hr => cases r <;> cases hr
  | @reached ts t s _ hts hne hfed hr =>
    obtain ⟨us, v, e₁, hpre, hyields, hends⟩ := Rule.yields_of_result hne hfed hr
    obtain ⟨vs, hvs⟩ := hpre
    have hoffers : l.Offers r us v e₁ := ⟨Lexer.Begins.of_append (hvs ▸ hts), hyields, hends⟩
    have hfound := hoffers.parser
    rw [h, EStateM.Result.ok.injEq] at hfound
    obtain ⟨rfl, hl⟩ := hfound
    exact ⟨us, v, hoffers, hl⟩

/-- **Phrases.** Wherever a lexer stands, the parser of a rule gives a tree exactly if the stream
begins with tokens that the rule derives it from and a token that ends them.  There is only one
such beginning.  Its tokens and no others are handed over: the lexer goes on with the token
behind them, which is read ahead, and its cursor stands right behind that token. -/
theorem phrase_consumed (r : Rule) (l : Lexer) :
    (∀ e l', r.parser l = .ok e l' ↔
      ∃ ts t, l.Offers r ts t e ∧ l' = ⟨l.behind ts.length, some t⟩) ∧
    (∀ ts t e us u e', l.Offers r ts t e → l.Offers r us u e' → ts = us ∧ t = u ∧ e = e') ∧
    (∀ ts t e, l.Offers r ts t e →
      (l.behind ts.length).JustRead t.pos t.lexeme.spelling ∧
      ∀ n, Lexer.stream ⟨l.behind ts.length, some t⟩ n = l.stream (ts.length + n)) := by
  refine ⟨fun e l' => ⟨offers_of_ok, ?_⟩, fun _ _ _ _ _ _ h h' => h.unique h',
    fun ts t e h => ?_⟩
  · rintro ⟨ts, t, h, rfl⟩
    exact h.parser
  · have hbehind : l.stream ts.length = .ok t := h.begins.stream_length
    obtain ⟨v, vs, rfl⟩ := List.exists_cons_of_ne_nil h.yields.derives.ne_nil
    exact ⟨Lexer.justRead_behind hbehind, Lexer.stream_add hbehind⟩

/-- Behind a character that cannot be read, an expression that an equals sign ends. -/
theorem phrase_consumed_behind_bad :
    let l := (Call.next.reply (Lexer.ofText "? f (g X) = y")).2
    Call.next.perform (Lexer.ofText "? f (g X) = y") =
        .error (.lex ⟨.invalidChar '?', ⟨1, 1⟩⟩) l ∧
      Rule.expr.parser l =
        .ok (.app (.var "f" ⟨1, 3⟩) (.app (.var "g" ⟨1, 6⟩) (.con "X" ⟨1, 8⟩) ⟨1, 6⟩) ⟨1, 3⟩)
          ⟨l.behind 5, some ⟨.equal, ⟨1, 11⟩⟩⟩ := by
  intro l
  have hoffers : l.Offers .expr
      [⟨.ident "f", ⟨1, 3⟩⟩, ⟨.lparen, ⟨1, 5⟩⟩, ⟨.ident "g", ⟨1, 6⟩⟩, ⟨.con "X", ⟨1, 8⟩⟩,
        ⟨.rparen, ⟨1, 9⟩⟩] ⟨.equal, ⟨1, 11⟩⟩
      (.app (.var "f" ⟨1, 3⟩) (.app (.var "g" ⟨1, 6⟩) (.con "X" ⟨1, 8⟩) ⟨1, 6⟩) ⟨1, 3⟩) :=
    ⟨by decide +kernel, .expr (derives_of_feeds (p := Pos.none) rfl), rfl⟩
  exact ⟨rfl, ((phrase_consumed .expr l).1 _ _).2 ⟨_, _, hoffers, rfl⟩⟩

end LetFun
