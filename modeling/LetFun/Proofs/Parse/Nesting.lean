import LetFun.Proofs.Grammar.Expected
import LetFun.Proofs.Parse.Cost
import LetFun.Proofs.Parse.Language
/-!
# The nesting limit and the text

Which texts fail at the nesting limit (`TooDeep`) is told three ways: by the states
that a parse without a limit comes to, by the tokens in front of a place and the
constructs that are open behind them (`Opens`), and for a program by its cost.

A place counts only once the token behind it has been read ahead.  So a place past
the limit is reported before every later fault, and a fault before it, or an error
of the lexer right behind it, is reported first.

Results:
* `reaches_iff`: the places that a parse without a limit comes to, told in tokens.
* `tooDeep_iff_of_nests`: a program fails at the limit exactly if it costs more.
* `nesting_limit`: which texts fail at the limit, and that it changes nothing else.
-/
namespace LetFun

open Parse

/-! ## The places of a text -/

/-- Behind these tokens the constructs that are open cost `n`. -/
def Opens (pre : List Token) (n : Nat) : Prop := ∃ s, Holds s pre ∧ s.cost = n

/-- A parse feeds what its lexer has in front; there is another token behind that, unless the
parse has not begun or has ended. -/
theorem Parse.Steps.fed {a b : State × Lexer} (h : Steps .program a b) (hl : a.2.Settled) :
    ∃ pre post, a.2.outcomes.tokens = pre ++ post ∧ feeds a.1 pre = .ok b.1 ∧
      (post = [] → pre = [] ∨ ∃ e, b.1.want = .done e) := by
  induction h with
  | refl => exact ⟨[], _, rfl, rfl, fun _ => .inl rfl⟩
  | @step a b c hstep hrest ih =>
    cases hstep with
    | @mk s s₁ l l₁ t hr hn hf =>
      rcases Lexer.next_cases hl hn with ⟨ho, ht⟩ | ⟨u, ts, htok, hl₁, ho⟩
      · obtain ⟨e, hd⟩ := feed_eof ht hf
        obtain rfl := steps_of_done hrest hd
        exact ⟨[t], [], by rw [ho]; rfl, by rw [feeds_cons _ hf, feeds], fun _ => .inr ⟨e, hd⟩⟩
      · obtain ⟨pre, post, hts, hfeeds, hend⟩ := ih hl₁
        have hrest : u :: ts = pre ++ post := by rw [← hts, ho]
        refine ⟨t :: pre, post, by rw [htok, hrest]; rfl,
          by rw [feeds_cons _ hf]; exact hfeeds, ?_⟩
        rintro rfl
        rcases hend rfl with rfl | hd
        · cases hrest
        · exact .inr hd

section
variable {N : Nat} {text : String}

/-- The places that a parse without a limit comes to, told in tokens: each is behind tokens
that can be fed, with another token behind it, since that one is read ahead. -/
theorem reaches_iff :
    (∃ s l, Steps .program (start, Lexer.ofText text) (s, l) ∧ N < s.cost) ↔
      ∃ pre u post n, (scans text).tokens = pre ++ u :: post ∧ Opens pre n ∧ N < n := by
  constructor
  · rintro ⟨s, l, hs, hN⟩
    obtain ⟨pre, post, htok, hf, hend⟩ := hs.fed (Lexer.settled_ofText text)
    have hholds : Holds s pre := holds_iff_feeds.2 hf
    cases post with
    | cons u post => exact ⟨pre, u, post, _, htok, ⟨s, hholds, rfl⟩, hN⟩
    | nil =>
      have hzero : s.cost = 0 := by
        rcases hend rfl with rfl | ⟨e, hd⟩
        · cases hf; rfl
        · rw [hholds.eq_done hd]; rfl
      omega
  · rintro ⟨pre, u, post, n, htok, ⟨s, hholds, rfl⟩, hN⟩
    obtain ⟨l, hs, -⟩ :=
      steps_of_feeds (Lexer.settled_ofText text) htok (holds_iff_feeds.1 hholds)
    exact ⟨s, l, hs, hN⟩

/-! ## Failing at the limit -/

theorem unexpected_ne (s : String) :
    "unexpected token \"" ++ s ≠ "expression nested too deeply" := by
  intro h
  have hhead := congrArg List.head? (congrArg String.toList h)
  have hu : "unexpected token \"".toList.head? = some 'u' := by decide +kernel
  have he : "expression nested too deeply".toList.head? = some 'e' := by decide +kernel
  rw [String.toList_append, List.head?_append, hu, he] at hhead
  exact absurd (Option.some.inj hhead) (by decide)

theorem ParseCause.message_eq_tooDeep {c : ParseCause} :
    c.message = "expression nested too deeply" ↔ c = .tooDeep := by
  cases c with
  | unexpected found wanted =>
    unfold message
    simp only [String.append_assoc, unexpected_ne, reduceCtorEq]
  | missingExpr => exact iff_of_false (by decide +kernel) nofun
  | tooDeep => exact iff_of_true rfl rfl

/-- Parsing within the limit reports that the text is nested too deeply. -/
def TooDeep (N : Nat) (text : String) : Prop :=
  ∃ e, parseWithin (some N) text = .error (.parse e) ∧
    e.cause.message = "expression nested too deeply"

/-- Without a limit no text is nested too deeply. -/
theorem cause_ne_tooDeep {e : ParseError} (h : parseWithin none text = .error (.parse e)) :
    e.cause ≠ .tooDeep := by
  have hr := ruling_parse text
  rw [h] at hr
  cases hr with
  | syntactic _ _ _ ht =>
    rcases (feed_about ht).2 with ⟨w, hc, -⟩ | ⟨hc, -⟩ <;> simp [hc]

theorem tooDeep_iff :
    TooDeep N text ↔
      ∃ s l, Steps .program (start, Lexer.ofText text) (s, l) ∧ N < s.cost := by
  constructor
  · rintro ⟨e, he, hm⟩
    rcases parseWithin_limit (some N) text with hsame | ⟨⟨s, l, hs, hp⟩, -⟩
    · rw [hsame] at he
      exact absurd (ParseCause.message_eq_tooDeep.1 hm) (cause_ne_tooDeep he)
    · exact ⟨s, l, hs, by simpa [State.passes] using hp⟩
  · rintro ⟨s, l, hs, hN⟩
    obtain ⟨p, l', he⟩ :=
      run_of_passes hs (start_passes (some N)) (by simpa [State.passes] using hN)
    exact ⟨_, parseWithin_of_run_error he, rfl⟩

theorem shallow_of_not_tooDeep (h : ¬TooDeep N text) : Shallow (some N) text :=
  shallow_of_parseWithin fun _ he => h ⟨_, he, rfl⟩

theorem TooDeep.of_le {M : Nat} (h : TooDeep M text) (hM : N ≤ M) : TooDeep N text := by
  obtain ⟨s, l, hs, hN⟩ := tooDeep_iff.1 h
  exact tooDeep_iff.2 ⟨s, l, hs, by omega⟩

/-! ## Programs -/

/-- Tokens that cannot be fed within the limit pass it at a place among them. -/
theorem passes_of_not_within {s : State} {ts : List Token} (h : within (some N) s ts = false) :
    ∃ pre post s', ts = pre ++ post ∧ feeds s pre = .ok s' ∧ N < s'.cost := by
  induction ts generalizing s with
  | nil => exact ⟨[], [], s, rfl, rfl, by simpa [within, State.passes] using h⟩
  | cons t ts ih =>
    by_cases hs : N < s.cost
    · exact ⟨[], t :: ts, s, rfl, rfl, hs⟩
    · cases ht : feed s t with
      | error e => simp [within, State.passes, hs, ht] at h
      | ok s₁ =>
        have hrest : within (some N) s₁ ts = false := by
          simpa [within, State.passes, hs, ht] using h
        obtain ⟨pre, post, s', rfl, hf, hN⟩ := ih hrest
        exact ⟨t :: pre, post, s', rfl, by rw [feeds_cons _ ht, hf], hN⟩

/-- The end of the text costs nothing. -/
theorem within_program {us : List Token} {e : Expr} {p : Pos} (hd : Derives .expr us e)
    (hw : within (some N) start us = true) : within (some N) start (us ++ [⟨.eof, p⟩]) = true := by
  obtain ⟨e', k', hus, hu⟩ := hd.fed .top
  rw [within_append _ hus, within_cons (hu.feed_eof p)]
  exact ⟨hw, passes_of_within_feeds hw hus, by simp [within, State.passes, State.cost, Want.cost,
    Context.cost]⟩

/-- A program is nested too deeply exactly if it costs more than the limit. -/
theorem tooDeep_iff_of_nests {us : List Token} {p : Pos} {n : Nat}
    (hlex : lex text = .ok (us ++ [⟨.eof, p⟩])) (h : Nests .expr us n) :
    TooDeep N text ↔ N < n := by
  have htok : (scans text).tokens = us ++ [⟨.eof, p⟩] := by rw [scans_of_lex hlex]
  have hcost : within (some N) start us = true ↔ 0 + n ≤ N := h.costs N .top
  obtain ⟨e, hd⟩ := h.derives
  rw [tooDeep_iff]
  constructor
  · rintro ⟨s, l, hs, hN⟩
    refine Nat.lt_of_not_le fun hn => ?_
    have hw : within (some N) start us = true := hcost.2 (by omega)
    have hp := shallow_of_within (htok ▸ within_program hd hw) s l hs
    rw [passes_some] at hp
    omega
  · intro hn
    have hnot : within (some N) start us = false := by
      rw [Bool.eq_false_iff, Ne, hcost]
      omega
    obtain ⟨pre, post, s, rfl, hf, hN⟩ := passes_of_not_within hnot
    obtain ⟨u, vs, hu⟩ : ∃ u vs, post ++ [⟨.eof, p⟩] = u :: vs := by
      cases post <;> exact ⟨_, _, rfl⟩
    rw [List.append_assoc, hu] at htok
    exact reaches_iff.2 ⟨pre, u, vs, _, htok, ⟨s, holds_iff_feeds.2 hf, rfl⟩, hN⟩

/-- A program that costs no more than the limit is parsed. -/
theorem parseWithin_of_nests {us : List Token} {e : Expr} {p : Pos} {n : Nat}
    (hlex : lex text = .ok (us ++ [⟨.eof, p⟩])) (h : Nests .expr us n) (hd : Derives .expr us e)
    (hN : n ≤ N) : parseWithin (some N) text = .ok e := by
  have hkeeps : ¬TooDeep N text := by
    rw [tooDeep_iff_of_nests hlex h]
    omega
  rw [parseWithin_of_shallow (shallow_of_not_tooDeep hkeeps)]
  exact parse_of_derives hlex hd

end

/-- **The nesting limit.** A text is nested too deeply for a limit exactly if its parse without
one comes to a place that costs more, which is a place behind tokens that can be fed with a token
behind it. Any other result is that without a limit, and no higher limit changes it. A program is
nested too deeply if it costs more than the limit, and simple expressions side by side are parsed
within every limit that each of them keeps, however many they are. -/
theorem nesting_limit (N : Nat) (text : String) :
    (TooDeep N text ↔
      ∃ s l, Steps .program (start, Lexer.ofText text) (s, l) ∧ N < s.cost) ∧
    (TooDeep N text ↔
      ∃ pre u post n, (scans text).tokens = pre ++ u :: post ∧ Opens pre n ∧ N < n) ∧
    (¬TooDeep N text →
      parseWithin (some N) text = parseWithin none text ∧
        ∀ M, N ≤ M → parseWithin (some M) text = parseWithin (some N) text) ∧
    (∀ us p n, lex text = .ok (us ++ [⟨.eof, p⟩]) → Nests .expr us n →
      (TooDeep N text ↔ N < n)) ∧
    (∀ args p, lex text = .ok (args.flatten ++ [⟨.eof, p⟩]) → args ≠ [] →
      (∀ ts ∈ args, ∃ n ≤ N, Nests .simple ts n) →
      ∃ e, Derives .run args.flatten e ∧ parseWithin (some N) text = .ok e) := by
  refine ⟨tooDeep_iff, tooDeep_iff.trans reaches_iff, fun h => ?_,
    fun us p n hlex hn => tooDeep_iff_of_nests hlex hn, fun args p hlex hne hargs => ?_⟩
  · have hN := parseWithin_of_shallow (shallow_of_not_tooDeep h)
    refine ⟨hN, fun M hM => ?_⟩
    rw [hN, parseWithin_of_shallow (shallow_of_not_tooDeep fun hdeep => h (hdeep.of_le hM))]
  · obtain ⟨n, hn, hrun⟩ := Nests.chain hne hargs
    obtain ⟨e, hd⟩ := hrun.derives
    exact ⟨e, hd, parseWithin_of_nests hlex hrun.run (.run hd) hn⟩

/-- Two parentheses cost six and arguments side by side nothing. In `(1` the lexer fails behind
the parenthesis before that is judged, so that no limit is passed. -/
theorem nesting_limit_paren :
    (∀ N, TooDeep N "((x))" ↔ N < 6) ∧ (∀ N, ¬TooDeep N "(1") ∧
      ∃ e, parseWithin (some 0) "f x y" = .ok e := by
  have hs : scans "((x))" =
      ⟨[⟨.lparen, ⟨1, 1⟩⟩, ⟨.lparen, ⟨1, 2⟩⟩, ⟨.ident "x", ⟨1, 3⟩⟩, ⟨.rparen, ⟨1, 4⟩⟩,
        ⟨.rparen, ⟨1, 5⟩⟩] ++ [⟨.eof, ⟨1, 6⟩⟩], none⟩ := by decide +kernel
  have hbad : (scans "(1").tokens = [⟨.lparen, ⟨1, 1⟩⟩] := by decide +kernel
  have hchain : scans "f x y" =
      ⟨[[⟨.ident "f", ⟨1, 1⟩⟩], [⟨.ident "x", ⟨1, 3⟩⟩], [⟨.ident "y", ⟨1, 5⟩⟩]].flatten ++
        [⟨.eof, ⟨1, 6⟩⟩], none⟩ := by decide +kernel
  refine ⟨fun N => ?_, fun N => ?_, ?_⟩
  · have hx : Nests .expr [⟨.ident "x", ⟨1, 3⟩⟩] 0 := .run (.single .ident)
    have hnests : Nests .expr
        [⟨.lparen, ⟨1, 1⟩⟩, ⟨.lparen, ⟨1, 2⟩⟩, ⟨.ident "x", ⟨1, 3⟩⟩, ⟨.rparen, ⟨1, 4⟩⟩,
          ⟨.rparen, ⟨1, 5⟩⟩] 6 :=
      .run (.single (.paren (.run (.single (.paren hx)))))
    exact (nesting_limit N "((x))").2.2.2.1 _ ⟨1, 6⟩ 6 (by rw [lex_eq, hs]) hnests
  · rw [(nesting_limit N "(1").2.1, hbad]
    rintro ⟨pre, u, post, n, htok, ⟨s, hs, rfl⟩, hN⟩
    obtain ⟨rfl, -⟩ : pre = [] ∧ _ := by simpa [List.cons_eq_append_iff] using htok
    cases holds_iff_feeds.1 hs
    exact absurd hN (Nat.not_lt_zero N)
  · have hname : ∀ x p, ∃ n ≤ 0, Nests .simple [⟨.ident x, p⟩] n :=
      fun x p => ⟨0, Nat.le_refl 0, .ident⟩
    obtain ⟨e, -, he⟩ := (nesting_limit 0 "f x y").2.2.2.2 _ ⟨1, 6⟩ (by rw [lex_eq, hchain])
      (by decide) (by simp only [List.forall_mem_cons, hname]; simp)
    exact ⟨e, he⟩

end LetFun
