import LetFun.Proofs.Grammar.Expected
import LetFun.Proofs.Parse.Ruling
/-!
# The first fault of a text

A text may have an error of the lexer and a token with which no program goes on.
The tokens of its outcomes are tried in order (`FirstWrong`); the first wrong
token is reported unless the error of the lexer stands before it or right behind
it, for a token is judged only when the outcome behind it is known.

What is reported of a wrong token is true: programs begin with the tokens before
it and none with the token added, and each lexeme that the message offers instead
is one with which programs go on.

Results:
* `first_fault`: which of two faults a parse reports.
* `parse_error_truthful`: an error of syntax is at the first wrong token and says what could
  have stood there.
-/
namespace LetFun

open Parse

/-- The token with index `k` is the first with which no program goes on. -/
def FirstWrong (ts : List Token) (k : Nat) : Prop :=
  k < ts.length ∧ ¬Viable (ts.take (k + 1)) ∧ ∀ i, i < k → Viable (ts.take (i + 1))

theorem FirstWrong.unique {ts : List Token} {j k : Nat} (hj : FirstWrong ts j)
    (hk : FirstWrong ts k) : j = k := by
  rcases Nat.lt_trichotomy j k with h | h | h
  · exact absurd (hk.2.2 j h) hj.2.1
  · exact h
  · exact absurd (hj.2.2 k h) hk.2.1

theorem viable_take {ts : List Token} {s : State} (h : feeds start ts = .ok s) (n : Nat) :
    Viable (ts.take n) := by
  have hts : Viable (ts.take n ++ ts.drop n) := by
    rw [List.take_append_drop]; exact viable_iff.2 ⟨s, h⟩
  exact hts.of_append

/-- A token that cannot be fed behind tokens that can is one with which no program goes on. -/
theorem not_viable_of_feed {pre : List Token} {t : Token} {s : State} {err : ParseError}
    (hf : feeds start pre = .ok s) (ht : feed s t = .error err) : ¬Viable (pre ++ [t]) := by
  intro h
  obtain ⟨s', hs'⟩ := viable_iff.1 h
  rw [feeds_append _ hf] at hs'
  simp [feeds, ht] at hs'

theorem firstWrong_of_feed {pre post : List Token} {t : Token} {s : State} {err : ParseError}
    (hf : feeds start pre = .ok s) (ht : feed s t = .error err) :
    FirstWrong (pre ++ t :: post) pre.length := by
  refine ⟨by simp, ?_, fun i hi => ?_⟩
  · have htake : (pre ++ t :: post).take (pre.length + 1) = pre ++ [t] := by
      rw [List.take_length_add_append]; rfl
    rw [htake]
    exact not_viable_of_feed hf ht
  · have htake : (pre ++ t :: post).take (i + 1) = pre.take (i + 1) :=
      List.take_append_of_le_length (by omega)
    rw [htake]
    exact viable_take hf _

/-! ## Which fault is reported -/

section
variable {o : Outcomes} {r : Except Fault Expr} (hr : Ruling o r)
include hr

theorem Ruling.lex_wins {err : LexError} (hfault : o.fault? = some err)
    (hk : ∀ k, FirstWrong o.tokens k → k + 1 = o.tokens.length) : r = .error (.lex err) := by
  cases hr with
  | accepted hf _ _ => rw [hfault] at hf; cases hf
  | lexical hf _ => rw [hfault] at hf; cases hf; rfl
  | @syntactic pre post t s err' heq hpost hf ht =>
    have hlen := hk pre.length (heq ▸ firstWrong_of_feed hf ht)
    rw [heq, List.length_append, List.length_cons] at hlen
    rcases hpost with hnone | hne
    · rw [hfault] at hnone; cases hnone
    · exact absurd (List.length_eq_zero_iff.1 (by omega)) hne

theorem Ruling.parse_wins {k : Nat} {t : Token} (hk : FirstWrong o.tokens k)
    (ht : o.tokens[k]? = some t) (hlast : o.fault? = none ∨ k + 1 < o.tokens.length) :
    ∃ err, r = .error (.parse err) ∧ err.About t := by
  cases hr with
  | accepted _ heq he =>
    rw [heq] at hk
    exact absurd (viable_take (feeds_program he) _) hk.2.1
  | lexical hfault hf =>
    have hlt : k + 1 < o.tokens.length := hlast.resolve_left (by rw [hfault]; simp)
    have hv := viable_take hf (k + 1)
    rw [List.dropLast_eq_take, List.take_take, Nat.min_eq_left (by omega)] at hv
    exact absurd hv hk.2.1
  | @syntactic pre post u s err heq _ hf hu =>
    obtain rfl := hk.unique (heq ▸ firstWrong_of_feed hf hu)
    rw [heq] at ht
    obtain rfl : u = t := by simpa using ht
    exact ⟨err, rfl, feed_about hu⟩

theorem Ruling.accepts (hfault : o.fault? = none) (hk : ∀ k, ¬FirstWrong o.tokens k) :
    ∃ e, r = .ok e := by
  cases hr with
  | @accepted us e p _ _ _ => exact ⟨e, rfl⟩
  | lexical hf _ => rw [hfault] at hf; cases hf
  | @syntactic pre post t s err heq _ hf ht =>
    exact absurd (heq ▸ firstWrong_of_feed hf ht) (hk pre.length)

end

/-- **The first fault.** An error of the lexer is reported if no token before it is wrong or
only the one right in front of it; a wrong token is reported if no error of the lexer follows,
or one that is not right behind it; and a text with neither is parsed. -/
theorem first_fault {limit : Option Nat} {text : String} (h : Shallow limit text) :
    (∀ err, (scans text).fault? = some err →
      (∀ k, FirstWrong (scans text).tokens k → k + 1 = (scans text).tokens.length) →
      parseWithin limit text = .error (.lex err) ∧ lex text = .error err) ∧
    (∀ k t, FirstWrong (scans text).tokens k → (scans text).tokens[k]? = some t →
      (scans text).fault? = none ∨ k + 1 < (scans text).tokens.length →
      ∃ err, parseWithin limit text = .error (.parse err) ∧ err.About t) ∧
    ((scans text).fault? = none → (∀ k, ¬FirstWrong (scans text).tokens k) →
      ∃ e, parseWithin limit text = .ok e) ∧
    (∀ err, lex text = .error err → ∀ e, parseWithin limit text ≠ .ok e) := by
  have hr := ruling_parse text
  rw [← parseWithin_of_shallow h] at hr
  refine ⟨fun err hf hk => ⟨hr.lex_wins hf hk, by rw [lex_eq, hf]⟩,
    fun k t hk ht hlast => hr.parse_wins hk ht hlast, fun hf hk => hr.accepts hf hk, ?_⟩
  intro err hlex e he
  rw [he] at hr
  cases hr with
  | accepted hf _ _ => rw [scans_of_lex_error hlex] at hf; cases hf

/-- In `x ) 1` the parenthesis is wrong, but the character right behind it is no token, and that
is what is reported; in `x ) y 1` there is a token between them. -/
theorem first_fault_overtakes :
    (Shallow (some nestingLimit) "x ) 1" ∧ Shallow (some nestingLimit) "x ) y 1") ∧
      parse "x ) 1" = .error (.lex ⟨.invalidChar '1', ⟨1, 5⟩⟩) ∧
      ∃ err, parse "x ) y 1" = .error (.parse err) ∧ err.About ⟨.rparen, ⟨1, 3⟩⟩ := by
  have s₁ : scans "x ) 1" =
      ⟨[⟨.ident "x", ⟨1, 1⟩⟩] ++ ⟨.rparen, ⟨1, 3⟩⟩ :: [],
        some ⟨.invalidChar '1', ⟨1, 5⟩⟩⟩ := by decide +kernel
  have s₂ : scans "x ) y 1" =
      ⟨[⟨.ident "x", ⟨1, 1⟩⟩] ++ ⟨.rparen, ⟨1, 3⟩⟩ :: [⟨.ident "y", ⟨1, 5⟩⟩],
        some ⟨.invalidChar '1', ⟨1, 7⟩⟩⟩ := by decide +kernel
  have h₁ : Shallow (some nestingLimit) "x ) 1" := shallow_of_within (by rw [s₁]; decide)
  have h₂ : Shallow (some nestingLimit) "x ) y 1" := shallow_of_within (by rw [s₂]; decide)
  have wrong : ∀ post, FirstWrong ([⟨.ident "x", ⟨1, 1⟩⟩] ++ ⟨.rparen, ⟨1, 3⟩⟩ :: post) 1 :=
    fun post => firstWrong_of_feed (s := ⟨.more (.var "x" ⟨1, 1⟩), .top⟩) rfl rfl
  refine ⟨⟨h₁, h₂⟩, ((first_fault h₁).1 _ (by rw [s₁]) fun k hk => ?_).1,
    (first_fault h₂).2.1 1 _ ?_ (by rw [s₂]; rfl) (.inr (by rw [s₂]; decide))⟩
  · rw [s₁] at hk ⊢
    rw [hk.unique (wrong [])]
    rfl
  · rw [s₂]
    exact wrong _

/-! ## What is said about a wrong token -/

/-- **Truthful errors.** An error of syntax names the first token with which no program goes on,
at its place, and each lexeme that it says was expected there is one with which a program goes
on. -/
theorem parse_error_truthful {limit : Option Nat} {text : String} {err : ParseError}
    (h : parseWithin limit text = .error (.parse err)) (hc : err.cause ≠ .tooDeep) :
    ∃ pre t post, (scans text).tokens = pre ++ t :: post ∧ err.About t ∧
      Completable pre ∧ ¬Viable (pre ++ [t]) ∧
      (∃ l, err.cause.Expects l) ∧ ∀ l, err.cause.Expects l → ∀ p, Viable (pre ++ [⟨l, p⟩]) := by
  have hr := ruling_parse text
  rw [parseWithin_of_cause h hc] at hr
  cases hr with
  | @syntactic pre post t s _ heq _ hf ht =>
    have hs : Holds s pre := holds_start.feeds hf
    have hd := hs.not_done (wf_scans text) heq
    refine ⟨pre, t, post, heq, feed_about ht, hs.completable hd, not_viable_of_feed hf ht,
      exists_expected hs ht, fun l hl p => ?_⟩
    obtain ⟨s', hs'⟩ := feed_expected ht hd hl p
    exact (hs.feed hs').viable

/-- An equals sign inside parentheses stands where the parenthesis could have been closed. -/
theorem parse_error_truthful_paren :
    parse "(f x = y)" = .error (.parse ⟨.unexpected .equal (.form ⟨.rparen, none⟩), ⟨1, 6⟩⟩) ∧
      ∃ pre t post, (scans "(f x = y)").tokens = pre ++ t :: post ∧ t.pos = ⟨1, 6⟩ ∧
        Completable pre ∧ ¬Viable (pre ++ [t]) ∧ ∀ p, Viable (pre ++ [⟨.rparen, p⟩]) := by
  have hs : scans "(f x = y)" =
      ⟨[⟨.lparen, ⟨1, 1⟩⟩, ⟨.ident "f", ⟨1, 2⟩⟩, ⟨.ident "x", ⟨1, 4⟩⟩] ++ ⟨.equal, ⟨1, 6⟩⟩ ::
        [⟨.ident "y", ⟨1, 8⟩⟩, ⟨.rparen, ⟨1, 9⟩⟩, ⟨.eof, ⟨1, 10⟩⟩], none⟩ := by
    decide +kernel
  have h : parse "(f x = y)" =
      .error (.parse ⟨.unexpected .equal (.form ⟨.rparen, none⟩), ⟨1, 6⟩⟩) := by
    rw [parse, parseWithin_of_shallow (shallow_of_within (by rw [hs]; decide))]
    exact parse_syntactic hs rfl (.inl rfl) rfl rfl
  obtain ⟨pre, t, post, heq, habout, hpre, hbad, -, hexp⟩ := parse_error_truthful h (by simp)
  exact ⟨h, pre, t, post, heq, habout.1.symm, hpre, hbad,
    fun p => hexp .rparen ⟨by simp, rfl⟩ p⟩

end LetFun
