import LetFun.Proofs.Grammar.Feed
/-!
# What a state holds of the tokens before it

A state of a parse is the tokens before it, read as far as they can be:
`Opened` explains the constructs that are open around a place, each by the tokens
that opened it and the phrases that are finished in it, and `Holds` explains a
whole state.  Feeding a token keeps the explanation (`Holds.feed`).

Every explained place can be completed: each open construct is given what it
still needs, innermost first (`Opened.completable`).  So the tokens that can be
fed are those with which programs begin (`viable_iff`), and the first token that
cannot be fed is the first that is wrong.

Results:
* `holds_iff_feeds`: a state is reached exactly behind the tokens that it holds.
* `viable_iff`: tokens begin a program exactly if they can be fed.
* `isProgram_iff`: tokens are a program exactly if feeding them ends with a tree.
* `derives_of_feeds`: the tree that is left is the tree of the tokens.
-/
namespace LetFun

/-- Tokens with which some expression begins. -/
def Completable (ts : List Token) : Prop := ∃ us e, Derives .expr (ts ++ us) e

theorem Completable.of_append {ts us : List Token} (h : Completable (ts ++ us)) :
    Completable ts := by
  obtain ⟨vs, e, h⟩ := h
  exact ⟨us ++ vs, e, by rwa [List.append_assoc] at h⟩

theorem Completable.viable {ts : List Token} (h : Completable ts) : Viable ts := by
  obtain ⟨us, e, h⟩ := h
  exact ⟨us ++ [⟨.eof, Pos.none⟩], ts ++ us, e, Pos.none, h, by rw [List.append_assoc]⟩

theorem Viable.of_append {ts us : List Token} (h : Viable (ts ++ us)) : Viable ts := by
  obtain ⟨vs, h⟩ := h
  exact ⟨us ++ vs, by rwa [List.append_assoc] at h⟩

namespace Parse

/-- The tokens of a function, or none where there is no function. -/
def Applied : Option Expr → List Token → Prop
  | none, us => us = []
  | some f, us => Derives .run us f

theorem Applied.extend {f : Option Expr} {us vs : List Token} {e : Expr} (hf : Applied f us)
    (he : Derives .simple vs e) : Derives .run (us ++ vs) (extend f e) := by
  cases f with
  | none => obtain rfl : us = [] := hf; exact .single he
  | some f => exact .apply hf he

/-- The tokens in front of a place, as the constructs that are open around it. -/
inductive Opened : Context → List Token → Prop where
  | top : Opened .top []
  | paren {f : Option Expr} {k : Context} {ts us : List Token} {p : Pos} :
      Opened k ts → Applied f us → Opened (.paren f k) (ts ++ us ++ [⟨.lparen, p⟩])
  | bound {x : String} {k : Context} {ts : List Token} {p p₁ p₂ : Pos} :
      Opened k ts →
      Opened (.bound x p k) (ts ++ [⟨.letKw, p⟩, ⟨.ident x, p₁⟩, ⟨.equal, p₂⟩])
  | body {x : String} {b : Expr} {k : Context} {ts us : List Token} {p p₁ p₂ p₃ : Pos} :
      Opened k ts → Derives .expr us b →
      Opened (.body x b p k)
        (ts ++ ⟨.letKw, p⟩ :: ⟨.ident x, p₁⟩ :: ⟨.equal, p₂⟩ :: us ++ [⟨.inKw, p₃⟩])
  | lam {x : String} {k : Context} {ts : List Token} {p p₁ p₂ : Pos} :
      Opened k ts → Opened (.lam x p k) (ts ++ [⟨.funKw, p⟩, ⟨.ident x, p₁⟩, ⟨.arrow, p₂⟩])

/-- The tokens in front of a state, as what the state holds of them. -/
inductive Holds : State → List Token → Prop where
  | expr {k : Context} {ts : List Token} : Opened k ts → Holds ⟨.expr, k⟩ ts
  | letName {k : Context} {ts : List Token} {p : Pos} :
      Opened k ts → Holds ⟨.letName p, k⟩ (ts ++ [⟨.letKw, p⟩])
  | equal {x : String} {k : Context} {ts : List Token} {p p₁ : Pos} :
      Opened k ts → Holds ⟨.equal x p, k⟩ (ts ++ [⟨.letKw, p⟩, ⟨.ident x, p₁⟩])
  | funName {k : Context} {ts : List Token} {p : Pos} :
      Opened k ts → Holds ⟨.funName p, k⟩ (ts ++ [⟨.funKw, p⟩])
  | arrow {x : String} {k : Context} {ts : List Token} {p p₁ : Pos} :
      Opened k ts → Holds ⟨.arrow x p, k⟩ (ts ++ [⟨.funKw, p⟩, ⟨.ident x, p₁⟩])
  | more {e : Expr} {k : Context} {ts us : List Token} :
      Opened k ts → Derives .run us e → Holds ⟨.more e, k⟩ (ts ++ us)
  | done {e : Expr} {us : List Token} {p : Pos} :
      Derives .expr us e → Holds ⟨.done e, .top⟩ (us ++ [⟨.eof, p⟩])

/-! ## A token keeps the explanation -/

theorem feedSimple_holds {f : Option Expr} {k : Context} {ts us : List Token} {t : Token}
    {s : State} (hk : Opened k ts) (hf : Applied f us) (h : feedSimple f k t = .ok s) :
    Holds s (ts ++ us ++ [t]) := by
  obtain ⟨l, p⟩ := t
  unfold feedSimple at h
  cases l <;> simp only [unexpected, Except.ok.injEq, reduceCtorEq] at h
  case ident x => subst h; rw [List.append_assoc]; exact .more hk (hf.extend .ident)
  case con c => subst h; rw [List.append_assoc]; exact .more hk (hf.extend .con)
  case lparen => subst h; exact .expr (.paren hk hf)

/-- The token that ends an expression ends every open body around it with the same token, so
the induction is on the context, and each body turns the expression into a longer one. -/
theorem close_holds {k : Context} {ts us : List Token} {e : Expr} {t : Token} {s : State}
    (hk : Opened k ts) (he : Derives .expr us e) (h : close t e k = .ok s) :
    Holds s (ts ++ us ++ [t]) := by
  induction hk generalizing us e with
  | top =>
    simp only [close, unexpected] at h
    split at h
    · rename_i ht
      cases h
      obtain ⟨l, p⟩ := t
      obtain rfl : l = .eof := ht
      exact .done he
    · cases h
  | @paren f k ts vs p hk hf ih =>
    simp only [close, unexpected] at h
    split at h
    · rename_i ht
      cases h
      obtain ⟨l, q⟩ := t
      obtain rfl : l = .rparen := ht
      have := Holds.more hk (hf.extend (Derives.paren (p := p) (q := q) he))
      simpa using this
    · cases h
  | @bound x k ts p p₁ p₂ hk ih =>
    simp only [close, unexpected] at h
    split at h
    · rename_i ht
      cases h
      obtain ⟨l, p₃⟩ := t
      obtain rfl : l = .inKw := ht
      have hbody : Opened (.body x e p k)
          (ts ++ ⟨.letKw, p⟩ :: ⟨.ident x, p₁⟩ :: ⟨.equal, p₂⟩ :: us ++ [⟨.inKw, p₃⟩]) :=
        .body hk he
      simpa using Holds.expr hbody
    · cases h
  | @body x b k ts vs p p₁ p₂ p₃ hk hb ih =>
    have hlet : Derives .expr
        (⟨.letKw, p⟩ :: ⟨.ident x, p₁⟩ :: ⟨.equal, p₂⟩ :: vs ++ ⟨.inKw, p₃⟩ :: us)
        (.letIn x b e p) := .letIn hb he
    simpa using ih hlet h
  | @lam x k ts p p₁ p₂ hk ih =>
    have hlam : Derives .expr (⟨.funKw, p⟩ :: ⟨.ident x, p₁⟩ :: ⟨.arrow, p₂⟩ :: us)
        (.lam x e p) := .lam he
    simpa using ih hlam h

theorem Holds.feed {s s' : State} {ts : List Token} {t : Token} (hs : Holds s ts)
    (h : feed s t = .ok s') : Holds s' (ts ++ [t]) := by
  obtain ⟨l, q⟩ := t
  unfold Parse.feed at h
  cases hs with
  | expr hk =>
    simp only at h
    split at h
    · cases h
    · cases h; exact .letName hk
    · cases h; exact .funName hk
    · have hf : Applied none [] := rfl
      simpa using feedSimple_holds hk hf h
  | letName hk =>
    cases l <;> simp only [unexpected, Except.ok.injEq, reduceCtorEq] at h
    subst h
    simpa using Holds.equal hk
  | equal hk =>
    simp only [unexpected] at h
    split at h
    · rename_i hl
      cases h
      obtain rfl : l = .equal := hl
      simpa using Holds.expr (.bound hk)
    · cases h
  | funName hk =>
    cases l <;> simp only [unexpected, Except.ok.injEq, reduceCtorEq] at h
    subst h
    simpa using Holds.arrow hk
  | arrow hk =>
    simp only [unexpected] at h
    split at h
    · rename_i hl
      cases h
      obtain rfl : l = .arrow := hl
      simpa using Holds.expr (.lam hk)
    · cases h
  | more hk he =>
    simp only at h
    split at h
    · exact feedSimple_holds hk (f := some _) he h
    · exact close_holds hk (.run he) h
  | done he => cases h

theorem Holds.feeds {s s' : State} {ts us : List Token} (hs : Holds s ts)
    (h : feeds s us = .ok s') : Holds s' (ts ++ us) := by
  induction us generalizing s ts with
  | nil => cases h; simpa using hs
  | cons t us ih =>
    simp only [Parse.feeds] at h
    split at h
    · rename_i s₁ ht
      have := ih (hs.feed ht) h
      simpa using this
    · cases h

theorem Holds.eq_done {s : State} {ts : List Token} {e : Expr} (hs : Holds s ts)
    (he : s.want = .done e) : s = ⟨.done e, .top⟩ := by
  cases hs <;> cases he
  rfl

theorem holds_start : Holds start [] := .expr .top

/-! ## The explanation fixes the state -/

theorem Opened.fed {k : Context} {ts : List Token} (hk : Opened k ts) :
    feeds start ts = .ok ⟨.expr, k⟩ := by
  induction hk with
  | top => rfl
  | @paren f k ts us p hk hf ih =>
    rw [List.append_assoc, feeds_append _ ih]
    cases f with
    | none => obtain rfl : us = [] := hf; rfl
    | some f =>
      have hrun : Derives .run us f := hf
      rw [feeds_append _ (Fed.run hrun.fed hrun k)]
      rfl
  | bound hk ih => rw [feeds_append _ ih]; rfl
  | @body x b k ts us p p₁ p₂ p₃ hk hb ih =>
    obtain ⟨b', k', hus, hu⟩ := hb.fed (.bound x p k)
    rw [List.append_assoc, feeds_append _ ih]
    calc feeds ⟨.expr, k⟩
          (⟨.letKw, p⟩ :: ⟨.ident x, p₁⟩ :: ⟨.equal, p₂⟩ :: (us ++ [⟨.inKw, p₃⟩]))
        = feeds ⟨.expr, .bound x p k⟩ (us ++ [⟨.inKw, p₃⟩]) := by simp [feeds, feed]
      _ = .ok ⟨.expr, .body x b p k⟩ := by
        rw [feeds_append _ hus, feeds_cons _ (hu.feed_inKw p₃), feeds]
  | lam hk ih => rw [feeds_append _ ih]; rfl

/-- A state is reached exactly behind the tokens that it holds. -/
theorem holds_iff_feeds {s : State} {ts : List Token} : Holds s ts ↔ feeds start ts = .ok s := by
  constructor
  · intro hs
    cases hs with
    | expr hk => exact hk.fed
    | letName hk | equal hk | funName hk | arrow hk => rw [feeds_append _ hk.fed]; rfl
    | @more e k ts us hk he => rw [feeds_append _ hk.fed]; exact Fed.run he.fed he k
    | done he => exact feeds_program he
  · exact fun h => holds_start.feeds h

/-! ## Every place can be completed -/

/-- Behind an expression every open construct can be given what it still needs; the induction
finishes the innermost one, which makes the expression a longer one. -/
theorem Opened.completable {k : Context} {ts us : List Token} {e : Expr} (hk : Opened k ts)
    (he : Derives .expr us e) : Completable (ts ++ us) := by
  have var : Derives .expr [⟨.ident "x", Pos.none⟩] (.var "x" Pos.none) := .run (.single .ident)
  induction hk generalizing us e with
  | top => exact ⟨[], e, by simpa using he⟩
  | @paren f k ts vs p hk hf ih =>
    have hparen : Derives .simple (⟨.lparen, p⟩ :: us ++ [⟨.rparen, Pos.none⟩]) e := .paren he
    have hall : Completable (ts ++ vs ++ [⟨.lparen, p⟩] ++ us ++ [⟨.rparen, Pos.none⟩]) := by
      simpa using ih (.run (hf.extend hparen))
    exact hall.of_append
  | @bound x k ts p p₁ p₂ hk ih =>
    have hlet : Derives .expr
        (⟨.letKw, p⟩ :: ⟨.ident x, p₁⟩ :: ⟨.equal, p₂⟩ :: us ++
          ⟨.inKw, Pos.none⟩ :: [⟨.ident "x", Pos.none⟩])
        (.letIn x e (.var "x" Pos.none) p) := .letIn he var
    have hall : Completable (ts ++ [⟨.letKw, p⟩, ⟨.ident x, p₁⟩, ⟨.equal, p₂⟩] ++ us ++
        [⟨.inKw, Pos.none⟩, ⟨.ident "x", Pos.none⟩]) := by
      simpa using ih hlet
    exact hall.of_append
  | @body x b k ts vs p p₁ p₂ p₃ hk hb ih =>
    have hlet : Derives .expr
        (⟨.letKw, p⟩ :: ⟨.ident x, p₁⟩ :: ⟨.equal, p₂⟩ :: vs ++ ⟨.inKw, p₃⟩ :: us)
        (.letIn x b e p) := .letIn hb he
    simpa using ih hlet
  | @lam x k ts p p₁ p₂ hk ih =>
    have hlam : Derives .expr (⟨.funKw, p⟩ :: ⟨.ident x, p₁⟩ :: ⟨.arrow, p₂⟩ :: us)
        (.lam x e p) := .lam he
    simpa using ih hlam

/-- Where an expression is next, one can follow. -/
theorem Opened.completable_expr {k : Context} {ts : List Token} (hk : Opened k ts) :
    Completable ts :=
  (hk.completable (Derives.ident (x := "x") (p := Pos.none)).toExpr).of_append

/-- A state that has not reached the end of the program stands where one can go on. -/
theorem Holds.completable {s : State} {ts : List Token} (hs : Holds s ts)
    (hd : ∀ e, s.want ≠ .done e) : Completable ts := by
  cases hs with
  | expr hk => exact hk.completable_expr
  | @letName k ts p hk =>
    have hbound : Opened (.bound "x" p k)
        (ts ++ [⟨.letKw, p⟩, ⟨.ident "x", Pos.none⟩, ⟨.equal, Pos.none⟩]) := .bound hk
    have hall : Completable
        (ts ++ [⟨.letKw, p⟩] ++ [⟨.ident "x", Pos.none⟩, ⟨.equal, Pos.none⟩]) := by
      simpa using hbound.completable_expr
    exact hall.of_append
  | @equal x k ts p p₁ hk =>
    have hbound : Opened (.bound x p k)
        (ts ++ [⟨.letKw, p⟩, ⟨.ident x, p₁⟩, ⟨.equal, Pos.none⟩]) := .bound hk
    have hall : Completable
        (ts ++ [⟨.letKw, p⟩, ⟨.ident x, p₁⟩] ++ [⟨.equal, Pos.none⟩]) := by
      simpa using hbound.completable_expr
    exact hall.of_append
  | @funName k ts p hk =>
    have hlam : Opened (.lam "x" p k)
        (ts ++ [⟨.funKw, p⟩, ⟨.ident "x", Pos.none⟩, ⟨.arrow, Pos.none⟩]) := .lam hk
    have hall : Completable
        (ts ++ [⟨.funKw, p⟩] ++ [⟨.ident "x", Pos.none⟩, ⟨.arrow, Pos.none⟩]) := by
      simpa using hlam.completable_expr
    exact hall.of_append
  | @arrow x k ts p p₁ hk =>
    have hlam : Opened (.lam x p k)
        (ts ++ [⟨.funKw, p⟩, ⟨.ident x, p₁⟩, ⟨.arrow, Pos.none⟩]) := .lam hk
    have hall : Completable
        (ts ++ [⟨.funKw, p⟩, ⟨.ident x, p₁⟩] ++ [⟨.arrow, Pos.none⟩]) := by
      simpa using hlam.completable_expr
    exact hall.of_append
  | more hk he => exact hk.completable (.run he)
  | done he => exact absurd rfl (hd _)

theorem Holds.viable {s : State} {ts : List Token} (hs : Holds s ts) : Viable ts := by
  by_cases hd : ∀ e, s.want ≠ .done e
  · exact (hs.completable hd).viable
  · cases hs with
    | @done e us p he => exact ⟨[], us, e, p, he, by simp⟩
    | _ => exact absurd (by simp) hd

/-! ## Programs and their beginnings -/

theorem isProgram_iff {ts : List Token} :
    IsProgram ts ↔ ∃ e, feeds start ts = .ok ⟨.done e, .top⟩ := by
  constructor
  · rintro ⟨us, e, p, he, rfl⟩
    exact ⟨e, feeds_program he⟩
  · rintro ⟨e, h⟩
    cases holds_start.feeds h with
    | @done _ us p he => exact ⟨us, e, p, he, rfl⟩

theorem viable_iff {ts : List Token} : Viable ts ↔ ∃ s, feeds start ts = .ok s := by
  constructor
  · rintro ⟨us, h⟩
    obtain ⟨e, h⟩ := isProgram_iff.1 h
    obtain ⟨s, hs, -⟩ := feeds_append_ok h
    exact ⟨s, hs⟩
  · rintro ⟨s, h⟩
    simpa using (holds_start.feeds h).viable

/-- The tree that feeding a program leaves is the tree of its tokens. -/
theorem derives_of_feeds {us : List Token} {e : Expr} {p : Pos}
    (h : feeds start (us ++ [⟨.eof, p⟩]) = .ok ⟨.done e, .top⟩) : Derives .expr us e := by
  have hd := holds_start.feeds h
  rw [List.nil_append] at hd
  generalize hts : us ++ [⟨.eof, p⟩] = ts at hd
  cases hd with
  | done he =>
    obtain rfl := (List.append_inj' hts rfl).1
    exact he

end Parse
end LetFun
