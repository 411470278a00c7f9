import LetFun.Proofs.Parse.Limit
/-!
# What nesting costs

A phrase costs as much as its innermost place (`Nests`): a parenthesis and a `let`
or `fun` add to the cost of what they hold, while the parts of an application, like
the two expressions of a `let`, stand side by side and add nothing to each other.

Where a phrase stands, the constructs around it add their cost to its own, and the
sum decides whether its tokens can be fed within a limit (`Costs`).

Results:
* `Nests.costs`: feeding a phrase comes to its cost, wherever it stands.
* `Nests.chain`: simple expressions side by side cost no more than each of them does.
-/
namespace LetFun

open Parse

/-- Tokens that form a phrase, and what its innermost place costs. -/
inductive Nests : Phrase → List Token → Nat → Prop where
  | ident {x : String} {p : Pos} : Nests .simple [⟨.ident x, p⟩] 0
  | con {c : String} {p : Pos} : Nests .simple [⟨.con c, p⟩] 0
  | paren {ts : List Token} {n : Nat} {p q : Pos} :
      Nests .expr ts n → Nests .simple (⟨.lparen, p⟩ :: ts ++ [⟨.rparen, q⟩]) (3 + n)
  | single {ts : List Token} {n : Nat} : Nests .simple ts n → Nests .run ts n
  | apply {ts us : List Token} {m n : Nat} :
      Nests .run ts m → Nests .simple us n → Nests .run (ts ++ us) (max m n)
  | run {ts : List Token} {n : Nat} : Nests .run ts n → Nests .expr ts n
  | letIn {x : String} {ts us : List Token} {m n : Nat} {p p₁ p₂ p₃ : Pos} :
      Nests .expr ts m → Nests .expr us n →
      Nests .expr
        (⟨.letKw, p⟩ :: ⟨.ident x, p₁⟩ :: ⟨.equal, p₂⟩ :: ts ++ ⟨.inKw, p₃⟩ :: us) (2 + max m n)
  | lam {x : String} {ts : List Token} {n : Nat} {p p₁ p₂ : Pos} :
      Nests .expr ts n →
      Nests .expr (⟨.funKw, p⟩ :: ⟨.ident x, p₁⟩ :: ⟨.arrow, p₂⟩ :: ts) (2 + n)

theorem Nests.derives {k : Phrase} {ts : List Token} {n : Nat} (h : Nests k ts n) :
    ∃ e, Derives k ts e := by
  induction h with
  | ident => exact ⟨_, .ident⟩
  | con => exact ⟨_, .con⟩
  | paren _ ih => obtain ⟨e, he⟩ := ih; exact ⟨e, .paren he⟩
  | single _ ih => obtain ⟨e, he⟩ := ih; exact ⟨e, .single he⟩
  | apply _ _ ihf iha =>
    obtain ⟨f, hf⟩ := ihf
    obtain ⟨a, ha⟩ := iha
    exact ⟨_, .apply hf ha⟩
  | run _ ih => obtain ⟨e, he⟩ := ih; exact ⟨e, .run he⟩
  | letIn _ _ ihb ihe =>
    obtain ⟨b, hb⟩ := ihb
    obtain ⟨e, he⟩ := ihe
    exact ⟨_, .letIn hb he⟩
  | lam _ ih => obtain ⟨e, he⟩ := ih; exact ⟨_, .lam he⟩

namespace Parse

/-! ## Feeding within a limit -/

section
variable {limit : Option Nat} {N : Nat} {s s' : State} {t : Token} {ts : List Token}

theorem passes_some : s.passes (some N) = false ↔ s.cost ≤ N := by simp [State.passes]

theorem within_cons (h : feed s t = .ok s') :
    within limit s (t :: ts) = true ↔ s.passes limit = false ∧ within limit s' ts = true := by
  simp [within, h]

theorem within_append (us : List Token) (h : feeds s ts = .ok s') :
    within limit s (ts ++ us) = true ↔ within limit s ts = true ∧ within limit s' us = true := by
  induction ts generalizing s with
  | nil =>
    cases h
    exact ⟨fun h => ⟨by simp [within, passes_of_within h], h⟩, fun h => h.2⟩
  | cons t ts ih =>
    simp only [feeds] at h
    split at h
    · rename_i s₁ ht
      rw [List.cons_append, within_cons ht, within_cons ht, ih h, and_assoc]
    · cases h

/-- Where feeding ends it has not passed the limit. -/
theorem passes_of_within_feeds (hw : within limit s ts = true) (h : feeds s ts = .ok s') :
    s'.passes limit = false := by
  rw [← List.append_nil ts] at hw
  exact passes_of_within ((within_append [] h).1 hw).2

theorem cost_wantAfter (f : Option Expr) (k : Context) :
    State.cost ⟨wantAfter f, k⟩ = k.cost := by
  cases f <;> simp [State.cost, wantAfter, Want.cost]

end

/-! ## The cost of a phrase -/

/-- The tokens of a phrase can be fed within a limit exactly if the constructs around it and its
own cost stay within it, wherever the phrase stands. -/
def Costs (N : Nat) : Phrase → List Token → Nat → Prop
  | .simple, ts, n => ∀ f k, within (some N) ⟨wantAfter f, k⟩ ts = true ↔ k.cost + n ≤ N
  | .run, ts, n => ∀ k, within (some N) ⟨.simple, k⟩ ts = true ↔ k.cost + n ≤ N
  | .expr, ts, n => ∀ k, within (some N) ⟨.expr, k⟩ ts = true ↔ k.cost + n ≤ N

section
variable {N m n : Nat} {ts us : List Token}

theorem costs_name {t : Token} {e : Expr}
    (hf : ∀ f k, feed ⟨wantAfter f, k⟩ t = .ok ⟨.more (extend f e), k⟩) :
    Costs N .simple [t] 0 := by
  intro f k
  rw [within_cons (hf f k), passes_some, cost_wantAfter]
  simp [within, State.passes, State.cost, Want.cost]

theorem Costs.paren {e : Expr} {p q : Pos} (hd : Derives .expr ts e) (h : Costs N .expr ts n) :
    Costs N .simple (⟨.lparen, p⟩ :: ts ++ [⟨.rparen, q⟩]) (3 + n) := by
  intro f k
  obtain ⟨e', k', hts, hu⟩ := hd.fed (.paren f k)
  have hopen : feed ⟨wantAfter f, k⟩ ⟨.lparen, p⟩ = .ok ⟨.expr, .paren f k⟩ := feed_wantAfter rfl
  have hcost : (Context.paren f k).cost = 3 + k.cost := rfl
  rw [List.cons_append, within_cons hopen, passes_some, cost_wantAfter, within_append _ hts,
    within_cons (hu.feed_rparen q), h (.paren f k), hcost]
  constructor
  · rintro ⟨-, h, -⟩
    omega
  · intro hN
    have hin : within (some N) ⟨.expr, .paren f k⟩ ts = true :=
      (h (.paren f k)).2 (by rw [hcost]; omega)
    refine ⟨by omega, by omega, passes_of_within_feeds hin hts, ?_⟩
    simp only [within, Bool.not_eq_true', passes_some, State.cost, Want.cost]
    omega

theorem Costs.apply {f : Expr} (hd : Derives .run ts f) (hf : Costs N .run ts m)
    (ha : Costs N .simple us n) : Costs N .run (ts ++ us) (max m n) := by
  intro k
  have harg : within (some N) ⟨.more f, k⟩ us = true ↔ k.cost + n ≤ N := ha (some f) k
  rw [within_append _ (hd.fed k), hf k, harg]
  omega

theorem Costs.run {e : Expr} (hd : Derives .run ts e) (h : Costs N .run ts n) :
    Costs N .expr ts n := by
  intro k
  obtain ⟨t, us, rfl, ht⟩ := hd.head_startsSimple (by decide)
  have hsame : within (some N) ⟨.expr, k⟩ (t :: us) = within (some N) ⟨.simple, k⟩ (t :: us) := by
    simp only [within, feed_expr ht]
    rfl
  rw [hsame]
  exact h k

theorem Costs.letIn {x : String} {b : Expr} {p p₁ p₂ p₃ : Pos} (hd : Derives .expr ts b)
    (hb : Costs N .expr ts m) (he : Costs N .expr us n) :
    Costs N .expr
      (⟨.letKw, p⟩ :: ⟨.ident x, p₁⟩ :: ⟨.equal, p₂⟩ :: ts ++ ⟨.inKw, p₃⟩ :: us) (2 + max m n) := by
  intro k
  obtain ⟨b', k', hts, hu⟩ := hd.fed (.bound x p k)
  have hkw : feed ⟨.expr, k⟩ ⟨.letKw, p⟩ = .ok ⟨.letName p, k⟩ := rfl
  have hname : feed ⟨.letName p, k⟩ ⟨.ident x, p₁⟩ = .ok ⟨.equal x p, k⟩ := rfl
  have heq : feed ⟨.equal x p, k⟩ ⟨.equal, p₂⟩ = .ok ⟨.expr, .bound x p k⟩ := rfl
  have hbound : (Context.bound x p k).cost = 2 + k.cost := rfl
  have hbody : (Context.body x b p k).cost = 2 + k.cost := rfl
  simp only [List.cons_append]
  rw [within_cons hkw, within_cons hname, within_cons heq, within_append _ hts,
    within_cons (hu.feed_inKw p₃), hb (.bound x p k), he (.body x b p k), hbound, hbody]
  simp only [passes_some]
  constructor
  · rintro ⟨-, -, -, h₁, -, h₂⟩
    omega
  · intro hN
    have hts' : within (some N) ⟨.expr, .bound x p k⟩ ts = true :=
      (hb (.bound x p k)).2 (by rw [hbound]; omega)
    have hend := passes_some.1 (passes_of_within_feeds hts' hts)
    simp only [State.cost, Want.cost] at hend ⊢
    omega

theorem Costs.lam {x : String} {p p₁ p₂ : Pos} (h : Costs N .expr ts n) :
    Costs N .expr (⟨.funKw, p⟩ :: ⟨.ident x, p₁⟩ :: ⟨.arrow, p₂⟩ :: ts) (2 + n) := by
  intro k
  have hkw : feed ⟨.expr, k⟩ ⟨.funKw, p⟩ = .ok ⟨.funName p, k⟩ := rfl
  have hname : feed ⟨.funName p, k⟩ ⟨.ident x, p₁⟩ = .ok ⟨.arrow x p, k⟩ := rfl
  have harrow : feed ⟨.arrow x p, k⟩ ⟨.arrow, p₂⟩ = .ok ⟨.expr, .lam x p k⟩ := rfl
  have hcost : (Context.lam x p k).cost = 2 + k.cost := rfl
  rw [within_cons hkw, within_cons hname, within_cons harrow, h (.lam x p k), hcost]
  simp only [passes_some, State.cost, Want.cost]
  omega

end

end Parse

theorem Nests.costs {k : Phrase} {ts : List Token} {n : Nat} (h : Nests k ts n) (N : Nat) :
    Costs N k ts n := by
  induction h with
  | @ident x p => exact costs_name (e := .var x p) fun f k => feed_wantAfter rfl
  | @con c p => exact costs_name (e := .con c p) fun f k => feed_wantAfter rfl
  | paren h ih =>
    obtain ⟨e, hd⟩ := h.derives
    exact ih.paren hd
  | single _ ih => exact ih none
  | apply h _ ihf iha =>
    obtain ⟨f, hd⟩ := h.derives
    exact ihf.apply hd iha
  | run h ih =>
    obtain ⟨e, hd⟩ := h.derives
    exact ih.run hd
  | letIn h _ ihb ihe =>
    obtain ⟨b, hd⟩ := h.derives
    exact ihb.letIn hd ihe
  | lam _ ih => exact ih.lam

/-- Further arguments cost a run no more than each of them does. -/
theorem Nests.applyAll {N n : Nat} {ts : List Token} {args : List (List Token)}
    (h : Nests .run ts n) (hn : n ≤ N) (hargs : ∀ us ∈ args, ∃ n ≤ N, Nests .simple us n) :
    ∃ n ≤ N, Nests .run (ts ++ args.flatten) n := by
  induction args generalizing ts n with
  | nil => exact ⟨n, hn, by simpa using h⟩
  | cons us args ih =>
    obtain ⟨m, hm, hus⟩ := hargs us (by simp)
    have hrest : ∀ vs ∈ args, ∃ n ≤ N, Nests .simple vs n := fun vs hvs => hargs vs (by simp [hvs])
    rw [List.flatten_cons, ← List.append_assoc]
    exact ih (h.apply hus) (by omega) hrest

/-- Simple expressions side by side cost no more than each of them does. -/
theorem Nests.chain {N : Nat} {args : List (List Token)} (hne : args ≠ [])
    (h : ∀ ts ∈ args, ∃ n ≤ N, Nests .simple ts n) : ∃ n ≤ N, Nests .run args.flatten n := by
  cases args with
  | nil => exact absurd rfl hne
  | cons ts args =>
    obtain ⟨n, hn, hts⟩ := h ts (by simp)
    exact (Nests.single hts).applyAll hn fun us hus => h us (by simp [hus])

end LetFun
