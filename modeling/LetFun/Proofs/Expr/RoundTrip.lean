import LetFun.Expr.Print
import LetFun.Proofs.Draft.WellTagged
import LetFun.Proofs.Lexer.Reading
import LetFun.Proofs.Parse.Language
/-!
# Printing and parsing

A printed expression is read back as itself.  Its text is taken apart as it was
put together: a text `Spells` a tree as a phrase if, wherever it stands and
whatever follows it without lengthening its last word, it is read as tokens that
derive the tree.  A name is spelled as a simple expression, an application as a
run and a `let` or a `fun` as an expression; parentheses make any of them simple.

In the other direction every tree that is parsed has legal names, since its
names are those of its tokens.

Results:
* `Expr.spells`: a tree with legal names is spelled by its text.
* `Derives.legal`: legal tokens derive trees with legal names.
* `parse_print`: parsing undoes printing, and the trees that are parsed are legal.
-/
namespace LetFun

/-! ## Texts that spell a tree -/

/-- No word in front of the rest is made longer by it. -/
def Apart (rest : List Char) : Prop := ∀ c, rest.head? = some c → isNameChar c = false

theorem apart_nil : Apart [] := by intro c hc; cases hc

theorem apart_cons {c : Char} (hc : isNameChar c = false) (rest : List Char) :
    Apart (c :: rest) := by
  intro d hd
  cases hd
  exact hc

theorem apart_blank (rest : List Char) : Apart (' ' :: rest) := apart_cons (by decide) rest

/-- Wherever the text stands and whatever is apart from it behind it, it is read as tokens that
derive the tree as a phrase. -/
def Spells (k : Phrase) (cs : List Char) (e : Expr) : Prop :=
  ∀ p rest, Apart rest →
    ∃ ts q e', Reads p (cs ++ rest) ts q rest ∧ Derives k ts e' ∧ e'.strip = e.strip

/-- A lexeme that is spelled is read. -/
theorem reads_lexeme (p : Pos) (blanks : List Char) (l : Lexeme) (rest : List Char)
    (hb : ∀ c ∈ blanks, isBlank c = true) (hl : l ≠ .eof) (hg : l.legal = true)
    (he : l.EndsBefore rest) :
    ∃ q r, Reads p (blanks ++ l.spelling.toList ++ rest) [⟨l, q⟩] r rest :=
  ⟨_, _, .cons hb hl hg he .nil⟩

theorem isBlank_space : ∀ c ∈ [' '], isBlank c = true := List.all_eq_true.1 rfl

/-- A blank in front of a token belongs to the blanks before it. -/
theorem Reads.blank {p q : Pos} {cs ds : List Char} {t : Token} {ts : List Token}
    (h : Reads (p.next ' ') cs (t :: ts) q ds) : Reads p (' ' :: cs) (t :: ts) q ds :=
  Reads.blanks isBlank_space h

namespace Spells

variable {k : Phrase} {cs ds : List Char} {e : Expr}

theorem blank (h : Spells k cs e) : Spells k (' ' :: cs) e := by
  intro p rest hrest
  obtain ⟨ts, q, e', hts, he, hs⟩ := h (p.next ' ') rest hrest
  obtain ⟨t, us, rfl⟩ := List.exists_cons_of_ne_nil he.ne_nil
  exact ⟨_, q, e', hts.blank, he, hs⟩

/-- What spells a phrase of any kind spells an expression. -/
theorem toExpr (h : Spells k cs e) : Spells .expr cs e := by
  intro p rest hrest
  obtain ⟨ts, q, e', hts, he, hs⟩ := h p rest hrest
  exact ⟨ts, q, e', hts, he.toExpr, hs⟩

theorem toRun (h : Spells .simple cs e) : Spells .run cs e := by
  intro p rest hrest
  obtain ⟨ts, q, e', hts, he, hs⟩ := h p rest hrest
  exact ⟨ts, q, e', hts, .single he, hs⟩

theorem var {x : String} (hx : isIdent x = true) (p : Pos) :
    Spells .simple x.toList (.var x p) := by
  intro p₀ rest hrest
  obtain ⟨q, r, h⟩ := reads_lexeme p₀ [] (.ident x) rest (by simp) (by simp) hx
    fun _ => hrest
  exact ⟨_, r, _, h, .ident, rfl⟩

theorem con {c : String} (hc : isCon c = true) (p : Pos) :
    Spells .simple c.toList (.con c p) := by
  intro p₀ rest hrest
  obtain ⟨q, r, h⟩ := reads_lexeme p₀ [] (.con c) rest (by simp) (by simp) hc
    fun _ => hrest
  exact ⟨_, r, _, h, .con, rfl⟩

theorem paren (h : Spells .expr cs e) : Spells .simple ('(' :: cs ++ [')']) e := by
  intro p rest _
  obtain ⟨q₁, r₁, h₁⟩ := reads_lexeme p [] .lparen (cs ++ ')' :: rest) (by simp) (by simp) rfl
    fun h => by cases h
  obtain ⟨ts, r₂, e', h₂, he, hs⟩ := h r₁ (')' :: rest) (apart_cons (by decide) rest)
  obtain ⟨q₃, r₃, h₃⟩ := reads_lexeme r₂ [] .rparen rest (by simp) (by simp) rfl
    fun h => by cases h
  refine ⟨⟨.lparen, q₁⟩ :: ts ++ [⟨.rparen, q₃⟩], r₃, e', ?_, .paren he, hs⟩
  have hcs : '(' :: cs ++ [')'] ++ rest = '(' :: (cs ++ ')' :: rest) := by simp
  rw [hcs]
  exact h₁.trans (h₂.trans h₃)

theorem app {f a : Expr} (hf : Spells .run cs f) (ha : Spells .simple ds a) (p : Pos) :
    Spells .run (cs ++ ' ' :: ds) (.app f a p) := by
  intro p₀ rest hrest
  obtain ⟨ts, r₁, f', h₁, hdf, hsf⟩ := hf p₀ (' ' :: ds ++ rest) (apart_blank _)
  obtain ⟨us, r₂, a', h₂, hda, hsa⟩ := ha.blank r₁ rest hrest
  refine ⟨ts ++ us, r₂, _, ?_, .apply hdf hda, Expr.strip_app hsf hsa⟩
  rw [List.append_assoc]
  exact h₁.trans h₂

theorem letIn {x : String} {b : Expr} (hx : isIdent x = true) (hb : Spells .expr cs b)
    (he : Spells .expr ds e) (p : Pos) :
    Spells .expr ("let ".toList ++ x.toList ++ " = ".toList ++ cs ++ " in ".toList ++ ds)
      (.letIn x b e p) := by
  intro p₀ rest hrest
  obtain ⟨q₁, r₁, h₁⟩ := reads_lexeme p₀ [] .letKw
    (' ' :: (x.toList ++ " = ".toList ++ cs ++ " in ".toList ++ ds ++ rest))
    (by simp) (by simp) rfl fun _ => apart_blank _
  obtain ⟨q₂, r₂, h₂⟩ := reads_lexeme r₁ [' '] (.ident x)
    (' ' :: ("= ".toList ++ cs ++ " in ".toList ++ ds ++ rest))
    isBlank_space (by simp) hx fun _ => apart_blank _
  obtain ⟨q₃, r₃, h₃⟩ := reads_lexeme r₂ [' '] .equal
    (' ' :: (cs ++ " in ".toList ++ ds ++ rest)) isBlank_space (by simp) rfl fun _ => apart_blank _
  obtain ⟨ts, r₄, b', h₄, hdb, hsb⟩ := hb.blank r₃ (' ' :: ("in ".toList ++ ds ++ rest))
    (apart_blank _)
  obtain ⟨q₅, r₅, h₅⟩ := reads_lexeme r₄ [' '] .inKw (' ' :: (ds ++ rest))
    isBlank_space (by simp) rfl fun _ => apart_blank _
  obtain ⟨us, r₆, e', h₆, hde, hse⟩ := he.blank r₅ rest hrest
  refine ⟨⟨.letKw, q₁⟩ :: ⟨.ident x, q₂⟩ :: ⟨.equal, q₃⟩ :: ts ++ ⟨.inKw, q₅⟩ :: us, r₆, _, ?_,
    .letIn hdb hde, Expr.strip_letIn hsb hse⟩
  simp only [Lexeme.spelling, String.reduceToList, List.nil_append, List.cons_append,
    List.append_assoc] at h₁ h₂ h₃ h₄ h₅ h₆ ⊢
  exact h₁.trans (h₂.trans (h₃.trans (h₄.trans (h₅.trans h₆))))

theorem lam {x : String} (hx : isIdent x = true) (he : Spells .expr cs e) (p : Pos) :
    Spells .expr ("fun ".toList ++ x.toList ++ " -> ".toList ++ cs) (.lam x e p) := by
  intro p₀ rest hrest
  obtain ⟨q₁, r₁, h₁⟩ := reads_lexeme p₀ [] .funKw
    (' ' :: (x.toList ++ " -> ".toList ++ cs ++ rest))
    (by simp) (by simp) rfl fun _ => apart_blank _
  obtain ⟨q₂, r₂, h₂⟩ := reads_lexeme r₁ [' '] (.ident x)
    (' ' :: ("-> ".toList ++ cs ++ rest)) isBlank_space (by simp) hx fun _ => apart_blank _
  obtain ⟨q₃, r₃, h₃⟩ := reads_lexeme r₂ [' '] .arrow (' ' :: (cs ++ rest))
    isBlank_space (by simp) rfl fun _ => apart_blank _
  obtain ⟨ts, r₄, e', h₄, hde, hse⟩ := he.blank r₃ rest hrest
  refine ⟨⟨.funKw, q₁⟩ :: ⟨.ident x, q₂⟩ :: ⟨.arrow, q₃⟩ :: ts, r₄, _, ?_,
    .lam hde, Expr.strip_lam hse⟩
  simp only [Lexeme.spelling, String.reduceToList, List.nil_append, List.cons_append,
    List.append_assoc] at h₁ h₂ h₃ h₄ ⊢
  exact h₁.trans (h₂.trans (h₃.trans h₄))

end Spells

/-! ## Printed trees -/

namespace Expr

/-- The phrase as which a tree is printed. -/
def phrase : Expr → Phrase
  | var .. | con .. => .simple
  | app .. => .run
  | letIn .. | lam .. => .expr

/-- A printed function stands where a run is read. -/
theorem spells_function {f : Expr} (h : Spells f.phrase f.print.toList f) :
    Spells .run (parens f.isOpen f.print).toList f := by
  cases f with
  | var | con => exact h.toRun
  | app => exact h
  | letIn | lam =>
    have hp := h.paren.toRun
    simpa [parens, isOpen] using hp

/-- A printed argument stands where a simple expression is read. -/
theorem spells_argument {a : Expr} (h : Spells a.phrase a.print.toList a) :
    Spells .simple (parens (!a.isName) a.print).toList a := by
  cases a with
  | var | con => exact h
  | app | letIn | lam =>
    have hp := h.toExpr.paren
    simpa [parens, isName] using hp

theorem spells {e : Expr} (h : e.legal = true) : Spells e.phrase e.print.toList e := by
  induction e with
  | var x p => exact .var h p
  | con c p => exact .con h p
  | letIn x b e p ihb ihe =>
    simp only [legal, Bool.and_eq_true] at h
    obtain ⟨⟨hx, hb⟩, he⟩ := h
    have hlet := Spells.letIn hx (ihb hb).toExpr (ihe he).toExpr p
    simpa [phrase, print] using hlet
  | lam x e p ih =>
    simp only [legal, Bool.and_eq_true] at h
    have hlam := Spells.lam h.1 (ih h.2).toExpr p
    simpa [phrase, print] using hlam
  | app f a p ihf iha =>
    simp only [legal, Bool.and_eq_true] at h
    have happ := Spells.app (spells_function (ihf h.1)) (spells_argument (iha h.2)) p
    simpa [phrase, print] using happ

end Expr

/-- Without a nesting limit a printed tree is parsed as itself. -/
theorem parse_print_of_legal {e : Expr} (h : e.legal = true) :
    ∃ e', parseWithin none e.print = .ok e' ∧ e'.same e = true := by
  obtain ⟨ts, q, e', hts, he, hs⟩ := (Expr.spells h).toExpr Pos.origin [] apart_nil
  rw [List.append_nil] at hts
  have hlex : lex e.print = .ok (ts ++ [⟨.eof, q⟩]) :=
    lex_of_tokenizes ⟨ts, q, [], hts, by simp, rfl⟩
  exact ⟨e', parse_of_derives hlex he, by simpa [Expr.same] using hs⟩

/-! ## The names of a parsed tree -/

/-- The names of a tree are those of its tokens. -/
theorem Derives.legal {k : Phrase} {ts : List Token} {e : Expr} (h : Derives k ts e)
    (hts : ∀ t ∈ ts, t.lexeme.legal = true) : e.legal = true := by
  induction h with
  | ident => exact hts _ (List.mem_singleton.2 rfl)
  | con => exact hts _ (List.mem_singleton.2 rfl)
  | paren _ ih => exact ih fun t ht => hts t (by simp [ht])
  | single _ ih | run _ ih => exact ih hts
  | apply _ _ ihf iha =>
    have hf := ihf fun t ht => hts t (by simp [ht])
    have ha := iha fun t ht => hts t (by simp [ht])
    simp [Expr.apply, Expr.legal, hf, ha]
  | @letIn x _ _ _ _ _ p₁ _ _ _ _ ihb ihe =>
    have hx : isIdent x = true := hts ⟨.ident x, p₁⟩ (by simp)
    have hb := ihb fun t ht => hts t (by simp [ht])
    have he := ihe fun t ht => hts t (by simp [ht])
    simp [Expr.legal, hx, hb, he]
  | @lam x _ _ _ p₁ _ _ ih =>
    have hx : isIdent x = true := hts ⟨.ident x, p₁⟩ (by simp)
    have he := ih fun t ht => hts t (by simp [ht])
    simp [Expr.legal, hx, he]

theorem legal_of_parse {text : String} {e : Expr} (h : parseWithin none text = .ok e) :
    e.legal = true := by
  obtain ⟨us, p, hlex, he⟩ := derives_of_parse h
  have hs : (Cursor.ofText text).outcomes = ⟨us ++ [⟨.eof, p⟩], none⟩ := scans_of_lex hlex
  have hall := (Cursor.ofText text).legal_of_mem_outcomes
  rw [hs] at hall
  exact he.legal fun t ht => hall t (List.mem_append_left _ ht)

/-! ## Legal trees -/

namespace Draft

/-- Whether the name that a node has, if its form has one, can be met in a text. -/
def hasLegalName : Draft → Bool
  | var _ x _ | letIn _ x _ _ _ | lam _ x _ _ => isIdent x
  | con _ c _ => isCon c
  | bare .. | app .. => true

/-- Every node has the tag of its form and a legal name. -/
def Legal (d : Draft) : Prop := ∀ n ∈ d.nodes, n.isWellTagged = true ∧ n.hasLegalName = true

instance (d : Draft) : Decidable d.Legal :=
  inferInstanceAs (Decidable (∀ n ∈ d.nodes, n.isWellTagged = true ∧ n.hasLegalName = true))

theorem legal_var {t : Option ExprKind} {x : String} {p : Pos} :
    (var t x p).Legal ↔ t = some .var ∧ isIdent x = true := by
  simp [Legal, nodes, isWellTagged_iff, form, tag, hasLegalName]

theorem legal_con {t : Option ExprKind} {c : String} {p : Pos} :
    (con t c p).Legal ↔ t = some .con ∧ isCon c = true := by
  simp [Legal, nodes, isWellTagged_iff, form, tag, hasLegalName]

theorem legal_letIn {t : Option ExprKind} {x : String} {b e : Draft} {p : Pos} :
    (letIn t x b e p).Legal ↔ t = some .letIn ∧ isIdent x = true ∧ b.Legal ∧ e.Legal := by
  have htag : (letIn t x b e p).isWellTagged = true ↔ t = some .letIn := by
    simp [isWellTagged_iff, form, tag]
  have hname : (letIn t x b e p).hasLegalName = isIdent x := rfl
  simp only [Legal, nodes, List.cons_append, List.forall_mem_cons, List.forall_mem_append, htag,
    hname, and_assoc]

theorem legal_lam {t : Option ExprKind} {x : String} {e : Draft} {p : Pos} :
    (lam t x e p).Legal ↔ t = some .lam ∧ isIdent x = true ∧ e.Legal := by
  have htag : (lam t x e p).isWellTagged = true ↔ t = some .lam := by
    simp [isWellTagged_iff, form, tag]
  have hname : (lam t x e p).hasLegalName = isIdent x := rfl
  simp only [Legal, nodes, List.forall_mem_cons, htag, hname, and_assoc]

theorem legal_app {t : Option ExprKind} {f a : Draft} {p : Pos} :
    (app t f a p).Legal ↔ t = some .app ∧ f.Legal ∧ a.Legal := by
  have htag : (app t f a p).isWellTagged = true ↔ t = some .app := by
    simp [isWellTagged_iff, form, tag]
  have hname : (app t f a p).hasLegalName = true := rfl
  simp only [Legal, nodes, List.cons_append, List.forall_mem_cons, List.forall_mem_append, htag,
    hname, and_true]

theorem legal_ofExpr (e : Expr) : (ofExpr e).Legal ↔ e.legal = true := by
  induction e with
  | var => simp [ofExpr, legal_var, Expr.legal]
  | con => simp [ofExpr, legal_con, Expr.legal]
  | letIn x b e p ihb ihe => simp [ofExpr, legal_letIn, Expr.legal, ihb, ihe, and_assoc]
  | lam x e p ih => simp [ofExpr, legal_lam, Expr.legal, ih]
  | app f a p ihf iha => simp [ofExpr, legal_app, Expr.legal, ihf, iha]

/-- A draft that is legal is an expression. -/
theorem Legal.exists_expr {d : Draft} (h : d.Legal) : ∃ e, d = ofExpr e :=
  WellTagged.exists_expr fun n hn => (h n hn).1

end Draft

/-- **Printing and parsing.** A legal tree is an expression; an expression that is legal and whose
text stays within the nesting limit is parsed as itself, up to positions; and every tree that is
parsed is legal. -/
theorem parse_print (limit : Option Nat) :
    (∀ d : Draft, d.Legal → ∃ e, d = .ofExpr e) ∧
    (∀ e, (Draft.ofExpr e).Legal → Shallow limit e.print →
      ∃ e', parseWithin limit e.print = .ok e' ∧ e'.same e = true) ∧
    ∀ text e, parseWithin limit text = .ok e → (Draft.ofExpr e).Legal := by
  refine ⟨fun d hd => hd.exists_expr, fun e he h => ?_, fun text e h => ?_⟩
  · obtain ⟨e', hparse, hs⟩ := parse_print_of_legal ((Draft.legal_ofExpr e).1 he)
    exact ⟨e', by rw [parseWithin_of_shallow h, hparse], hs⟩
  · exact (Draft.legal_ofExpr e).2 (legal_of_parse (parseWithin_of_ok h))

/-- A `fun` in the place of a function and an application in the place of an argument are printed
in parentheses and read back. -/
theorem parse_print_parens :
    ∃ e : Expr, (Draft.ofExpr e).Legal ∧ e.print = "(fun x -> x) (f Nil)" ∧
      Shallow (some nestingLimit) e.print ∧ ∃ e', parse e.print = .ok e' ∧ e'.same e = true := by
  have hs : Shallow (some nestingLimit) "(fun x -> x) (f Nil)" :=
    shallow_of_within (by decide +kernel)
  have hprint : Expr.print
      (.app (.lam "x" (.var "x" .none) .none) (.app (.var "f" .none) (.con "Nil" .none) .none)
        .none) = "(fun x -> x) (f Nil)" := by
    decide
  refine ⟨_, ?_, hprint, hprint ▸ hs, (parse_print (some nestingLimit)).2.1 _ ?_ (hprint ▸ hs)⟩
  · decide
  · decide

end LetFun
