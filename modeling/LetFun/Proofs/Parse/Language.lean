import LetFun.Proofs.Parse.Ruling
/-!
# The language of the parser

Within the nesting limit, the texts that are parsed are those whose tokens the
grammar derives, and the tree is the derived one.

Results:
* `parse_language`: the parser accepts exactly its grammar, and no tokens have two trees.
-/
namespace LetFun

variable {limit : Option Nat} {text : String}

/-- A parse without a limit that gives a tree has derived it. -/
theorem derives_of_parse {e : Expr} (h : parseWithin none text = .ok e) :
    ∃ us p, lex text = .ok (us ++ [⟨.eof, p⟩]) ∧ Derives .expr us e := by
  have hr := ruling_parse text
  rw [h] at hr
  cases hr with
  | @accepted us _ p hf hts he => exact ⟨us, p, by rw [lex_eq, hf, hts], he⟩

/-- Tokens that the grammar derives are parsed. -/
theorem parse_of_derives {us : List Token} {e : Expr} {p : Pos}
    (h : lex text = .ok (us ++ [⟨.eof, p⟩])) (he : Derives .expr us e) :
    parseWithin none text = .ok e := by
  have hr := ruling_parse text
  rw [scans_of_lex h] at hr
  generalize parseWithin none text = r at hr
  cases hr with
  | @accepted us' e' p' _ hts he' =>
    obtain ⟨rfl, -⟩ := List.append_inj' hts rfl
    rw [he.tree_unique he']
  | lexical hf _ => cases hf
  | @syntactic pre post t s err hts _ hf ht =>
    have hall := feeds_program (p := p) he
    rw [show us ++ [⟨.eof, p⟩] = pre ++ t :: post from hts, Parse.feeds_append _ hf] at hall
    simp [Parse.feeds, ht] at hall

/-- A text whose outcomes are tokens that the grammar derives is parsed, if they can be fed within
the limit. -/
theorem parseWithin_of_scans {us : List Token} {e : Expr} {p : Pos}
    (hs : scans text = ⟨us ++ [⟨.eof, p⟩], none⟩)
    (hwithin : Parse.within limit Parse.start (us ++ [⟨.eof, p⟩]) = true)
    (he : Derives .expr us e) : parseWithin limit text = .ok e := by
  have hshallow : Shallow limit text := shallow_of_within (by rw [hs]; exact hwithin)
  exact (parseWithin_of_shallow hshallow).trans (parse_of_derives (lex_of_scans hs) he)

/-- **The language.** Within the nesting limit, a text is parsed to a tree exactly if its
tokens are those of the tree, down to every position; the tokens of a phrase have one tree, and
the lexemes of a phrase one tree up to positions. -/
theorem parse_language (h : Shallow limit text) :
    (∀ e, parseWithin limit text = .ok e ↔
      ∃ us p, lex text = .ok (us ++ [⟨.eof, p⟩]) ∧ Derives .expr us e) ∧
    (∀ us e₁ e₂, Derives .expr us e₁ → Derives .expr us e₂ → e₁ = e₂) ∧
    (∀ us vs e₁ e₂, Derives .expr us e₁ → Derives .expr vs e₂ →
      us.map (·.lexeme) = vs.map (·.lexeme) → e₁.strip = e₂.strip) := by
  refine ⟨fun e => ?_, fun us e₁ e₂ h₁ h₂ => h₁.tree_unique h₂,
    fun us vs e₁ e₂ h₁ h₂ heq => h₁.strip_unique h₂ heq⟩
  rw [parseWithin_of_shallow h]
  constructor
  · exact derives_of_parse
  · rintro ⟨us, p, hlex, he⟩
    exact parse_of_derives hlex he

/-- A text with every construct: its tokens derive a tree, and so it is parsed to it. -/
theorem parse_language_nested :
    Shallow (some nestingLimit) "let id = fun x -> x in id (f Nil)" ∧
      parse "let id = fun x -> x in id (f Nil)" =
        .ok (.letIn "id" (.lam "x" (.var "x" ⟨1, 19⟩) ⟨1, 10⟩)
          (.app (.var "id" ⟨1, 24⟩) (.app (.var "f" ⟨1, 28⟩) (.con "Nil" ⟨1, 30⟩) ⟨1, 28⟩)
            ⟨1, 24⟩) ⟨1, 1⟩) := by
  have hs : scans "let id = fun x -> x in id (f Nil)" =
      ⟨[⟨.letKw, ⟨1, 1⟩⟩, ⟨.ident "id", ⟨1, 5⟩⟩, ⟨.equal, ⟨1, 8⟩⟩, ⟨.funKw, ⟨1, 10⟩⟩,
        ⟨.ident "x", ⟨1, 14⟩⟩, ⟨.arrow, ⟨1, 16⟩⟩, ⟨.ident "x", ⟨1, 19⟩⟩, ⟨.inKw, ⟨1, 21⟩⟩,
        ⟨.ident "id", ⟨1, 24⟩⟩, ⟨.lparen, ⟨1, 27⟩⟩, ⟨.ident "f", ⟨1, 28⟩⟩, ⟨.con "Nil", ⟨1, 30⟩⟩,
        ⟨.rparen, ⟨1, 33⟩⟩] ++ [⟨.eof, ⟨1, 34⟩⟩], none⟩ := by
    decide +kernel
  have h : Shallow (some nestingLimit) "let id = fun x -> x in id (f Nil)" :=
    shallow_of_within (by rw [hs]; decide)
  exact ⟨h, ((parse_language h).1 _).2
    ⟨_, ⟨1, 34⟩, by rw [lex_eq, hs], Parse.derives_of_feeds (p := ⟨1, 34⟩) rfl⟩⟩

end LetFun
