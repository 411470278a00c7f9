import LetFun.Proofs.Lexer.Seam
import LetFun.Proofs.Parse.Language
/-!
# Programs made of programs

A program that is put into a larger one keeps its tree.  In parentheses, behind the
arrow of a `fun`, and on either side of the `in` of a `let` its tokens stand as they
stand alone, but moved, and moved tokens derive the moved tree (`Derives.mapPos`).
So the tree of the larger program is made of the moved trees of its parts.

The text of the larger program is put together from left to right, each part behind
all that is in front of it, and no word runs across a seam, since a mark or a blank
stands on one side of each.

Results:
* `Derives.mapPos`: moved tokens derive the moved tree.
* `Lexes.append`, `lexes_lexeme`: the tokens of a text in two parts, and of one lexeme.
* `parse_composes`: the trees of programs in parentheses, of a `fun` and of a `let`.
-/
namespace LetFun

/-! ## Moved trees -/

namespace Expr

theorem pos_mapPos (f : Pos → Pos) (e : Expr) : (e.mapPos f).pos = f e.pos := by cases e <;> rfl

theorem mapPos_apply (f : Pos → Pos) (g a : Expr) :
    (g.apply a).mapPos f = (g.mapPos f).apply (a.mapPos f) := by
  simp only [apply, mapPos, pos_mapPos]

/-- The tree of a text as it stands behind another text. -/
def behind (front : String) (e : Expr) : Expr := e.mapPos (Pos.behind front.toList).shift

end Expr

theorem Derives.mapPos (f : Pos → Pos) {k : Phrase} {ts : List Token} {e : Expr}
    (h : Derives k ts e) : Derives k (ts.map (Token.mapPos f)) (e.mapPos f) := by
  induction h with
  | ident => exact .ident
  | con => exact .con
  | paren _ ih =>
    rw [List.map_append, List.map_cons]
    exact .paren ih
  | single _ ih => exact .single ih
  | apply _ _ ihf iha =>
    rw [List.map_append, Expr.mapPos_apply]
    exact .apply ihf iha
  | run _ ih => exact .run ih
  | letIn _ _ ihb ihe =>
    simp only [List.map_append, List.map_cons]
    exact .letIn ihb ihe
  | lam _ ih => exact .lam ih

theorem Derives.call {ts us : List Token} {f a : Expr} {p q p' q' : Pos} (hf : Derives .expr ts f)
    (ha : Derives .expr us a) :
    Derives .expr (⟨.lparen, p⟩ :: (ts ++ ⟨.rparen, q⟩ :: ⟨.lparen, p'⟩ :: (us ++ [⟨.rparen, q'⟩])))
      (f.apply a) := by
  have hfun : Derives .run (⟨.lparen, p⟩ :: ts ++ [⟨.rparen, q⟩]) f := .single (.paren hf)
  have harg : Derives .simple (⟨.lparen, p'⟩ :: us ++ [⟨.rparen, q'⟩]) a := .paren ha
  simpa using Derives.run (hfun.apply harg)

/-! ## Texts in parts -/

/-- The text consists of these tokens and of blanks. -/
def Lexes (text : String) (us : List Token) : Prop :=
  lex text = .ok (us ++ [⟨.eof, Pos.behind text.toList⟩])

theorem lexes_of_lex {text : String} {us : List Token} {q : Pos}
    (h : lex text = .ok (us ++ [⟨.eof, q⟩])) : Lexes text us := by
  rw [Lexes, ← pos_of_lex h]
  exact h

theorem Lexes.append {a b : String} {us vs : List Token} (ha : Lexes a us) (hb : Lexes b vs)
    (hab : Parted a.toList b.toList) :
    Lexes (a ++ b) (us ++ vs.map (Token.mapPos (Pos.behind a.toList).shift)) := by
  have hwhole := lex_append ha hab hb
  rw [List.map_append, ← List.append_assoc] at hwhole
  exact lexes_of_lex hwhole

/-- One lexeme with blanks around it. -/
theorem lexes_lexeme (front : String) (l : Lexeme) (back : String) (hl : l ≠ .eof)
    (hg : l.legal = true) (hfront : ∀ c ∈ front.toList, isBlank c = true)
    (hback : ∀ c ∈ back.toList, isBlank c = true) :
    Lexes (front ++ l.spelling ++ back) [⟨l, Pos.behind front.toList⟩] := by
  have hends : l.EndsBefore back.toList := fun _ c hc =>
    isNameChar_of_isBlank (hback c (List.mem_of_head? hc))
  have hread := Reads.cons (p := .origin) hfront hl hg hends .nil
  rw [Pos.after_origin, ← String.toList_append, ← String.toList_append] at hread
  exact lexes_of_lex (lex_of_tokenizes ⟨_, _, back.toList, hread, hback, rfl⟩)

theorem lexes_ident {x : String} (hx : isIdent x = true) : Lexes x [⟨.ident x, .origin⟩] := by
  have h := lexes_lexeme "" (.ident x) "" (by simp) hx (by simp) (by simp)
  rwa [String.empty_append, String.append_empty] at h

theorem lexes_lparen : Lexes "(" [⟨.lparen, .origin⟩] :=
  lexes_lexeme "" .lparen "" (by simp) rfl (by simp) (by simp)

theorem lexes_rparen : Lexes ")" [⟨.rparen, .origin⟩] :=
  lexes_lexeme "" .rparen "" (by simp) rfl (by simp) (by simp)

/-- A text that ends in a mark or a blank is parted from what follows. -/
theorem parted_of_last {cs ds : List Char} {c : Char} (hc : cs.getLast? = some c)
    (hname : isNameChar c = false) : Parted cs ds := by
  intro c' d hc' _
  rw [hc] at hc'
  cases hc'
  exact .inl hname

theorem parted_of_last_append {s m : String} {ds : List Char} {c : Char}
    (hc : m.toList.getLast? = some c) (hname : isNameChar c = false) :
    Parted (s ++ m).toList ds := by
  refine parted_of_last ?_ hname
  rw [String.toList_append, List.getLast?_append, hc]
  rfl

/-- A text that begins with a mark or a blank is parted from what is in front. -/
theorem parted_of_head {cs ds : List Char} {d : Char} (hd : ds.head? = some d)
    (hname : isNameChar d = false) : Parted cs ds := by
  intro c d' _ hd'
  rw [hd] at hd'
  cases hd'
  exact .inr hname

theorem lexes_of_parse {limit : Option Nat} {text : String} {e : Expr}
    (h : parseWithin limit text = .ok e) : ∃ us, Lexes text us ∧ Derives .expr us e := by
  obtain ⟨us, p, hlex, hd⟩ := derives_of_parse (parseWithin_of_ok h)
  exact ⟨us, lexes_of_lex hlex, hd⟩

theorem parse_of_lexes {limit : Option Nat} {text : String} {us : List Token} {e : Expr}
    (hs : Shallow limit text) (h : Lexes text us) (hd : Derives .expr us e) :
    parseWithin limit text = .ok e := by
  rw [parseWithin_of_shallow hs]
  exact parse_of_derives h hd

/-! ## Larger programs -/

section
variable {a b x : String} {us vs : List Token} {A B : Expr}

theorem lexes_paren (ha : Lexes a us) (hA : Derives .expr us A) :
    ∃ ts, Lexes ("(" ++ a ++ ")") ts ∧ Derives .expr ts (A.behind "(") := by
  have hwhole := (lexes_lparen.append ha (parted_of_last rfl (by decide))).append lexes_rparen
    (parted_of_head rfl (by decide))
  exact ⟨_, hwhole, .run (.single (.paren (hA.mapPos _)))⟩

theorem lexes_app (ha : Lexes a us) (hA : Derives .expr us A) (hb : Lexes b vs)
    (hB : Derives .expr vs B) :
    ∃ ts, Lexes ("(" ++ a ++ ")(" ++ b ++ ")") ts ∧
      Derives .expr ts ((A.behind "(").apply (B.behind ("(" ++ a ++ ")("))) := by
  have hjoin : Lexes ")(" _ := lexes_rparen.append lexes_lparen (parted_of_head rfl (by decide))
  have hfront := (lexes_lparen.append ha (parted_of_last rfl (by decide))).append hjoin
    (parted_of_head rfl (by decide))
  have hwhole := (hfront.append hb (parted_of_last_append rfl (by decide))).append lexes_rparen
    (parted_of_head rfl (by decide))
  refine ⟨_, hwhole, ?_⟩
  simp only [List.map_cons, List.map_nil, List.append_assoc, List.cons_append, List.nil_append]
  exact .call (hA.mapPos _) (hB.mapPos _)

theorem lexes_lam (hx : isIdent x = true) (ha : Lexes a us) (hA : Derives .expr us A) :
    ∃ ts, Lexes ("fun " ++ x ++ "->" ++ a) ts ∧
      Derives .expr ts (.lam x (A.behind ("fun " ++ x ++ "->")) .origin) := by
  have hfun : Lexes "fun " [⟨.funKw, .origin⟩] :=
    lexes_lexeme "" .funKw " " (by simp) rfl (by simp) (by simp [isBlank])
  have harrow : Lexes "->" [⟨.arrow, .origin⟩] :=
    lexes_lexeme "" .arrow "" (by simp) rfl (by simp) (by simp)
  have hfront := (hfun.append (lexes_ident hx) (parted_of_last rfl (by decide))).append harrow
    (parted_of_head rfl (by decide))
  have hwhole := hfront.append ha (parted_of_last_append rfl (by decide))
  exact ⟨_, hwhole, .lam (hA.mapPos _)⟩

theorem lexes_letIn (hx : isIdent x = true) (ha : Lexes a us) (hA : Derives .expr us A)
    (hb : Lexes b vs) (hB : Derives .expr vs B) :
    ∃ ts, Lexes ("let " ++ x ++ "=" ++ a ++ " in " ++ b) ts ∧
      Derives .expr ts (.letIn x (A.behind ("let " ++ x ++ "="))
        (B.behind ("let " ++ x ++ "=" ++ a ++ " in ")) .origin) := by
  have hlet : Lexes "let " [⟨.letKw, .origin⟩] :=
    lexes_lexeme "" .letKw " " (by simp) rfl (by simp) (by simp [isBlank])
  have hequal : Lexes "=" [⟨.equal, .origin⟩] :=
    lexes_lexeme "" .equal "" (by simp) rfl (by simp) (by simp)
  have hin : Lexes " in " [⟨.inKw, ⟨1, 2⟩⟩] :=
    lexes_lexeme " " .inKw " " (by simp) rfl (by simp [isBlank]) (by simp [isBlank])
  have hfront := (hlet.append (lexes_ident hx) (parted_of_last rfl (by decide))).append hequal
    (parted_of_head rfl (by decide))
  have hbound := (hfront.append ha (parted_of_last_append rfl (by decide))).append hin
    (parted_of_head rfl (by decide))
  have hwhole := hbound.append hb (parted_of_last_append rfl (by decide))
  refine ⟨_, hwhole, ?_⟩
  simp only [List.append_assoc]
  exact .letIn (hA.mapPos _) (hB.mapPos _)

end

/-- **Composition.** Programs in parentheses, beside each other in parentheses, behind an arrow
and in a `let` keep their trees. Each node moves with the text it stands in: on the first line
of a part by what stands in front of the part there, on later lines by whole lines only. The
new `let` or `fun` stands at the origin, and the new application where its function is moved. -/
theorem parse_composes {l₁ l₂ : Option Nat} {a b x : String} {A B : Expr}
    (ha : parseWithin l₁ a = .ok A) (hb : parseWithin l₂ b = .ok B) (hx : isIdent x = true)
    (limit : Option Nat) :
    (Shallow limit ("(" ++ a ++ ")") →
      parseWithin limit ("(" ++ a ++ ")") = .ok (A.behind "(")) ∧
    (Shallow limit ("(" ++ a ++ ")(" ++ b ++ ")") →
      parseWithin limit ("(" ++ a ++ ")(" ++ b ++ ")") =
        .ok (.app (A.behind "(") (B.behind ("(" ++ a ++ ")(")) (A.behind "(").pos)) ∧
    (Shallow limit ("fun " ++ x ++ "->" ++ a) →
      parseWithin limit ("fun " ++ x ++ "->" ++ a) =
        .ok (.lam x (A.behind ("fun " ++ x ++ "->")) .origin)) ∧
    (Shallow limit ("let " ++ x ++ "=" ++ a ++ " in " ++ b) →
      parseWithin limit ("let " ++ x ++ "=" ++ a ++ " in " ++ b) =
        .ok (.letIn x (A.behind ("let " ++ x ++ "="))
          (B.behind ("let " ++ x ++ "=" ++ a ++ " in ")) .origin)) := by
  obtain ⟨us, hus, hA⟩ := lexes_of_parse ha
  obtain ⟨vs, hvs, hB⟩ := lexes_of_parse hb
  refine ⟨fun hs => ?_, fun hs => ?_, fun hs => ?_, fun hs => ?_⟩
  · obtain ⟨ts, hts, hd⟩ := lexes_paren hus hA
    exact parse_of_lexes hs hts hd
  · obtain ⟨ts, hts, hd⟩ := lexes_app hus hA hvs hB
    exact parse_of_lexes hs hts hd
  · obtain ⟨ts, hts, hd⟩ := lexes_lam hx hus hA
    exact parse_of_lexes hs hts hd
  · obtain ⟨ts, hts, hd⟩ := lexes_letIn hx hus hA hvs hB
    exact parse_of_lexes hs hts hd

/-- What stands on a further line of a part keeps its column. -/
theorem parse_composes_lines :
    parse "f\n Nil" = .ok (.app (.var "f" ⟨1, 1⟩) (.con "Nil" ⟨2, 2⟩) ⟨1, 1⟩) ∧
      parse "y" = .ok (.var "y" ⟨1, 1⟩) ∧ isIdent "x" = true ∧
      parse "(f\n Nil)" = .ok (.app (.var "f" ⟨1, 2⟩) (.con "Nil" ⟨2, 2⟩) ⟨1, 2⟩) ∧
      parse "(f\n Nil)(y)" = .ok (.app (.app (.var "f" ⟨1, 2⟩) (.con "Nil" ⟨2, 2⟩) ⟨1, 2⟩)
        (.var "y" ⟨2, 7⟩) ⟨1, 2⟩) ∧
      parse "fun x->f\n Nil" =
        .ok (.lam "x" (.app (.var "f" ⟨1, 8⟩) (.con "Nil" ⟨2, 2⟩) ⟨1, 8⟩) ⟨1, 1⟩) ∧
      parse "let x=f\n Nil in y" =
        .ok (.letIn "x" (.app (.var "f" ⟨1, 7⟩) (.con "Nil" ⟨2, 2⟩) ⟨1, 7⟩) (.var "y" ⟨2, 9⟩)
          ⟨1, 1⟩) := by
  have hshallow : ∀ text ∈ ["f\n Nil", "y", "(f\n Nil)", "(f\n Nil)(y)", "fun x->f\n Nil",
      "let x=f\n Nil in y"], Shallow (some nestingLimit) text := by
    have hwithin : ∀ text ∈ ["f\n Nil", "y", "(f\n Nil)", "(f\n Nil)(y)", "fun x->f\n Nil",
        "let x=f\n Nil in y"], Parse.within (some nestingLimit) Parse.start (scans text).tokens := by
      decide +kernel
    exact fun text ht => shallow_of_within (hwithin text ht)
  have hfNil : Lexes "f\n Nil" [⟨.ident "f", ⟨1, 1⟩⟩, ⟨.con "Nil", ⟨2, 2⟩⟩] :=
    (lexes_lexeme "" (.ident "f") "" (by simp) (by decide) (by simp) (by simp)).append
      (lexes_lexeme "\n " (.con "Nil") "" (by simp) (by decide) (by simp [isBlank]) (by simp))
      (parted_of_head rfl (by decide))
  have ha : parse "f\n Nil" = .ok (.app (.var "f" ⟨1, 1⟩) (.con "Nil" ⟨2, 2⟩) ⟨1, 1⟩) :=
    parse_of_lexes (hshallow _ (by simp)) hfNil (.run (.apply (.single .ident) .con))
  have hx : isIdent "x" = true := by decide
  have hb : parse "y" = .ok (.var "y" ⟨1, 1⟩) :=
    parse_of_lexes (hshallow _ (by simp)) (lexes_ident (by decide)) (.run (.single .ident))
  obtain ⟨hparen, happ, hlam, hlet⟩ := parse_composes ha hb hx (some nestingLimit)
  exact ⟨ha, hb, hx, hparen (hshallow _ (by simp)), happ (hshallow _ (by simp)),
    hlam (hshallow _ (by simp)), hlet (hshallow _ (by simp))⟩

end LetFun
