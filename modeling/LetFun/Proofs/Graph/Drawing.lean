import LetFun.Proofs.Draft.Names
import LetFun.Proofs.Text.Delimited
/-!
# Reading a drawing

The statements of a drawing come node by node in pre-order, and right behind each
node are the arrows to its children.  So the arrows tell how many subtrees follow,
and the statements are those of one outline only.  A statement is one line, in
which numbers end at a blank; a label with a blank in it is in quotes, and with no
backslashes in it an escaped quote can be meant only as a quote.

Results:
* `Statement.line_inj`: a statement with a plain label is told by its line.
* `Outline.statements_inj`: an outline is told by its statements.
* `Expr.dot_eq_iff`: drawings are equal exactly if the trees are, up to positions.
-/
namespace LetFun

open Text

/-! ## Labels -/

theorem mem_escapeLabel {c : Char} (hc : c ≠ '\\') (slashes : Nat) (cs : List Char) :
    c ∈ escapeLabel slashes cs ↔ c ∈ cs := by
  fun_induction escapeLabel slashes cs with
  | case1 => simp [hc]
  | case2 slashes cs ih => simp [ih, hc]
  | case3 slashes cs _ ih => simp [ih, hc]
  | case4 slashes d cs _ _ ih => simp [ih, hc]

theorem escapeLabel_cons {c : Char} (hc : c ≠ '\\') (cs : List Char) :
    escapeLabel 0 (c :: cs) = (if c = '"' then ['\\', '"'] else [c]) ++ escapeLabel 0 cs := by
  rw [escapeLabel, if_neg hc]
  split <;> rfl

theorem escapeLabel_inj {cs cs' : List Char} (h : '\\' ∉ cs) (h' : '\\' ∉ cs')
    (heq : escapeLabel 0 cs = escapeLabel 0 cs') : cs = cs' := by
  induction cs generalizing cs' with
  | nil =>
    cases cs' with
    | nil => rfl
    | cons c' cs' =>
      rw [List.mem_cons, not_or] at h'
      rw [escapeLabel_cons (Ne.symm h'.1)] at heq
      split at heq <;> cases heq
  | cons c cs ih =>
    rw [List.mem_cons, not_or] at h
    cases cs' with
    | nil =>
      rw [escapeLabel_cons (Ne.symm h.1)] at heq
      split at heq <;> cases heq
    | cons c' cs' =>
      rw [List.mem_cons, not_or] at h'
      rw [escapeLabel_cons (Ne.symm h.1), escapeLabel_cons (Ne.symm h'.1)] at heq
      split at heq
      · split at heq
        · next hc hc' =>
          rw [hc, hc', ih h.2 h'.2 (List.append_cancel_left heq)]
        · exact absurd (List.head_eq_of_cons_eq heq) h'.1
      · split at heq
        · exact absurd (List.head_eq_of_cons_eq heq).symm h.1
        · obtain ⟨rfl, ht⟩ := List.cons_eq_cons.1 heq
          rw [ih h.2 h'.2 ht]

theorem toList_writeLabel (l : String) :
    (writeLabel l).toList =
      if ' ' ∈ l.toList then '"' :: escapeLabel 0 l.toList ++ ['"'] else l.toList := by
  simp only [writeLabel, List.contains_iff_mem]
  split <;> simp

theorem mem_writeLabel {c : Char} (hslash : c ≠ '\\') (hquote : c ≠ '"') (l : String) :
    c ∈ (writeLabel l).toList ↔ c ∈ l.toList := by
  rw [toList_writeLabel]
  split
  · simp [mem_escapeLabel hslash, hquote]
  · rfl

theorem writeLabel_inj {l l' : String} (h : '\\' ∉ l.toList) (h' : '\\' ∉ l'.toList)
    (heq : (writeLabel l).toList = (writeLabel l').toList) : l = l' := by
  have hblank : ' ' ∈ l.toList ↔ ' ' ∈ l'.toList := by
    rw [← mem_writeLabel (by decide) (by decide), heq, mem_writeLabel (by decide) (by decide)]
  rw [toList_writeLabel, toList_writeLabel] at heq
  by_cases hb : ' ' ∈ l.toList
  · rw [if_pos hb, if_pos (hblank.1 hb)] at heq
    have hescaped := List.append_cancel_right (List.tail_eq_of_cons_eq heq)
    exact String.toList_inj.1 (escapeLabel_inj h h' hescaped)
  · rw [if_neg hb, if_neg (mt hblank.2 hb)] at heq
    exact String.toList_inj.1 heq

/-! ## Statements -/

namespace Statement

def label : Statement → String
  | node _ l | edge _ _ l => l

/-- The line of a statement, without its newline. -/
def line : Statement → List Char
  | node id l =>
    "\tn".toList ++ ((toString id).toList ++ ' ' :: ("[label=".toList ++ (writeLabel l).toList ++ [']']))
  | edge s t l =>
    "\tn".toList ++ ((toString s).toList ++ ' ' :: ("-> n".toList ++ ((toString t).toList ++
      ' ' :: ("[label=".toList ++ (writeLabel l).toList ++ [']']))))

theorem toList_text (s : Statement) : s.text.toList = s.line ++ ['\n'] := by
  cases s with
  | node id l => simp [text, line, labelAttribute]
  | edge s t l => simp [text, line, labelAttribute]

theorem newline_not_mem_line {s : Statement} (h : Plain s.label) : '\n' ∉ s.line := by
  have hdigits (n : Nat) : '\n' ∉ (toString n).toList := not_mem_toString (by decide) n
  have hlabel : '\n' ∉ (writeLabel s.label).toList :=
    mt (mem_writeLabel (by decide) (by decide) _).1 h.1
  cases s with
  | node id l =>
    simp only [label] at hlabel
    simp [line, hlabel, hdigits, -Nat.toString_eq_repr]
  | edge s t l =>
    simp only [label] at hlabel
    simp [line, hlabel, hdigits, -Nat.toString_eq_repr]

/-- A number ends at the blank behind it. -/
theorem number_append_inj {n n' : Nat} {cs cs' : List Char}
    (h : (toString n).toList ++ ' ' :: cs = (toString n').toList ++ ' ' :: cs') :
    n = n' ∧ cs = cs' := by
  have hblank (n : Nat) : ' ' ∉ (toString n).toList := not_mem_toString (by decide) n
  obtain ⟨hn, rfl⟩ := append_cons_inj (hblank n) (hblank n') h
  exact ⟨toString_inj hn, rfl⟩

theorem line_inj {s s' : Statement} (h : Plain s.label) (h' : Plain s'.label) (heq : s.line = s'.line) :
    s = s' := by
  cases s with
  | node id l =>
    cases s' with
    | node id' l' =>
      obtain ⟨rfl, hl⟩ := number_append_inj (List.append_cancel_left heq)
      have hlabel : l = l' :=
        writeLabel_inj h.2 h'.2 (List.append_cancel_left (List.append_cancel_right hl))
      rw [hlabel]
    | edge s' t' l' =>
      obtain ⟨-, hl⟩ := number_append_inj (List.append_cancel_left heq)
      cases hl
  | edge s t l =>
    cases s' with
    | node id' l' =>
      obtain ⟨-, hl⟩ := number_append_inj (List.append_cancel_left heq)
      cases hl
    | edge s' t' l' =>
      obtain ⟨rfl, hs⟩ := number_append_inj (List.append_cancel_left heq)
      obtain ⟨rfl, hl⟩ := number_append_inj (List.append_cancel_left hs)
      have hlabel : l = l' :=
        writeLabel_inj h.2 h'.2 (List.append_cancel_left (List.append_cancel_right hl))
      rw [hlabel]

/-- Statements with plain labels are told by their lines. -/
theorem eq_of_lines {ss ss' : List Statement} (h : ∀ s ∈ ss, Plain s.label)
    (h' : ∀ s ∈ ss', Plain s.label) (heq : unlines (ss.map line) = unlines (ss'.map line)) :
    ss = ss' := by
  have hlines : ss.map line = ss'.map line :=
    unlines_injective (List.forall_mem_map.2 fun s hs => newline_not_mem_line (h s hs))
      (List.forall_mem_map.2 fun s hs => newline_not_mem_line (h' s hs)) heq
  clear heq
  induction ss generalizing ss' with
  | nil => exact (List.map_eq_nil_iff.1 hlines.symm).symm
  | cons s ss ih =>
    cases ss' with
    | nil => cases hlines
    | cons s' ss' =>
      rw [List.forall_mem_cons] at h h'
      obtain ⟨hs, hss⟩ := List.cons_eq_cons.1 hlines
      rw [line_inj h.1 h'.1 hs, ih h.2 h'.2 hss]

end Statement

/-! ## Outlines -/

namespace Outline

/-- The number of arrows, one for each node but the root. -/
def arrows : Outline → Nat
  | leaf _ => 0
  | one _ _ c => 1 + c.arrows
  | two _ _ c₁ _ c₂ => 2 + c₁.arrows + c₂.arrows

/-- The statements that draw an outline whose root has the number `id`, if `n` is the last number
used. -/
def drawn : Outline → Nat → Nat → List Statement
  | leaf l, id, _ => [.node id l]
  | one l r c, id, n => .node id l :: .edge id (n + 1) r :: c.drawn (n + 1) (n + 1)
  | two l r₁ c₁ r₂ c₂, id, n =>
    .node id l :: .edge id (n + 1) r₁ :: .edge id (n + 2) r₂ ::
      (c₁.drawn (n + 1) (n + 2) ++ c₂.drawn (n + 2) (n + 2 + c₁.arrows))

theorem draw_eq (o : Outline) (id n : Nat) (ss : List Statement) :
    o.draw id (n, ss) = (n + o.arrows, (o.drawn id n).reverse ++ ss) := by
  induction o generalizing id n ss with
  | leaf l => rfl
  | one l r c ih => simp [draw, ih, arrows, drawn, Nat.add_assoc]
  | two l r₁ c₁ r₂ c₂ ih₁ ih₂ => simp [draw, ih₁, ih₂, arrows, drawn, Nat.add_assoc]

theorem statements_eq (o : Outline) : o.statements = o.drawn 0 0 := by
  simp [statements, draw_eq]

/-- The statements do not begin with an arrow. -/
def NoEdge (ss : List Statement) : Prop := ∀ s t l, ss.head? ≠ some (.edge s t l)

theorem noEdge_drawn (o : Outline) (id n : Nat) (ss : List Statement) :
    NoEdge (o.drawn id n ++ ss) := by
  cases o <;> exact nofun

/-- Whatever numbers it has and whatever follows it, an outline is told by its statements. -/
theorem drawn_inj {o o' : Outline} {id n id' n' : Nat} {ss ss' : List Statement}
    (hss : NoEdge ss) (hss' : NoEdge ss') (h : o.drawn id n ++ ss = o'.drawn id' n' ++ ss') :
    o = o' ∧ ss = ss' := by
  induction o generalizing o' id n id' n' ss ss' with
  | leaf l =>
    cases o' with
    | leaf l' =>
      cases h
      exact ⟨rfl, rfl⟩
    | _ =>
      cases h
      exact absurd rfl (hss _ _ _)
  | one l r c ih =>
    cases o' with
    | leaf l' =>
      cases h
      exact absurd rfl (hss' _ _ _)
    | one l' r' c' =>
      simp only [drawn, List.cons_append, List.cons.injEq, Statement.node.injEq,
        Statement.edge.injEq] at h
      obtain ⟨⟨-, rfl⟩, ⟨-, -, rfl⟩, h⟩ := h
      obtain ⟨rfl, rfl⟩ := ih hss hss' h
      exact ⟨rfl, rfl⟩
    | two l' r₁' c₁' r₂' c₂' =>
      -- a second arrow stands where the child begins, and a child begins with a box
      simp only [drawn, List.cons_append, List.cons.injEq] at h
      exact absurd (congrArg List.head? h.2.2) (noEdge_drawn _ _ _ _ _ _ _)
  | two l r₁ c₁ r₂ c₂ ih₁ ih₂ =>
    cases o' with
    | leaf l' =>
      cases h
      exact absurd rfl (hss' _ _ _)
    | one l' r' c' =>
      simp only [drawn, List.cons_append, List.cons.injEq] at h
      exact absurd (congrArg List.head? h.2.2).symm (noEdge_drawn _ _ _ _ _ _ _)
    | two l' r₁' c₁' r₂' c₂' =>
      simp only [drawn, List.cons_append, List.append_assoc, List.cons.injEq, Statement.node.injEq,
        Statement.edge.injEq] at h
      obtain ⟨⟨-, rfl⟩, ⟨-, -, rfl⟩, ⟨-, -, rfl⟩, h⟩ := h
      obtain ⟨rfl, h⟩ := ih₁ (noEdge_drawn _ _ _ _) (noEdge_drawn _ _ _ _) h
      obtain ⟨rfl, rfl⟩ := ih₂ hss hss' h
      exact ⟨rfl, rfl⟩

theorem statements_inj {o o' : Outline} (h : o.statements = o'.statements) : o = o' := by
  rw [statements_eq, statements_eq] at h
  have hnil : NoEdge [] := nofun
  exact (drawn_inj hnil hnil (by simpa using h)).1

/-- The statements stand between a heading and a closing brace, which are always the same. -/
theorem unlines_of_dot {o o' : Outline} (h : o.dot = o'.dot) :
    unlines (o.statements.map Statement.line) = unlines (o'.statements.map Statement.line) := by
  have hlines (o : Outline) : unlines (o.statements.map Statement.line) =
      (String.join (o.statements.map Statement.text)).toList := by
    simp only [unlines, String.toList_join, List.flatMap_map, Statement.toList_text]
  have hjoin : String.join (o.statements.map Statement.text) =
      String.join (o'.statements.map Statement.text) :=
    (String.append_right_inj _).1 ((String.append_left_inj _).1 h)
  rw [hlines, hlines, hjoin]

end Outline

/-! ## Trees -/

namespace ExprKind

/-- The name of a form is plain itself. -/
theorem plain_drawn (kind : ExprKind) {x : String} (h : Plain x) : Plain (kind.drawn x) := by
  cases kind <;> simp_all [Plain, drawn]

theorem drawn_inj {kind kind' : ExprKind} {x x' : String} (h : kind.drawn x = kind'.drawn x')
    (hkind : kind ≠ app) (hkind' : kind' ≠ app) : kind = kind' ∧ x = x' := by
  have hchars := congrArg String.toList h
  cases kind <;> cases kind' <;>
    first
    | exact absurd rfl hkind
    | exact absurd rfl hkind'
    | exact ⟨rfl, by simpa [drawn] using h⟩
    | simp [drawn] at hchars

end ExprKind

namespace Expr

theorem outline_mapPos (f : Pos → Pos) (e : Expr) : (e.mapPos f).outline = e.outline := by
  induction e with
  | var | con => rfl
  | letIn x b e p ihb ihe => simp only [mapPos, outline, ihb, ihe]
  | lam x e p ih => simp only [mapPos, outline, ih]
  | app g a p ihg iha => simp only [mapPos, outline, ihg, iha]

theorem strip_eq_of_outline {e e' : Expr} (h : e.outline = e'.outline) : e.strip = e'.strip := by
  induction e generalizing e' with
  | var x p =>
    cases e' with
    | var x' p' =>
      have hx : ExprKind.var.drawn x = ExprKind.var.drawn x' := Outline.leaf.inj h
      rw [(ExprKind.drawn_inj hx (by decide) (by decide)).2]
      rfl
    | con c' p' =>
      have hx : ExprKind.var.drawn x = ExprKind.con.drawn c' := Outline.leaf.inj h
      cases (ExprKind.drawn_inj hx (by decide) (by decide)).1
    | _ => cases h
  | con c p =>
    cases e' with
    | var x' p' =>
      have hc : ExprKind.con.drawn c = ExprKind.var.drawn x' := Outline.leaf.inj h
      cases (ExprKind.drawn_inj hc (by decide) (by decide)).1
    | con c' p' =>
      have hc : ExprKind.con.drawn c = ExprKind.con.drawn c' := Outline.leaf.inj h
      rw [(ExprKind.drawn_inj hc (by decide) (by decide)).2]
      rfl
    | _ => cases h
  | letIn x b e p ihb ihe =>
    cases e' with
    | letIn x' b' e' p' =>
      obtain ⟨hx, -, hb, -, he⟩ := Outline.two.inj h
      obtain ⟨-, rfl⟩ := ExprKind.drawn_inj hx (by decide) (by decide)
      exact strip_letIn (ihb hb) (ihe he)
    | app f' a' p' => exact absurd (Outline.two.inj h).2.1 (by decide)
    | _ => cases h
  | lam x e p ih =>
    cases e' with
    | lam x' e' p' =>
      obtain ⟨hx, -, he⟩ := Outline.one.inj h
      obtain ⟨-, rfl⟩ := ExprKind.drawn_inj hx (by decide) (by decide)
      exact strip_lam (ih he)
    | _ => cases h
  | app f a p ihf iha =>
    cases e' with
    | letIn x' b' e' p' => exact absurd (Outline.two.inj h).2.1 (by decide)
    | app f' a' p' =>
      obtain ⟨-, -, hf, -, ha⟩ := Outline.two.inj h
      exact strip_app (ihf hf) (iha ha)
    | _ => cases h

theorem outline_eq_iff {e e' : Expr} : e.outline = e'.outline ↔ e.strip = e'.strip := by
  constructor
  · exact strip_eq_of_outline
  · intro h
    have hstrip (e : Expr) : e.strip.outline = e.outline := outline_mapPos _ e
    rw [← hstrip e, h, hstrip]

theorem plain_label {e : Expr} (h : e.Plain) (id n : Nat) :
    ∀ s ∈ e.outline.drawn id n, Text.Plain s.label := by
  induction e generalizing id n with
  | var x p =>
    exact List.forall_mem_singleton.2 (ExprKind.var.plain_drawn (h x List.mem_cons_self))
  | con c p =>
    exact List.forall_mem_singleton.2 (ExprKind.con.plain_drawn (h c List.mem_cons_self))
  | letIn x b e p ihb ihe =>
    obtain ⟨hx, hrest⟩ := List.forall_mem_cons.1 h
    obtain ⟨hb, he⟩ := List.forall_mem_append.1 hrest
    simp only [outline, Outline.drawn, List.forall_mem_cons, List.forall_mem_append, Statement.label]
    exact ⟨ExprKind.letIn.plain_drawn hx, by decide, by decide, ihb hb _ _, ihe he _ _⟩
  | lam x e p ih =>
    obtain ⟨hx, he⟩ := List.forall_mem_cons.1 h
    simp only [outline, Outline.drawn, List.forall_mem_cons, Statement.label]
    exact ⟨ExprKind.lam.plain_drawn hx, by decide, ih he _ _⟩
  | app f a p ihf iha =>
    obtain ⟨hf, ha⟩ := List.forall_mem_append.1 h
    simp only [outline, Outline.drawn, List.forall_mem_cons, List.forall_mem_append, Statement.label]
    exact ⟨by decide, by decide, by decide, ihf hf _ _, iha ha _ _⟩

/-- Drawings are equal exactly if the trees are, up to positions. -/
theorem dot_eq_iff {e e' : Expr} (he : e.Plain) (he' : e'.Plain) :
    e.dot = e'.dot ↔ e.strip = e'.strip := by
  rw [← outline_eq_iff]
  constructor
  · intro h
    have hplain := plain_label he 0 0
    have hplain' := plain_label he' 0 0
    rw [← Outline.statements_eq] at hplain hplain'
    exact Outline.statements_inj (Statement.eq_of_lines hplain hplain' (Outline.unlines_of_dot h))
  · exact fun h => congrArg Outline.dot h

end Expr
end LetFun
