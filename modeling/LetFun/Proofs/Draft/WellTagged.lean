import LetFun.Draft
/-!
# Drafts without a wrong tag

A draft all of whose nodes carry the tag of their form is an expression, and what
is made of the draft is what is made of the expression.

Results:
* `WellTagged.exists_expr`: a well-tagged draft is an expression.
* `table?_ofExpr`, `dot?_ofExpr`: an expression has a table and a drawing also as a draft.
* `same_ofExpr`: expressions are the same as drafts exactly if they are as expressions.
-/
namespace LetFun

namespace Expr

theorem mapPos_mapPos (f g : Pos → Pos) (e : Expr) : (e.mapPos f).mapPos g = e.mapPos (g ∘ f) := by
  induction e with
  | var | con => rfl
  | letIn x b e p ihb ihe => simp [mapPos, ihb, ihe]
  | lam x e p ih => simp [mapPos, ih]
  | app h a p ihh iha => simp [mapPos, ihh, iha]

theorem mapPos_id (e : Expr) : e.mapPos id = e := by
  induction e with
  | var | con => rfl
  | letIn x b e p ihb ihe => simp [mapPos, ihb, ihe]
  | lam x e p ih => simp [mapPos, ih]
  | app f a p ihf iha => simp [mapPos, ihf, iha]

theorem strip_strip (e : Expr) : e.strip.strip = e.strip := mapPos_mapPos _ _ e

end Expr

namespace Draft

variable {t : Option ExprKind} {x : String} {p : Pos} {b e f a : Draft}

/-- Every node has the tag of its form. -/
def WellTagged (d : Draft) : Prop := ∀ n ∈ d.nodes, n.isWellTagged = true

instance (d : Draft) : Decidable d.WellTagged :=
  inferInstanceAs (Decidable (∀ n ∈ d.nodes, n.isWellTagged = true))

theorem isWellTagged_iff {d : Draft} :
    d.isWellTagged = true ↔ d.form.isSome = true ∧ d.tag = d.form := by
  simp [isWellTagged]

theorem not_wellTagged_bare : ¬(bare t p).WellTagged := by
  simp [WellTagged, nodes, isWellTagged, form]

theorem wellTagged_var : (var t x p).WellTagged ↔ t = some .var := by
  simp [WellTagged, nodes, isWellTagged_iff, form, tag]

theorem wellTagged_con : (con t x p).WellTagged ↔ t = some .con := by
  simp [WellTagged, nodes, isWellTagged_iff, form, tag]

theorem wellTagged_letIn :
    (letIn t x b e p).WellTagged ↔ t = some .letIn ∧ b.WellTagged ∧ e.WellTagged := by
  have htag : (letIn t x b e p).isWellTagged = true ↔ t = some .letIn := by
    simp [isWellTagged_iff, form, tag]
  simp only [WellTagged, nodes, List.cons_append, List.forall_mem_cons, List.forall_mem_append, htag]

theorem wellTagged_lam : (lam t x e p).WellTagged ↔ t = some .lam ∧ e.WellTagged := by
  have htag : (lam t x e p).isWellTagged = true ↔ t = some .lam := by
    simp [isWellTagged_iff, form, tag]
  simp only [WellTagged, nodes, List.forall_mem_cons, htag]

theorem wellTagged_app :
    (app t f a p).WellTagged ↔ t = some .app ∧ f.WellTagged ∧ a.WellTagged := by
  have htag : (app t f a p).isWellTagged = true ↔ t = some .app := by
    simp [isWellTagged_iff, form, tag]
  simp only [WellTagged, nodes, List.cons_append, List.forall_mem_cons, List.forall_mem_append, htag]

theorem wellTagged_ofExpr (e : Expr) : (ofExpr e).WellTagged := by
  induction e with
  | var => exact wellTagged_var.2 rfl
  | con => exact wellTagged_con.2 rfl
  | letIn x b e p ihb ihe => exact wellTagged_letIn.2 ⟨rfl, ihb, ihe⟩
  | lam x e p ih => exact wellTagged_lam.2 ⟨rfl, ih⟩
  | app f a p ihf iha => exact wellTagged_app.2 ⟨rfl, ihf, iha⟩

theorem WellTagged.exists_expr {d : Draft} (h : d.WellTagged) : ∃ e, d = ofExpr e := by
  induction d with
  | bare t p => exact absurd h not_wellTagged_bare
  | var t x p =>
    obtain rfl := wellTagged_var.1 h
    exact ⟨.var x p, rfl⟩
  | con t c p =>
    obtain rfl := wellTagged_con.1 h
    exact ⟨.con c p, rfl⟩
  | letIn t x b e p ihb ihe =>
    obtain ⟨rfl, hb, he⟩ := wellTagged_letIn.1 h
    obtain ⟨b, rfl⟩ := ihb hb
    obtain ⟨e, rfl⟩ := ihe he
    exact ⟨.letIn x b e p, rfl⟩
  | lam t x e p ih =>
    obtain ⟨rfl, he⟩ := wellTagged_lam.1 h
    obtain ⟨e, rfl⟩ := ih he
    exact ⟨.lam x e p, rfl⟩
  | app t f a p ihf iha =>
    obtain ⟨rfl, hf, ha⟩ := wellTagged_app.1 h
    obtain ⟨f, rfl⟩ := ihf hf
    obtain ⟨a, rfl⟩ := iha ha
    exact ⟨.app f a p, rfl⟩

/-! ## An expression as a draft -/

theorem length_nodes_ofExpr (e : Expr) : (ofExpr e).nodes.length = e.size := by
  induction e with
  | var | con => rfl
  | letIn x b e p ihb ihe => simp [ofExpr, nodes, Expr.size, ihb, ihe]; omega
  | lam x e p ih => simp [ofExpr, nodes, Expr.size, ih]; omega
  | app f a p ihf iha => simp [ofExpr, nodes, Expr.size, ihf, iha]; omega

theorem table?_ofExpr (positions : Bool) (e : Expr) :
    (ofExpr e).table? positions = .ok (Table.ofExpr positions e) := by
  simp [table?, toExpr?_ofExpr, Functor.map, Except.map]

theorem outline?_ofExpr (e : Expr) : (ofExpr e).outline? = .ok e.outline := by
  induction e with
  | var | con => rfl
  | letIn x b e p ihb ihe =>
    have hl : (ofExpr (.letIn x b e p)).label? = .ok (ExprKind.letIn.drawn x) := rfl
    simp only [ofExpr, outline?] at hl ⊢
    simp [hl, ihb, ihe, Expr.outline, bind, Except.bind, pure, Except.pure]
  | lam x e p ih =>
    have hl : (ofExpr (.lam x e p)).label? = .ok (ExprKind.lam.drawn x) := rfl
    simp only [ofExpr, outline?] at hl ⊢
    simp [hl, ih, Expr.outline, bind, Except.bind, pure, Except.pure]
  | app f a p ihf iha =>
    have hl : (ofExpr (.app f a p)).label? = .ok (ExprKind.app.drawn "") := rfl
    simp only [ofExpr, outline?] at hl ⊢
    simp [hl, ihf, iha, Expr.outline, bind, Except.bind, pure, Except.pure]

theorem dot?_ofExpr (e : Expr) : (ofExpr e).dot? = .ok e.dot := by
  simp [dot?, outline?_ofExpr, Functor.map, Except.map, Expr.dot]

theorem ofExpr_injective {e e' : Expr} (h : ofExpr e = ofExpr e') : e = e' := by
  have ht := congrArg toExpr? h
  rw [toExpr?_ofExpr, toExpr?_ofExpr] at ht
  exact Except.ok.inj ht

theorem mapPos_ofExpr (f : Pos → Pos) (e : Expr) : (ofExpr e).mapPos f = ofExpr (e.mapPos f) := by
  induction e with
  | var | con => rfl
  | letIn x b e p ihb ihe => simp [ofExpr, mapPos, Expr.mapPos, ihb, ihe]
  | lam x e p ih => simp [ofExpr, mapPos, Expr.mapPos, ih]
  | app g a p ihg iha => simp [ofExpr, mapPos, Expr.mapPos, ihg, iha]

theorem same_ofExpr {e e' : Expr} :
    (ofExpr e).same (ofExpr e') = true ↔ e.strip = e'.strip := by
  simp only [same, mapPos_ofExpr, decide_eq_true_eq]
  exact ⟨ofExpr_injective, congrArg ofExpr⟩

end Draft
end LetFun
