import LetFun.Names
import LetFun.Expr.Print
import LetFun.Proofs.Draft.WellTagged
/-!
# The names in a tree

A variable and a constructor have a name, a `let` and a `fun` the name they bind.
A name is plain if it has neither of the two characters that mean something inside
a view whatever stands around them: the newline, and the backslash.

Results:
* `Draft.names_ofExpr`: an expression has the same names as a draft.
* `Expr.plain_of_legal`: names that can be met in a text are plain.
-/
namespace LetFun

/-- No newline and no backslash is in the text. -/
def Text.Plain (s : String) : Prop := '\n' ∉ s.toList ∧ '\\' ∉ s.toList

instance (s : String) : Decidable (Text.Plain s) :=
  inferInstanceAs (Decidable ('\n' ∉ s.toList ∧ '\\' ∉ s.toList))

namespace Expr

/-- The names in a tree, in pre-order. -/
def names : Expr → List String
  | var x _ | con x _ => [x]
  | letIn x b e _ => x :: (b.names ++ e.names)
  | lam x e _ => x :: e.names
  | app f a _ => f.names ++ a.names

/-- Every name is plain. -/
def Plain (e : Expr) : Prop := ∀ x ∈ e.names, Text.Plain x

theorem isName_of_legal {e : Expr} (h : e.legal = true) :
    ∀ x ∈ e.names, isIdent x = true ∨ isCon x = true := by
  induction e with
  | var x p => exact List.forall_mem_singleton.2 (.inl h)
  | con c p => exact List.forall_mem_singleton.2 (.inr h)
  | letIn x b e p ihb ihe =>
    simp only [legal, Bool.and_eq_true] at h
    exact List.forall_mem_cons.2
      ⟨.inl h.1.1, List.forall_mem_append.2 ⟨ihb h.1.2, ihe h.2⟩⟩
  | lam x e p ih =>
    simp only [legal, Bool.and_eq_true] at h
    exact List.forall_mem_cons.2 ⟨.inl h.1, ih h.2⟩
  | app f a p ihf iha =>
    simp only [legal, Bool.and_eq_true] at h
    exact List.forall_mem_append.2 ⟨ihf h.1, iha h.2⟩

end Expr

theorem isNameChar_of_mem_name {x : String} (h : isIdent x = true ∨ isCon x = true) :
    ∀ c ∈ x.toList, isNameChar c = true := by
  rcases h with h | h
  · obtain ⟨c, cs, hx, hc, hcs, -⟩ := isIdent_iff.1 h
    exact hx ▸ List.forall_mem_cons.2 ⟨isNameChar_of_isWordStart hc, hcs⟩
  · obtain ⟨c, cs, hx, hc, hcs⟩ := isCon_iff.1 h
    exact hx ▸ List.forall_mem_cons.2 ⟨isNameChar_of_isUpper hc, hcs⟩

theorem Expr.plain_of_legal {e : Expr} (h : e.legal = true) : e.Plain := by
  intro x hx
  have hchars := isNameChar_of_mem_name (isName_of_legal h x hx)
  exact ⟨fun hc => absurd (hchars _ hc) (by decide), fun hc => absurd (hchars _ hc) (by decide)⟩

namespace Draft

/-- The names in a draft, in pre-order. -/
def names (d : Draft) : List String := d.nodes.filterMap fun n => n.name?.or n.param?

/-- Every name is plain. -/
def Plain (d : Draft) : Prop := ∀ x ∈ d.names, Text.Plain x

instance (d : Draft) : Decidable d.Plain :=
  inferInstanceAs (Decidable (∀ x ∈ d.names, Text.Plain x))

theorem names_ofExpr (e : Expr) : (ofExpr e).names = e.names := by
  induction e with
  | var | con => rfl
  | letIn x b e p ihb ihe =>
    rw [Expr.names, ← ihb, ← ihe, names, names, names, ← List.filterMap_append]
    rfl
  | lam x e p ih =>
    rw [Expr.names, ← ih]
    rfl
  | app f a p ihf iha =>
    rw [Expr.names, ← ihf, ← iha, names, names, names, ← List.filterMap_append]
    rfl

theorem plain_ofExpr {e : Expr} : (ofExpr e).Plain ↔ e.Plain := by
  rw [Plain, names_ofExpr, Expr.Plain]

end Draft
end LetFun
