import LetFun.Proofs.Expr.RoundTrip
import LetFun.Proofs.Graph.Drawing
import LetFun.Proofs.Table.Listing
/-!
# Views of a tree

A tree is shown in two ways, by a listing of its table and by a drawing.  Neither
shows positions, and neither loses anything else as long as the names are plain,
which those of a parsed tree are.

Results:
* `views_tell_trees`: both views are equal exactly if the trees are.
-/
namespace LetFun.Draft

/-- **What the views tell.** Of two drafts without a wrong tag, whose names have no newline and no
backslash, the listings are equal exactly if the drafts are the same, and so are the drawings. The
trees that are parsed are of this kind. -/
theorem views_tell_trees :
    (∀ d d' : Draft, d.WellTagged → d'.WellTagged → d.Plain → d'.Plain →
      ∃ t t' s s', d.table? false = .ok t ∧ d'.table? false = .ok t' ∧
        d.dot? = .ok s ∧ d'.dot? = .ok s' ∧
        (t.listing = t'.listing ↔ d.same d' = true) ∧ (s = s' ↔ d.same d' = true)) ∧
    ∀ limit text e, parseWithin limit text = .ok e → (ofExpr e).WellTagged ∧ (ofExpr e).Plain := by
  refine ⟨fun d d' hd hd' hplain hplain' => ?_, fun limit text e h => ?_⟩
  · obtain ⟨e, rfl⟩ := hd.exists_expr
    obtain ⟨e', rfl⟩ := hd'.exists_expr
    rw [plain_ofExpr] at hplain hplain'
    refine ⟨_, _, _, _, table?_ofExpr false e, table?_ofExpr false e', dot?_ofExpr e, dot?_ofExpr e',
      ?_, ?_⟩
    · rw [same_ofExpr]
      exact Expr.listing_eq_iff hplain hplain'
    · rw [same_ofExpr]
      exact Expr.dot_eq_iff hplain hplain'
  · exact ⟨wellTagged_ofExpr e,
      plain_ofExpr.2 (Expr.plain_of_legal (legal_of_parse (parseWithin_of_ok h)))⟩

/-- Names that look like the fields of a line or like the end of a label are told apart, and a tree
that is only moved looks the same. -/
theorem views_tell_trees_lookalike :
    ∃ d d' d'' : Draft,
      d = .lam (some .lam) "x, body=1" (.var (some .var) "y\"]" ⟨1, 2⟩) ⟨1, 1⟩ ∧
      d' = .lam (some .lam) "x" (.var (some .var) "y\"]" ⟨1, 2⟩) ⟨1, 1⟩ ∧
      d'' = d.mapPos (fun _ => ⟨0, 7⟩) ∧
      (∃ t t' s s', d.table? false = .ok t ∧ d'.table? false = .ok t' ∧
        d.dot? = .ok s ∧ d'.dot? = .ok s' ∧ t.listing ≠ t'.listing ∧ s ≠ s') ∧
      ∃ t t'' s s'', d.table? false = .ok t ∧ d''.table? false = .ok t'' ∧
        d.dot? = .ok s ∧ d''.dot? = .ok s'' ∧ t.listing = t''.listing ∧ s = s'' := by
  refine ⟨_, _, _, rfl, rfl, rfl, ?_, ?_⟩
  · obtain ⟨t, t', s, s', ht, ht', hs, hs', hlisting, hdot⟩ :=
      views_tell_trees.1 (.lam (some .lam) "x, body=1" (.var (some .var) "y\"]" ⟨1, 2⟩) ⟨1, 1⟩)
        (.lam (some .lam) "x" (.var (some .var) "y\"]" ⟨1, 2⟩) ⟨1, 1⟩)
        (by decide) (by decide) (by decide) (by decide)
    exact ⟨t, t', s, s', ht, ht', hs, hs', mt hlisting.1 (by decide), mt hdot.1 (by decide)⟩
  · obtain ⟨t, t'', s, s'', ht, ht'', hs, hs'', hlisting, hdot⟩ :=
      views_tell_trees.1 (.lam (some .lam) "x, body=1" (.var (some .var) "y\"]" ⟨1, 2⟩) ⟨1, 1⟩)
        (.lam (some .lam) "x, body=1" (.var (some .var) "y\"]" ⟨0, 7⟩) ⟨0, 7⟩)
        (by decide) (by decide) (by decide) (by decide)
    exact ⟨t, t'', s, s'', ht, ht'', hs, hs'', hlisting.2 (by decide), hdot.2 (by decide)⟩

end LetFun.Draft
