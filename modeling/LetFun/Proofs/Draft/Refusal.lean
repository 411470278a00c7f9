import LetFun.Proofs.Draft.WellTagged
import LetFun.Proofs.Parse.Language
/-!
# Refused drafts

A draft with a wrong tag has neither a table nor a listing, and the error names the
tag of the first node in pre-order that has a wrong one.  What comes behind that
node, or below it, does not matter.

Results:
* `toExpr?_of_find?`: a draft is refused for its first wrong tag.
* `table?_refused_iff`: it is refused only for a wrong tag.
* `refused_for_first_wrong_tag`: exactly the drafts with a wrong tag are refused, and for the first.
-/
namespace LetFun.Draft

/-- Whether a node has no form or another tag than that of its form. -/
def isWrong (d : Draft) : Bool := !d.isWellTagged

theorem isWrong_eq_false_iff {d : Draft} : d.isWrong = false ↔ d.isWellTagged = true := by
  rw [isWrong, Bool.not_eq_false']

theorem tag_of_right {d : Draft} (h : d.isWrong = false) : d.tag = d.form :=
  (isWellTagged_iff.1 (isWrong_eq_false_iff.1 h)).2

theorem checkTag_of_wrong {d : Draft} {k : ExprKind} (hk : d.form = some k) (h : d.isWrong = true) :
    checkTag d.tag k = .error (.notSerializable d.tag) := by
  refine if_neg fun ht => ?_
  rw [isWrong, Bool.not_eq_true', ← Bool.not_eq_true, isWellTagged_iff, hk] at h
  exact h ⟨rfl, ht⟩

/-- A node is checked before what is below it. -/
theorem toExpr?_of_wrong {d : Draft} (h : d.isWrong = true) :
    d.toExpr? = .error (.notSerializable d.tag) := by
  cases d with
  | bare t p => rfl
  | _ => exact congrArg (· >>= _) (checkTag_of_wrong rfl h)

theorem wellTagged_iff_find? {d : Draft} : d.WellTagged ↔ d.nodes.find? isWrong = none := by
  simp only [WellTagged, List.find?_eq_none, Bool.not_eq_true, isWrong_eq_false_iff]

/-- The first wrong node of a draft is its root, or the first one below it. -/
theorem find?_nodes {d n : Draft} (h : d.nodes.find? isWrong = some n) :
    (d.isWrong = true ∧ d = n) ∨ (d.isWrong = false ∧ d.nodes.tail.find? isWrong = some n) := by
  have hnodes : d.nodes = d :: d.nodes.tail := by cases d <;> rfl
  rw [hnodes, List.find?_cons] at h
  cases hd : d.isWrong with
  | true =>
    rw [hd] at h
    exact .inl ⟨rfl, Option.some.inj h⟩
  | false =>
    rw [hd] at h
    exact .inr ⟨rfl, h⟩

/-- The first wrong node of two drafts is that of the first, or that of the second if the first is
an expression. -/
theorem find?_nodes_append {d d' n : Draft}
    (h : (d.nodes ++ d'.nodes).find? isWrong = some n) :
    d.nodes.find? isWrong = some n ∨
      (∃ e, d = ofExpr e) ∧ d'.nodes.find? isWrong = some n := by
  rw [List.find?_append] at h
  cases hd : d.nodes.find? isWrong with
  | some m =>
    rw [hd] at h
    exact .inl h
  | none =>
    rw [hd] at h
    exact .inr ⟨(wellTagged_iff_find?.2 hd).exists_expr, h⟩

/-- A draft is refused for its first wrong tag. -/
theorem toExpr?_of_find? {d n : Draft} (h : d.nodes.find? isWrong = some n) :
    d.toExpr? = .error (.notSerializable n.tag) := by
  induction d with
  | bare t p =>
    obtain rfl := Option.some.inj h
    rfl
  | var t x p | con t x p =>
    rcases find?_nodes h with ⟨hw, rfl⟩ | ⟨-, h⟩
    · exact toExpr?_of_wrong hw
    · cases h
  | letIn t x b e p ihb ihe =>
    rcases find?_nodes h with ⟨hw, rfl⟩ | ⟨hw, h⟩
    · exact toExpr?_of_wrong hw
    · obtain rfl : t = some .letIn := tag_of_right hw
      rcases find?_nodes_append h with hb | ⟨⟨b, rfl⟩, he⟩
      · rw [toExpr?, ihb hb]
        rfl
      · rw [toExpr?, toExpr?_ofExpr, ihe he]
        rfl
  | lam t x e p ih =>
    rcases find?_nodes h with ⟨hw, rfl⟩ | ⟨hw, h⟩
    · exact toExpr?_of_wrong hw
    · obtain rfl : t = some .lam := tag_of_right hw
      rw [toExpr?, ih h]
      rfl
  | app t f a p ihf iha =>
    rcases find?_nodes h with ⟨hw, rfl⟩ | ⟨hw, h⟩
    · exact toExpr?_of_wrong hw
    · obtain rfl : t = some .app := tag_of_right hw
      rcases find?_nodes_append h with hf | ⟨⟨f, rfl⟩, ha⟩
      · rw [toExpr?, ihf hf]
        rfl
      · rw [toExpr?, toExpr?_ofExpr, iha ha]
        rfl

theorem table?_of_find? (positions : Bool) {d n : Draft} (h : d.nodes.find? isWrong = some n) :
    d.table? positions = .error (.notSerializable n.tag) := by
  rw [table?, toExpr?_of_find? h]
  rfl

theorem listing?_of_find? {d n : Draft} (h : d.nodes.find? isWrong = some n) :
    d.listing? = .error (.notSerializable n.tag) := by
  rw [listing?, table?_of_find? false h]
  rfl

theorem listing?_ofExpr (e : Expr) : (ofExpr e).listing? = .ok e.listing := by
  rw [listing?, table?_ofExpr]
  rfl

theorem table?_refused_iff {d : Draft} {positions : Bool} :
    (∃ err, d.table? positions = .error err) ↔ ∃ n ∈ d.nodes, n.isWellTagged = false := by
  cases hfind : d.nodes.find? isWrong with
  | some n =>
    have hn : n.isWellTagged = false := by simpa [isWrong] using List.find?_some hfind
    exact iff_of_true ⟨_, table?_of_find? positions hfind⟩ ⟨n, List.mem_of_find?_eq_some hfind, hn⟩
  | none =>
    have hd := wellTagged_iff_find?.2 hfind
    refine iff_of_false ?_ ?_
    · rintro ⟨err, herr⟩
      obtain ⟨e, rfl⟩ := hd.exists_expr
      rw [table?_ofExpr] at herr
      cases herr
    · rintro ⟨n, hn, hwrong⟩
      rw [hd n hn] at hwrong
      cases hwrong

/-- **Refusals.** A draft has no table exactly if the tag of some node is not that of its form. Then
it has no listing either, and the error, which is the same with positions and without, names the
tag of the first such node in pre-order. Any other draft has a table and a listing, and a tree that
is parsed has a drawing, too. -/
theorem refused_for_first_wrong_tag :
    (∀ (d : Draft) (positions : Bool),
      (∃ err, d.table? positions = .error err) ↔ ∃ n ∈ d.nodes, n.isWellTagged = false) ∧
    (∀ (d n : Draft) (pre post : List Draft), d.nodes = pre ++ n :: post →
      (∀ m ∈ pre, m.isWellTagged = true) → n.isWellTagged = false →
      ∃ err, (∀ positions, d.table? positions = .error err) ∧ d.listing? = .error err ∧
        err.message = "Cannot serialize node of type " ++ DraftError.tagName n.tag) ∧
    (∀ d : Draft, (∀ n ∈ d.nodes, n.isWellTagged = true) →
      (∀ positions, ∃ t, d.table? positions = .ok t) ∧ ∃ l, d.listing? = .ok l) ∧
    ∀ limit text e, parseWithin limit text = .ok e →
      (∀ positions, ∃ t, (ofExpr e).table? positions = .ok t) ∧
        (∃ l, (ofExpr e).listing? = .ok l) ∧ ∃ s, (ofExpr e).dot? = .ok s := by
  refine ⟨fun d positions => table?_refused_iff, fun d n pre post hnodes hpre hn => ?_,
    fun d hd => ?_, fun limit text e h => ?_⟩
  · have hfind : d.nodes.find? isWrong = some n := by
      refine List.find?_eq_some_iff_append.2 ⟨by rw [isWrong, hn]; rfl, pre, post, hnodes, ?_⟩
      exact fun m hm => by rw [isWrong_eq_false_iff.2 (hpre m hm)]; rfl
    exact ⟨_, fun positions => table?_of_find? positions hfind, listing?_of_find? hfind, rfl⟩
  · obtain ⟨e, rfl⟩ := WellTagged.exists_expr hd
    exact ⟨fun positions => ⟨_, table?_ofExpr positions e⟩, _, listing?_ofExpr e⟩
  · exact ⟨fun positions => ⟨_, table?_ofExpr positions e⟩, ⟨_, listing?_ofExpr e⟩,
      ⟨_, dot?_ofExpr e⟩⟩

/-- Of two wrong nodes, the one further down comes first, since it is further left. -/
theorem refused_for_first_wrong_tag_deep :
    ∃ d : Draft,
      d = .app (some .app) (.lam (some .lam) "x" (.bare none ⟨1, 8⟩) ⟨1, 1⟩)
        (.con (some .var) "Nil" ⟨1, 9⟩) ⟨1, 1⟩ ∧
      (∃ err, (∀ positions, d.table? positions = .error err) ∧ d.listing? = .error err ∧
        err.message = "Cannot serialize node of type None") ∧
      (∃ l, (ofExpr (.con "Nil" ⟨1, 1⟩)).listing? = .ok l) ∧
      ∃ e, parse "f x" = .ok e ∧ ∃ s, (ofExpr e).dot? = .ok s := by
  refine ⟨_, rfl, ?_, ?_, ?_⟩
  · exact refused_for_first_wrong_tag.2.1 _ (.bare none ⟨1, 8⟩)
      [_, .lam (some .lam) "x" (.bare none ⟨1, 8⟩) ⟨1, 1⟩] [_] rfl (by decide) (by decide)
  · exact (refused_for_first_wrong_tag.2.2.1 (ofExpr (.con "Nil" ⟨1, 1⟩)) (by decide)).2
  · have hscans : scans "f x" =
        ⟨[⟨.ident "f", ⟨1, 1⟩⟩, ⟨.ident "x", ⟨1, 3⟩⟩] ++ [⟨.eof, ⟨1, 4⟩⟩], none⟩ := by
      decide +kernel
    have hshallow : Shallow (some nestingLimit) "f x" :=
      shallow_of_within (by rw [hscans]; decide)
    have h : parse "f x" = .ok (.app (.var "f" ⟨1, 1⟩) (.var "x" ⟨1, 3⟩) ⟨1, 1⟩) :=
      (parseWithin_of_shallow hshallow).trans
        (parse_of_derives (lex_of_scans hscans) (.run (.apply (.single .ident) .ident)))
    exact ⟨_, h, (refused_for_first_wrong_tag.2.2.2 (some nestingLimit) _ _ h).2.2⟩

end LetFun.Draft
