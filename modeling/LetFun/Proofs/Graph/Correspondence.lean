import LetFun.Proofs.Graph.Drawing
import LetFun.Proofs.Table.Preorder
import Mathlib.Data.List.Forall2
/-!
# A drawing and a table of one tree

A drawing and a table both list the nodes of a tree in pre-order, but they number
them differently.  A table numbers a node when it comes to the node, and a drawing
when it comes to the node's parent.  So the boxes of a drawing stand in the order
of the records, and their numbers are those of the records in another order.

A drawing consists of stars, each a box with the arrows that leave it.  A star and
a record in the same place tell the same about their node.

Results:
* `Outline.drawn_eq_stars`: a drawing is its stars, one after another.
* `Outline.ids_stars`, `Outline.targets_stars`: which numbers the boxes have, and which of them
  arrows lead to.
* `Star.filter_arrows`: which arrows leave a box.
* `Expr.stars_show`, `Expr.boxes_show`: the stars of a tree, and so its boxes, show its records.
* `drawing_shows_table`: the drawing and the table of a tree describe the same tree.
-/
namespace LetFun

/-- A box of a drawing. -/
structure Box where
  id : Nat
  label : String
deriving DecidableEq, Repr

/-- An arrow of a drawing. -/
structure Arrow where
  source : Nat
  target : Nat
  role : String
deriving DecidableEq, Repr

namespace Statement

def box? : Statement → Option Box
  | node id l => some ⟨id, l⟩
  | edge .. => none

def arrow? : Statement → Option Arrow
  | node .. => none
  | edge s t r => some ⟨s, t, r⟩

/-- The boxes that statements draw, in order. -/
def boxes (ss : List Statement) : List Box := ss.filterMap box?

/-- The arrows that statements draw, in order. -/
def arrows (ss : List Statement) : List Arrow := ss.filterMap arrow?

end Statement

/-! ## What a box shows -/

/-- The role of a child in a drawing, where a table has `role`. -/
def drawnRole (role : String) : String :=
  if role = "function" then "fun" else if role = "argument" then "arg" else role

/-- The word for a form in a drawing, where a table has `label`. -/
def drawnForm (label : String) : String := if label = "Lam" then "Fun" else label

/-- The label of a box for a record: the form, and the name if there is one. -/
def Record.caption (r : Record) : String :=
  match r.names with
  | (_, .text x) :: _ => drawnForm r.label ++ " " ++ x
  | _ => drawnForm r.label

/-- An arrow leads, in the role of a child field, to the box in the place that the field names;
`ids` are the numbers of the boxes. -/
def Leads (ids : List Nat) (a : Arrow) (field : String × Scalar) : Prop :=
  a.role = drawnRole field.1 ∧ ∃ c : Nat, field.2 = .int c ∧ ids[c]? = some a.target

/-- A box says what a record says of its node, and the arrows that leave it are, in order, the
child fields of the record. -/
structure Shows (boxes : List Box) (arrows : List Arrow) (b : Box) (r : Record) : Prop where
  label : b.label = r.caption
  children : List.Forall₂ (Leads (boxes.map Box.id)) (arrows.filter (·.source = b.id)) r.children

/-! ## Stars -/

/-- A box and the arrows that leave it, given by role and target. -/
structure Star where
  id : Nat
  label : String
  targets : List (String × Nat)
deriving DecidableEq, Repr

namespace Star

def box (s : Star) : Box := ⟨s.id, s.label⟩

def arrows (s : Star) : List Arrow := s.targets.map fun t => ⟨s.id, t.2, t.1⟩

def statements (s : Star) : List Statement :=
  .node s.id s.label :: s.targets.map fun t => .edge s.id t.2 t.1

theorem boxes_flatMap (ss : List Star) :
    Statement.boxes (ss.flatMap statements) = ss.map box := by
  induction ss with
  | nil => rfl
  | cons s ss ih =>
    have hnone : (s.targets.map fun t => Statement.edge s.id t.2 t.1).filterMap
        Statement.box? = [] := by
      rw [List.filterMap_eq_nil_iff, List.forall_mem_map]
      exact fun _ _ => rfl
    rw [List.flatMap_cons, Statement.boxes, List.filterMap_append, statements, List.filterMap_cons,
      hnone, List.map_cons, ← ih]
    rfl

theorem arrows_flatMap (ss : List Star) :
    Statement.arrows (ss.flatMap statements) = ss.flatMap arrows := by
  induction ss with
  | nil => rfl
  | cons s ss ih =>
    have hall : (s.targets.map fun t => Statement.edge s.id t.2 t.1).filterMap
        Statement.arrow? = s.arrows := by
      rw [List.filterMap_map, arrows, ← List.filterMap_eq_map]
      rfl
    rw [List.flatMap_cons, Statement.arrows, List.filterMap_append, statements, List.filterMap_cons,
      List.flatMap_cons, ← ih, ← hall]
    rfl

theorem map_id_box (ss : List Star) : (ss.map box).map Box.id = ss.map id := by
  rw [List.map_map]
  rfl

theorem source_of_mem {s : Star} {a : Arrow} (h : a ∈ s.arrows) : a.source = s.id := by
  obtain ⟨t, -, rfl⟩ := List.mem_map.1 h
  rfl

theorem filter_eq_nil {s : Star} {j : Nat} (h : s.id ≠ j) :
    s.arrows.filter (·.source = j) = [] := by
  refine List.filter_eq_nil_iff.2 fun a ha => ?_
  rw [source_of_mem ha, decide_eq_true_eq]
  exact h

/-- Of stars with numbers of their own, the arrows that leave a box are those of its star. -/
theorem filter_arrows {ss : List Star} (h : (ss.map id).Nodup) {s : Star} (hs : s ∈ ss) :
    (ss.flatMap arrows).filter (·.source = s.id) = s.arrows := by
  induction ss with
  | nil => cases hs
  | cons s' ss ih =>
    rw [List.map_cons, List.nodup_cons] at h
    obtain ⟨hnew, hnodup⟩ := h
    rw [List.flatMap_cons, List.filter_append]
    rcases List.mem_cons.1 hs with rfl | hs
    · have hown : s.arrows.filter (·.source = s.id) = s.arrows :=
        List.filter_eq_self.2 fun a ha => by simp [source_of_mem ha]
      have hothers : (ss.flatMap arrows).filter (·.source = s.id) = [] := by
        rw [List.filter_flatMap, List.flatMap_eq_nil_iff]
        exact fun s' hs' => filter_eq_nil fun heq => hnew (List.mem_map.2 ⟨s', hs', heq⟩)
      rw [hown, hothers, List.append_nil]
    · have hfirst : s'.id ≠ s.id := fun heq => hnew (List.mem_map.2 ⟨s, hs, heq.symm⟩)
      rw [filter_eq_nil hfirst, ih hnodup hs, List.nil_append]

/-- A star says what a record says of its node; `ids` are the numbers of all boxes. -/
structure Shows (ids : List Nat) (s : Star) (r : Record) : Prop where
  label : s.label = r.caption
  children : List.Forall₂ (Leads ids) s.arrows r.children

end Star

/-! ## The stars of an outline -/

namespace Outline

/-- The stars of a drawing whose root has the number `id`, if `n` is the last number used. -/
def stars : Outline → Nat → Nat → List Star
  | leaf l, id, _ => [⟨id, l, []⟩]
  | one l r c, id, n => ⟨id, l, [(r, n + 1)]⟩ :: c.stars (n + 1) (n + 1)
  | two l r₁ c₁ r₂ c₂, id, n =>
    ⟨id, l, [(r₁, n + 1), (r₂, n + 2)]⟩ ::
      (c₁.stars (n + 1) (n + 2) ++ c₂.stars (n + 2) (n + 2 + c₁.arrows))

theorem drawn_eq_stars (o : Outline) (id n : Nat) :
    o.drawn id n = (o.stars id n).flatMap Star.statements := by
  induction o generalizing id n with
  | leaf l => rfl
  | one l r c ih => simp [drawn, stars, Star.statements, ih]
  | two l r₁ c₁ r₂ c₂ ih₁ ih₂ => simp [drawn, stars, Star.statements, ih₁, ih₂]

theorem boxes_statements (o : Outline) :
    Statement.boxes o.statements = (o.stars 0 0).map Star.box := by
  rw [statements_eq, drawn_eq_stars, Star.boxes_flatMap]

theorem arrows_statements (o : Outline) :
    Statement.arrows o.statements = (o.stars 0 0).flatMap Star.arrows := by
  rw [statements_eq, drawn_eq_stars, Star.arrows_flatMap]

theorem head?_ids (o : Outline) (id n : Nat) : ((o.stars id n).map Star.id).head? = some id := by
  cases o <;> rfl

/-- Two children take the next two numbers, and what is below them those that follow. -/
theorem range'_two (n a b : Nat) : List.range' (n + 1) (2 + a + b) =
    (n + 1) :: (n + 2) :: (List.range' (n + 3) a ++ List.range' (n + 2 + a + 1) b) := by
  have hjoin := @List.range'_append_1 (n + 3) a b
  rw [show n + 2 + a + 1 = n + 3 + a by omega, hjoin, show 2 + a + b = a + b + 1 + 1 by omega,
    List.range'_succ, List.range'_succ]

/-- The root has its number, and the other boxes have the next ones that are free. -/
theorem ids_stars (o : Outline) (id n : Nat) :
    ((o.stars id n).map Star.id).Perm (id :: List.range' (n + 1) o.arrows) := by
  induction o generalizing id n with
  | leaf l => exact .refl _
  | one l r c ih =>
    rw [stars, List.map_cons, arrows, Nat.add_comm 1, List.range'_succ]
    exact (ih _ _).cons id
  | two l r₁ c₁ r₂ c₂ ih₁ ih₂ =>
    rw [stars, List.map_cons, List.map_append, arrows, range'_two]
    -- the number of the second child stands behind those below the first one
    exact (((ih₁ _ _).append (ih₂ _ _)).trans (List.perm_middle.cons _)).cons id

/-- Arrows lead to every box but the root, to each of them once. -/
theorem targets_stars (o : Outline) (id n : Nat) :
    (((o.stars id n).flatMap Star.arrows).map Arrow.target).Perm
      (List.range' (n + 1) o.arrows) := by
  induction o generalizing id n with
  | leaf l => exact .refl _
  | one l r c ih =>
    rw [stars, arrows, Nat.add_comm 1, List.range'_succ]
    exact (ih _ _).cons _
  | two l r₁ c₁ r₂ c₂ ih₁ ih₂ =>
    rw [stars, List.flatMap_cons, List.flatMap_append, List.map_append, List.map_append, arrows,
      range'_two]
    exact (((ih₁ _ _).append (ih₂ _ _)).cons _).cons _

theorem countP_target (o : Outline) (j : Nat) :
    ((o.stars 0 0).flatMap Star.arrows).countP (·.target = j) =
      if 0 < j ∧ j < o.arrows + 1 then 1 else 0 := by
  have hcount := (o.targets_stars 0 0).count_eq j
  rw [List.Nodup.count List.nodup_range', List.count_eq_countP, List.countP_map] at hcount
  simp only [List.mem_range'_1] at hcount
  refine Eq.trans (List.countP_congr fun a _ => ?_) (hcount.trans (if_congr ?_ rfl rfl))
  · simp
  · omega

/-- An arrow leads to a greater number. -/
theorem source_lt_target {o : Outline} {id n : Nat} (h : id ≤ n) :
    ∀ a ∈ (o.stars id n).flatMap Star.arrows, a.source < a.target := by
  induction o generalizing id n with
  | leaf l => exact nofun
  | one l r c ih =>
    rw [stars, List.flatMap_cons, List.forall_mem_append]
    refine ⟨List.forall_mem_singleton.2 ?_, ih (Nat.le_refl _)⟩
    exact Nat.lt_succ_of_le h
  | two l r₁ c₁ r₂ c₂ ih₁ ih₂ =>
    rw [stars, List.flatMap_cons, List.flatMap_append, List.forall_mem_append,
      List.forall_mem_append]
    refine ⟨List.forall_mem_cons.2 ⟨?_, List.forall_mem_singleton.2 ?_⟩, ih₁ (by omega),
      ih₂ (by omega)⟩
    · exact Nat.lt_succ_of_le h
    · exact Nat.lt_succ_of_lt (Nat.lt_succ_of_le h)

/-- A drawing numbers its boxes from 0 on. -/
theorem ids_drawing (o : Outline) :
    ((o.stars 0 0).map Star.id).Perm (List.range (o.arrows + 1)) := by
  rw [List.range_eq_range', List.range'_succ]
  exact o.ids_stars 0 0

theorem length_stars (o : Outline) (id n : Nat) : (o.stars id n).length = o.arrows + 1 := by
  have h := (o.ids_stars id n).length_eq
  rwa [List.length_map, List.length_cons, List.length_range'] at h

theorem length_targets (o : Outline) : ((o.stars 0 0).flatMap Star.arrows).length = o.arrows := by
  have h := (o.targets_stars 0 0).length_eq
  rwa [List.length_map, List.length_range'] at h

end Outline

/-! ## The stars of a tree -/

namespace Expr

variable {ids rest : List Nat} {id n i : Nat}

theorem size_eq_arrows (e : Expr) : e.size = e.outline.arrows + 1 := by
  induction e with
  | var | con => rfl
  | letIn x b e p ihb ihe => simp only [size, outline, Outline.arrows, ihb, ihe]; omega
  | lam x e p ih => simp only [size, outline, Outline.arrows, ih]; omega
  | app f a p ihf iha => simp only [size, outline, Outline.arrows, ihf, iha]; omega

/-- Among the numbers of boxes, those of a tree stand from the place `i` on; the first of them is
the root's. -/
theorem getElem?_of_drop {o : Outline}
    (h : ids.drop i = (o.stars id n).map Star.id ++ rest) : ids[i]? = some id := by
  rw [← List.head?_drop, h, List.head?_append, Outline.head?_ids]
  rfl

/-- The numbers of a first child's boxes stand behind the root's. -/
theorem drop_first {l r₁ r₂ : String} {o₁ o₂ : Outline}
    (h : ids.drop i = ((Outline.two l r₁ o₁ r₂ o₂).stars id n).map Star.id ++ rest) :
    ids.drop (i + 1) = (o₁.stars (n + 1) (n + 2)).map Star.id ++
      ((o₂.stars (n + 2) (n + 2 + o₁.arrows)).map Star.id ++ rest) := by
  rw [← List.drop_drop, h, Outline.stars, List.map_cons, List.map_append, List.cons_append,
    List.drop_succ_cons, List.drop_zero, List.append_assoc]

/-- The numbers of a second child's boxes stand behind those of the first child's. -/
theorem drop_second {e : Expr} (h : ids.drop i = (e.outline.stars id n).map Star.id ++ rest) :
    ids.drop (i + e.size) = rest := by
  rw [← List.drop_drop, h, List.drop_left' (by
    rw [List.length_map, Outline.length_stars, size_eq_arrows])]

/-- The stars of a tree show its records, if the numbers of its boxes stand in the places that the
records have as numbers. -/
theorem stars_show (positions : Bool) (e : Expr)
    (h : ids.drop i = (e.outline.stars id n).map Star.id ++ rest) :
    List.Forall₂ (Star.Shows ids) (e.outline.stars id n) (Table.number positions e i []) := by
  induction e generalizing id n i rest with
  | var x p => exact .cons ⟨rfl, .nil⟩ .nil
  | con c p => exact .cons ⟨rfl, .nil⟩ .nil
  | letIn x b e p ihb ihe =>
    have hb := drop_first h
    have he := drop_second hb
    rw [outline, Outline.stars, Table.number, Table.number_append b]
    have hbound : Leads ids ⟨id, n + 1, "bound"⟩ ("bound", .int (i + 1 : Nat)) :=
      ⟨rfl, _, rfl, getElem?_of_drop hb⟩
    have hbody : Leads ids ⟨id, n + 2, "body"⟩ ("body", .int (i + 1 + b.size : Nat)) :=
      ⟨rfl, _, rfl, getElem?_of_drop he⟩
    exact .cons ⟨rfl, .cons hbound (.cons hbody .nil)⟩ (List.rel_append (ihb hb) (ihe he))
  | lam x e p ih =>
    have he : ids.drop (i + 1) = (e.outline.stars (n + 1) (n + 1)).map Star.id ++ rest := by
      rw [← List.drop_drop, h, outline, Outline.stars, List.map_cons, List.cons_append,
        List.drop_succ_cons, List.drop_zero]
    have hbody : Leads ids ⟨id, n + 1, "body"⟩ ("body", .int (i + 1 : Nat)) :=
      ⟨rfl, _, rfl, getElem?_of_drop he⟩
    exact .cons ⟨rfl, .cons hbody .nil⟩ (ih he)
  | app f a p ihf iha =>
    have hf := drop_first h
    have ha := drop_second hf
    rw [outline, Outline.stars, Table.number, Table.number_append f]
    have hfun : Leads ids ⟨id, n + 1, "fun"⟩ ("function", .int (i + 1 : Nat)) :=
      ⟨rfl, _, rfl, getElem?_of_drop hf⟩
    have harg : Leads ids ⟨id, n + 2, "arg"⟩ ("argument", .int (i + 1 + f.size : Nat)) :=
      ⟨rfl, _, rfl, getElem?_of_drop ha⟩
    exact .cons ⟨rfl, .cons hfun (.cons harg .nil)⟩ (List.rel_append (ihf hf) (iha ha))

/-- Box by box, the drawing of a tree shows the records of its table. -/
theorem boxes_show (positions : Bool) (e : Expr) :
    List.Forall₂
      (Shows (Statement.boxes e.outline.statements) (Statement.arrows e.outline.statements))
      (Statement.boxes e.outline.statements) (Table.ofExpr positions e).records := by
  have hplaces : ((e.outline.stars 0 0).map Star.id).drop 0 =
      (e.outline.stars 0 0).map Star.id ++ [] := by rw [List.drop_zero, List.append_nil]
  have hnodup : ((e.outline.stars 0 0).map Star.id).Nodup :=
    e.outline.ids_drawing.nodup_iff.2 List.nodup_range
  rw [Outline.boxes_statements, Outline.arrows_statements, Table.records_ofExpr,
    List.forall₂_map_left_iff]
  refine ((List.forall₂_and_left _ _).2 ⟨fun s hs => hs, e.stars_show positions hplaces⟩).imp ?_
  rintro s r ⟨hs, hlabel, hchildren⟩
  refine ⟨hlabel, ?_⟩
  rw [Star.map_id_box, show s.box.id = s.id from rfl, Star.filter_arrows hnodup hs]
  exact hchildren

end Expr

/-! ## Drawings and tables -/

/-- **One tree.** The drawing of a tree with `N` nodes whose tags are right has `N` boxes, numbered
from 0 to `N - 1`, each number once, and `N - 1` arrows, one to each box but that with the number 0,
and each from a smaller number. Box by box it shows the records of the table of the tree: the
labels are the forms and names of the records, and the arrows that leave a box are their child
fields in order. -/
theorem drawing_shows_table {d : Draft} (positions : Bool) (hd : d.WellTagged) :
    ∃ o t, d.outline? = .ok o ∧ d.dot? = .ok o.dot ∧ d.table? positions = .ok t ∧
      (Statement.boxes o.statements).length = d.nodes.length ∧
      (Statement.arrows o.statements).length + 1 = d.nodes.length ∧
      ((Statement.boxes o.statements).map Box.id).Perm (List.range d.nodes.length) ∧
      (∀ j, (Statement.arrows o.statements).countP (·.target = j) =
        if 0 < j ∧ j < d.nodes.length then 1 else 0) ∧
      (∀ a ∈ Statement.arrows o.statements, a.source < a.target) ∧
      t.records.map Record.id = List.range d.nodes.length ∧
      List.Forall₂ (Shows (Statement.boxes o.statements) (Statement.arrows o.statements))
        (Statement.boxes o.statements) t.records := by
  obtain ⟨e, rfl⟩ := hd.exists_expr
  rw [Draft.length_nodes_ofExpr, Expr.size_eq_arrows]
  refine ⟨e.outline, .ofExpr positions e, Draft.outline?_ofExpr e, Draft.dot?_ofExpr e,
    Draft.table?_ofExpr positions e, ?_, ?_, ?_, fun j => ?_, ?_, ?_, e.boxes_show positions⟩
  · rw [Outline.boxes_statements, List.length_map, Outline.length_stars]
  · rw [Outline.arrows_statements, Outline.length_targets]
  · rw [Outline.boxes_statements, Star.map_id_box]
    exact e.outline.ids_drawing
  · rw [Outline.arrows_statements, Outline.countP_target]
  · rw [Outline.arrows_statements]
    exact Outline.source_lt_target (Nat.le_refl 0)
  · rw [Table.records_ofExpr, Table.map_id_number, List.range_eq_range', Expr.size_eq_arrows]

/-- The boxes do not stand in the order of their numbers: the body of the `let` has a smaller one
than the body of the `fun`, which comes before it. -/
theorem drawing_shows_table_let :
    ∃ d : Draft, d.WellTagged ∧
      d = .letIn (some .letIn) "id" (.lam (some .lam) "x" (.var (some .var) "x" ⟨1, 19⟩) ⟨1, 10⟩)
        (.app (some .app) (.var (some .var) "id" ⟨1, 24⟩) (.con (some .con) "Nil" ⟨1, 27⟩) ⟨1, 24⟩)
        ⟨1, 1⟩ ∧
      ∃ o t, d.outline? = .ok o ∧ d.table? false = .ok t ∧
        Statement.boxes o.statements = [⟨0, "Let id"⟩, ⟨1, "Fun x"⟩, ⟨3, "Var x"⟩, ⟨2, "App"⟩,
          ⟨4, "Var id"⟩, ⟨5, "Con Nil"⟩] ∧
        t.records.map Record.children = [[("bound", .int 1), ("body", .int 3)],
          [("body", .int 2)], [], [("function", .int 4), ("argument", .int 5)], [], []] ∧
        (Statement.arrows o.statements).countP (·.target = 3) = 1 ∧
        List.Forall₂ (Shows (Statement.boxes o.statements) (Statement.arrows o.statements))
          (Statement.boxes o.statements) t.records := by
  refine ⟨_, ?_, rfl, ?_⟩
  · decide
  · obtain ⟨o, t, ho, -, ht, -, -, -, htarget, -, -, hshow⟩ :=
      drawing_shows_table (d := .letIn (some .letIn) "id"
        (.lam (some .lam) "x" (.var (some .var) "x" ⟨1, 19⟩) ⟨1, 10⟩)
        (.app (some .app) (.var (some .var) "id" ⟨1, 24⟩) (.con (some .con) "Nil" ⟨1, 27⟩) ⟨1, 24⟩)
        ⟨1, 1⟩) false (by decide)
    refine ⟨o, t, ho, ht, ?_, ?_, htarget 3, hshow⟩
    · cases ho
      decide
    · cases ht
      decide

end LetFun
