import LetFun.Proofs.Draft.WellTagged
import LetFun.Table.Rebuild
/-!
# The numbering of a table

A table lists the nodes of its tree in pre-order.  `Represents` says what this
means for the numbers: the record of a node has the node's number, its first child
has the next number, and its second child the next one behind the first child's
nodes.  So the numbers of a tree are an interval that begins with the number of
its root, and each number but the first is that of exactly one child.

Results:
* `represents_ofExpr`: a table represents its tree from the number 0 on.
* `rebuildAt?_of_represents`: following the numbers gives back the tree that is represented.
* `references_number`: of the numbers of a tree, all but the first are in one child field each.
* `table_lossless`: a table is numbered in pre-order and loses nothing of its tree.
-/
namespace LetFun

namespace Expr

/-- The tree as a table shows it: with its positions, or without any. -/
def shown (positions : Bool) (e : Expr) : Expr := if positions then e else e.strip

theorem size_mapPos (f : Pos → Pos) (e : Expr) : (e.mapPos f).size = e.size := by
  induction e with
  | var | con => rfl
  | letIn x b e p ihb ihe => simp [mapPos, size, ihb, ihe]
  | lam x e p ih => simp [mapPos, size, ih]
  | app g a p ihg iha => simp [mapPos, size, ihg, iha]

theorem shown_eq (positions : Bool) (e : Expr) :
    e.shown positions = e.mapPos fun p => (Table.shown positions p).getD Pos.none := by
  cases positions with
  | false => rfl
  | true => exact e.mapPos_id.symm

end Expr

namespace Table

variable {positions : Bool}

/-- In the records, the tree has the numbers from `id` on, in pre-order. -/
inductive Represents (positions : Bool) (records : List Record) : Nat → Expr → Prop where
  | var {id : Nat} {x : String} {p : Pos} :
      records[id]? = some ⟨id, .var x, shown positions p⟩ →
      Represents positions records id (.var x p)
  | con {id : Nat} {c : String} {p : Pos} :
      records[id]? = some ⟨id, .con c, shown positions p⟩ →
      Represents positions records id (.con c p)
  | letIn {id : Nat} {x : String} {b e : Expr} {p : Pos} :
      records[id]? = some ⟨id, .letIn x (id + 1) (id + 1 + b.size), shown positions p⟩ →
      Represents positions records (id + 1) b →
      Represents positions records (id + 1 + b.size) e →
      Represents positions records id (.letIn x b e p)
  | lam {id : Nat} {x : String} {e : Expr} {p : Pos} :
      records[id]? = some ⟨id, .lam x (id + 1), shown positions p⟩ →
      Represents positions records (id + 1) e →
      Represents positions records id (.lam x e p)
  | app {id : Nat} {f a : Expr} {p : Pos} :
      records[id]? = some ⟨id, .app (id + 1) (id + 1 + f.size), shown positions p⟩ →
      Represents positions records (id + 1) f →
      Represents positions records (id + 1 + f.size) a →
      Represents positions records id (.app f a p)

/-! ## Records in order -/

/-- The records of a tree stand in front of whatever follows them. -/
theorem number_append (e : Expr) (id : Nat) (rest : List Record) :
    number positions e id rest = number positions e id [] ++ rest := by
  induction e generalizing id rest with
  | var | con => rfl
  | letIn x b e p ihb ihe =>
    simp only [number]
    rw [ihe _ rest, ihb _ (_ ++ _), ihb _ (number positions e _ []), List.cons_append,
      List.append_assoc]
  | lam x e p ih =>
    simp only [number]
    rw [ih _ rest, List.cons_append]
  | app f a p ihf iha =>
    simp only [number]
    rw [iha _ rest, ihf _ (_ ++ _), ihf _ (number positions a _ []), List.cons_append,
      List.append_assoc]

theorem drop_number (e : Expr) (id : Nat) (rest : List Record) :
    (number positions e id rest).drop e.size = rest := by
  rw [number_append, List.drop_left' (by simp [length_number])]

theorem map_id_number (e : Expr) (id : Nat) :
    (number positions e id []).map Record.id = List.range' id e.size := by
  induction e generalizing id with
  | var | con => rfl
  | letIn x b e p ihb ihe =>
    have hsize : (Expr.letIn x b e p).size = (b.size + e.size) + 1 := by simp [Expr.size]; omega
    rw [number, number_append b, List.map_cons, List.map_append, ihb, ihe, List.range'_append_1,
      hsize, List.range'_succ]
  | lam x e p ih =>
    have hsize : (Expr.lam x e p).size = e.size + 1 := by simp [Expr.size]; omega
    rw [number, List.map_cons, ih, hsize, List.range'_succ]
  | app f a p ihf iha =>
    have hsize : (Expr.app f a p).size = (f.size + a.size) + 1 := by simp [Expr.size]; omega
    rw [number, number_append f, List.map_cons, List.map_append, ihf, iha, List.range'_append_1,
      hsize, List.range'_succ]

/-- A record's number is its place in the table. -/
theorem id_of_getElem? {e : Expr} {i : Nat} {r : Record}
    (h : (ofExpr positions e).records[i]? = some r) : r.id = i := by
  have hi : i < e.size := by
    rw [← length_ofExpr positions e]
    exact (List.getElem?_eq_some_iff.1 h).1
  have hmap := congrArg (·[i]?) (@map_id_number positions e 0)
  rw [records_ofExpr] at h
  simpa [h, List.getElem?_range', hi] using hmap

/-! ## Numbers of children -/

/-- Records that begin at the place `id` with those of a tree numbered from `id` on represent it. -/
theorem represents_of_drop {records rest : List Record} {e : Expr} {id : Nat}
    (h : records.drop id = number positions e id rest) : Represents positions records id e := by
  induction e generalizing id rest with
  | var x p => exact .var (by rw [← List.head?_drop, h]; rfl)
  | con c p => exact .con (by rw [← List.head?_drop, h]; rfl)
  | letIn x b e p ihb ihe =>
    have hb : records.drop (id + 1) =
        number positions b (id + 1) (number positions e (id + 1 + b.size) rest) := by
      rw [← List.drop_drop, h, number, List.drop_succ_cons, List.drop_zero]
    have he : records.drop (id + 1 + b.size) = number positions e (id + 1 + b.size) rest := by
      rw [← List.drop_drop, hb, drop_number]
    exact .letIn (by rw [← List.head?_drop, h]; rfl) (ihb hb) (ihe he)
  | lam x e p ih =>
    have he : records.drop (id + 1) = number positions e (id + 1) rest := by
      rw [← List.drop_drop, h, number, List.drop_succ_cons, List.drop_zero]
    exact .lam (by rw [← List.head?_drop, h]; rfl) (ih he)
  | app f a p ihf iha =>
    have hf : records.drop (id + 1) =
        number positions f (id + 1) (number positions a (id + 1 + f.size) rest) := by
      rw [← List.drop_drop, h, number, List.drop_succ_cons, List.drop_zero]
    have ha : records.drop (id + 1 + f.size) = number positions a (id + 1 + f.size) rest := by
      rw [← List.drop_drop, hf, drop_number]
    exact .app (by rw [← List.head?_drop, h]; rfl) (ihf hf) (iha ha)

theorem represents_ofExpr (positions : Bool) (e : Expr) :
    Represents positions (ofExpr positions e).records 0 e :=
  represents_of_drop (by rw [List.drop_zero, records_ofExpr])

/-- The number of child fields of the records that hold `j`. -/
def references (records : List Record) (j : Nat) : Nat :=
  (records.flatMap Record.children).countP (·.2 = .int j)

theorem references_cons (r : Record) (records : List Record) (j : Nat) :
    references (r :: records) j = r.children.countP (·.2 = .int j) + references records j := by
  simp [references, List.countP_append]

theorem references_append (records records' : List Record) (j : Nat) :
    references (records ++ records') j = references records j + references records' j := by
  simp [references, List.countP_append]

/-- Two children that come right behind their parent, one behind the other, join the numbers of
their nodes to one interval: the fields of the parent add the first number of each. -/
theorem references_join {id m n j : Nat} (role role' : String) (hm : 0 < m) (hn : 0 < n) :
    [(role, Scalar.int (id + 1 : Nat)), (role', Scalar.int (id + 1 + m : Nat))].countP
        (·.2 = .int j) +
      ((if id + 1 < j ∧ j < id + 1 + m then 1 else 0) +
        if id + 1 + m < j ∧ j < id + 1 + m + n then 1 else 0) =
      if id < j ∧ j < id + (1 + m + n) then 1 else 0 := by
  simp only [List.countP_cons, List.countP_nil, Scalar.int.injEq, Int.natCast_inj,
    decide_eq_true_eq]
  repeat' split
  all_goals omega

/-- The numbers of a tree are an interval, and each but the first is that of one child. -/
theorem references_number (e : Expr) (id j : Nat) :
    references (number positions e id []) j = if id < j ∧ j < id + e.size then 1 else 0 := by
  induction e generalizing id with
  | var | con =>
    rw [if_neg (by simp only [Expr.size]; omega)]
    rfl
  | letIn x b e p ihb ihe =>
    rw [number, number_append b, references_cons, references_append, ihb, ihe]
    exact references_join "bound" "body" b.size_pos e.size_pos
  | lam x e p ih =>
    have he := e.size_pos
    have hsize : (Expr.lam x e p).size = 1 + e.size := rfl
    rw [number, references_cons, ih]
    simp only [Record.children, List.countP_cons, List.countP_nil, Scalar.int.injEq, Int.natCast_inj,
      decide_eq_true_eq]
    repeat' split
    all_goals omega
  | app f a p ihf iha =>
    rw [number, number_append f, references_cons, references_append, ihf, iha]
    exact references_join "function" "argument" f.size_pos a.size_pos

/-- A child has a greater number than its parent. -/
theorem id_lt_child {e : Expr} {id c : Nat} {r : Record} {role : String}
    (h : r ∈ number positions e id []) (hc : (role, .int c) ∈ r.children) : r.id < c := by
  induction e generalizing id with
  | var | con =>
    obtain rfl := List.mem_singleton.1 h
    cases hc
  | letIn x b e p ihb ihe =>
    have hsize := b.size_pos
    rw [number, number_append b, List.mem_cons, List.mem_append] at h
    rcases h with rfl | h | h
    · simp [Record.children] at hc ⊢
      omega
    · exact ihb h
    · exact ihe h
  | lam x e p ih =>
    rw [number, List.mem_cons] at h
    rcases h with rfl | h
    · simp [Record.children] at hc ⊢
      omega
    · exact ih h
  | app f a p ihf iha =>
    have hsize := f.size_pos
    rw [number, number_append f, List.mem_cons, List.mem_append] at h
    rcases h with rfl | h | h
    · simp [Record.children] at hc ⊢
      omega
    · exact ihf h
    · exact iha h

/-! ## Following the numbers -/

theorem rebuildAt?_of_represents {records : List Record} {id : Nat} {e : Expr}
    (h : Represents positions records id e) :
    rebuildAt? records id = some (e.shown positions) := by
  rw [Expr.shown_eq]
  induction h with
  | var h => rw [rebuildAt?_of_getElem? h]; rfl
  | con h => rw [rebuildAt?_of_getElem? h]; rfl
  | @letIn id x b e p h _ _ ihb ihe =>
    have hlt : id < id + 1 ∧ id < id + 1 + b.size := by omega
    rw [rebuildAt?_of_getElem? h]
    simp only [if_pos hlt, ihb, ihe]
    rfl
  | @lam id x e p h _ ih =>
    rw [rebuildAt?_of_getElem? h]
    simp only [if_pos (Nat.lt_succ_self id), ih]
    rfl
  | @app id f a p h _ _ ihf iha =>
    have hlt : id < id + 1 ∧ id < id + 1 + f.size := by omega
    rw [rebuildAt?_of_getElem? h]
    simp only [if_pos hlt, ihf, iha]
    rfl

theorem rebuild?_ofExpr (positions : Bool) (e : Expr) :
    (ofExpr positions e).rebuild? = some (e.shown positions) :=
  rebuildAt?_of_represents (represents_ofExpr positions e)

/-! ## Tables without positions -/

theorem number_mapPos (f : Pos → Pos) (e : Expr) (id : Nat) (rest : List Record) :
    number false (e.mapPos f) id rest = number false e id rest := by
  induction e generalizing id rest with
  | var | con => rfl
  | letIn x b e p ihb ihe => simp only [Expr.mapPos, number, Expr.size_mapPos, ihb, ihe]; rfl
  | lam x e p ih => simp only [Expr.mapPos, number, ih]; rfl
  | app g a p ihg iha => simp only [Expr.mapPos, number, Expr.size_mapPos, ihg, iha]; rfl

theorem ofExpr_strip (e : Expr) : ofExpr false e.strip = ofExpr false e :=
  congrArg Table.mk (by
    have h := number_mapPos (fun _ => Pos.none) e 0 []
    rwa [← records_ofExpr, ← records_ofExpr] at h)

/-- Without positions, a table stands for its tree up to positions. -/
theorem ofExpr_eq_iff {e e' : Expr} : ofExpr false e = ofExpr false e' ↔ e.strip = e'.strip := by
  constructor
  · intro h
    have hr := rebuild?_ofExpr false e
    rw [h, rebuild?_ofExpr] at hr
    exact (Option.some.inj hr).symm
  · intro h
    rw [← ofExpr_strip e, h, ofExpr_strip]

/-- **Nothing is lost.** The table of a tree whose tags are right numbers its nodes in pre-order:
a record's number is its place, a first child has the next number and a second one the next behind
the first one's nodes, and each number but 0 is held by one child field, in a record before it.
Following the numbers from 0 on gives the tree back, with its positions if the table shows them.
So two trees have the same table without positions exactly if they are equal. -/
theorem table_lossless :
    (∀ (d : Draft) (positions : Bool), d.WellTagged →
      ∃ e t, d = .ofExpr e ∧ d.table? positions = .ok t ∧
        t.records.length = e.size ∧
        (∀ (i : Nat) (r : Record), t.records[i]? = some r → r.id = i) ∧
        Represents positions t.records 0 e ∧
        (∀ j, 0 < j → j < t.records.length → references t.records j = 1) ∧
        (∀ r ∈ t.records, ∀ role c, (role, .int c) ∈ r.children → r.id < c) ∧
        ∃ e', t.rebuild? = some e' ∧ (Draft.ofExpr e').same d = true ∧
          (positions = true → Draft.ofExpr e' = d)) ∧
    ∀ d d' : Draft, d.WellTagged → d'.WellTagged →
      (d.table? false = d'.table? false ↔ d.same d' = true) := by
  refine ⟨fun d positions hd => ?_, fun d d' hd hd' => ?_⟩
  · obtain ⟨e, rfl⟩ := hd.exists_expr
    refine ⟨e, .ofExpr positions e, rfl, Draft.table?_ofExpr positions e,
      length_ofExpr positions e, fun i r => id_of_getElem?, represents_ofExpr positions e,
      fun j h0 hj => ?_, fun r hr role c hc => ?_, e.shown positions, rebuild?_ofExpr positions e,
      ?_, ?_⟩
    · rw [length_ofExpr] at hj
      rw [records_ofExpr, references_number, if_pos (by omega)]
    · rw [records_ofExpr] at hr
      exact id_lt_child hr hc
    · rw [Draft.same_ofExpr]
      cases positions with
      | true => rfl
      | false => exact e.strip_strip
    · rintro rfl
      rfl
  · obtain ⟨e, rfl⟩ := hd.exists_expr
    obtain ⟨e', rfl⟩ := hd'.exists_expr
    rw [Draft.table?_ofExpr, Draft.table?_ofExpr, Draft.same_ofExpr, Except.ok.injEq,
      ofExpr_eq_iff]

/-- A tree built by hand, with a name that no text can hold and positions that no text has, comes
back from its table; moved elsewhere it has the same table without positions. -/
theorem table_lossless_handmade :
    ∃ d d' : Draft, d.WellTagged ∧ d'.WellTagged ∧
      d = .letIn (some .letIn) "a, b=1" (.lam (some .lam) "x" (.var (some .var) "x" ⟨-1, 7⟩) ⟨0, 0⟩)
        (.app (some .app) (.con (some .con) "" ⟨2, 2⟩) (.var (some .var) "y" ⟨3, 3⟩) ⟨1, 1⟩) ⟨9, 9⟩ ∧
      (∃ t, d.table? true = .ok t ∧ t.records.length = 6 ∧ references t.records 3 = 1 ∧
        ∃ e, t.rebuild? = some e ∧ Draft.ofExpr e = d) ∧
      d' = d.mapPos (fun _ => ⟨5, 5⟩) ∧ d.table? false = d'.table? false := by
  refine ⟨_, _, ?_, ?_, rfl, ?_, rfl, (table_lossless.2 _ _ ?_ ?_).2 ?_⟩
  case refine_3 =>
    obtain ⟨-, t, -, ht, -, -, -, href, -, e', he', -, heq⟩ :=
      table_lossless.1 (.letIn (some .letIn) "a, b=1"
        (.lam (some .lam) "x" (.var (some .var) "x" ⟨-1, 7⟩) ⟨0, 0⟩)
        (.app (some .app) (.con (some .con) "" ⟨2, 2⟩) (.var (some .var) "y" ⟨3, 3⟩) ⟨1, 1⟩) ⟨9, 9⟩)
        true (by decide)
    have hlen6 : t.records.length = 6 := by
      cases ht
      rfl
    exact ⟨t, ht, hlen6, href 3 (by decide) (by omega), e', he', heq rfl⟩
  all_goals decide

end Table
end LetFun
