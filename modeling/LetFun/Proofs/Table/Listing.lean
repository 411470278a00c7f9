import LetFun.Proofs.Draft.Names
import LetFun.Proofs.Table.Preorder
import LetFun.Proofs.Text.Delimited
import LetFun.Table.Listing
/-!
# Reading a listing

A line of a listing tells its record.  Its number and its form have their columns;
behind them the children's numbers are read from the end, since a name may look
like any of them but stands in front of all.  Names without newlines keep the
lines apart.

Results:
* `Record.eq_of_line`: two records with one number are told by their lines.
* `Expr.listing_eq_iff`: listings are equal exactly if the trees are, up to positions.
-/
namespace LetFun

open Text

theorem Scalar.plain_int (n : Nat) : (Scalar.int n).plain = toString n := rfl

theorem Scalar.plain_text (s : String) : (Scalar.text s).plain = s := rfl

/-- The form of a node. -/
def Node.kind : Node → ExprKind
  | var _ => .var
  | con _ => .con
  | letIn .. => .letIn
  | lam .. => .lam
  | app .. => .app

theorem ExprKind.length_label (kind : ExprKind) : kind.label.toList.length = 3 := by
  cases kind <;> rfl

theorem ExprKind.newline_not_mem_label (kind : ExprKind) : '\n' ∉ kind.label.toList := by
  cases kind <;> decide

theorem ExprKind.label_inj {kind kind' : ExprKind} (h : kind.label.toList = kind'.label.toList) :
    kind = kind' := by
  cases kind <;> cases kind' <;> first | rfl | exact absurd h (by decide)

/-- A number is read from the end of a text. -/
theorem append_number_inj {cs cs' : List Char} {n n' : Nat}
    (h : cs ++ '=' :: (toString n).toList = cs' ++ '=' :: (toString n').toList) :
    cs = cs' ∧ n = n' := by
  have heq (n : Nat) : '=' ∉ (toString n).toList := not_mem_toString (by decide) n
  obtain ⟨rfl, hn⟩ := append_cons_inj_last (heq n) (heq n') h
  exact ⟨rfl, toString_inj hn⟩

namespace Record

/-- What a line says of a record behind its form. -/
def said (r : Record) : List Char :=
  (", ".intercalate (r.details.map fun (key, value) => key ++ "=" ++ value.plain)).toList

theorem said_var (id : Nat) (x : String) :
    said ⟨id, .var x, none⟩ = "name=".toList ++ x.toList := by
  simp [said, details, names, place, children, Scalar.plain_text]

theorem said_con (id : Nat) (c : String) :
    said ⟨id, .con c, none⟩ = "name=".toList ++ c.toList := said_var id c

theorem said_letIn (id b e : Nat) (x : String) :
    said ⟨id, .letIn x b e, none⟩ =
      ("name=".toList ++ x.toList ++ ", bound".toList ++ '=' :: (toString b).toList) ++
        ", body".toList ++ '=' :: (toString e).toList := by
  simp [said, details, names, place, children, Scalar.plain_text, Scalar.plain_int]

theorem said_lam (id e : Nat) (x : String) :
    said ⟨id, .lam x e, none⟩ =
      "param=".toList ++ x.toList ++ ", body".toList ++ '=' :: (toString e).toList := by
  simp [said, details, names, place, children, Scalar.plain_text, Scalar.plain_int]

theorem said_app (id f a : Nat) :
    said ⟨id, .app f a, none⟩ =
      ("function".toList ++ '=' :: (toString f).toList) ++ ", argument".toList ++
        '=' :: (toString a).toList := by
  simp [said, details, names, place, children, Scalar.plain_int]

theorem node_of_said {id : Nat} {node node' : Node} (hkind : node.kind = node'.kind)
    (h : said ⟨id, node, none⟩ = said ⟨id, node', none⟩) : node = node' := by
  cases node with
  | var x =>
    cases node' with
    | var x' =>
      rw [said_var, said_var] at h
      rw [String.toList_inj.1 (List.append_cancel_left h)]
    | _ => cases hkind
  | con c =>
    cases node' with
    | con c' =>
      rw [said_con, said_con] at h
      rw [String.toList_inj.1 (List.append_cancel_left h)]
    | _ => cases hkind
  | letIn x b e =>
    cases node' with
    | letIn x' b' e' =>
      rw [said_letIn, said_letIn] at h
      -- what is in front of the two last numbers is the name, whatever it looks like
      obtain ⟨hbound, rfl⟩ := append_number_inj h
      obtain ⟨hname, rfl⟩ := append_number_inj (List.append_cancel_right hbound)
      have hx := List.append_cancel_left (List.append_cancel_right hname)
      rw [String.toList_inj.1 hx]
    | _ => cases hkind
  | lam x e =>
    cases node' with
    | lam x' e' =>
      rw [said_lam, said_lam] at h
      obtain ⟨hname, rfl⟩ := append_number_inj h
      have hx := List.append_cancel_left (List.append_cancel_right hname)
      rw [String.toList_inj.1 hx]
    | _ => cases hkind
  | app f a =>
    cases node' with
    | app f' a' =>
      rw [said_app, said_app] at h
      obtain ⟨hfunction, rfl⟩ := append_number_inj h
      obtain ⟨-, rfl⟩ := append_number_inj (List.append_cancel_right hfunction)
      rfl
    | _ => cases hkind

theorem toList_line (r : Record) :
    r.line.toList =
      ("  ".toList ++ (alignRight 4 (toString r.id)).toList ++ ": ".toList) ++
        (r.node.kind.label.toList ++ ' ' :: r.said) := by
  have hlabel : r.label = r.node.kind.label := by
    unfold label
    cases r.node <;> rfl
  simp [line, said, hlabel]

/-- Two records with one number and no position are told by their lines. -/
theorem eq_of_line {r r' : Record} (hid : r.id = r'.id) (hpos : r.pos = none)
    (hpos' : r'.pos = none) (h : r.line = r'.line) : r = r' := by
  obtain ⟨id, node, _⟩ := r
  obtain ⟨_, node', _⟩ := r'
  obtain rfl : id = _ := hid
  obtain rfl : _ = none := hpos
  obtain rfl : _ = none := hpos'
  have hline := congrArg String.toList h
  rw [toList_line, toList_line, List.append_cancel_left_eq] at hline
  obtain ⟨hlabel, hsaid⟩ := List.append_inj hline (by simp only [ExprKind.length_label])
  have hnode : node = node' :=
    node_of_said (ExprKind.label_inj hlabel) (List.tail_eq_of_cons_eq hsaid)
  rw [hnode]

/-- A line is one line if the name in it is. -/
theorem newline_not_mem_line {r : Record} (hpos : r.pos = none)
    (hname : ∀ key x, (key, .text x) ∈ r.names → '\n' ∉ x.toList) : '\n' ∉ r.line.toList := by
  obtain ⟨id, node, _⟩ := r
  obtain rfl : _ = none := hpos
  have hdigits (n : Nat) : '\n' ∉ (toString n).toList := not_mem_toString (by decide) n
  have hlabel := node.kind.newline_not_mem_label
  have hsaid : '\n' ∉ said ⟨id, node, none⟩ := by
    cases node with
    | var x =>
      have hx := hname _ _ (List.mem_singleton.2 rfl)
      simp [said_var, hx]
    | con c =>
      have hc := hname _ _ (List.mem_singleton.2 rfl)
      simp [said_con, hc]
    | letIn x b e =>
      have hx := hname _ _ (List.mem_singleton.2 rfl)
      simp [said_letIn, hx, hdigits, -Nat.toString_eq_repr]
    | lam x e =>
      have hx := hname _ _ (List.mem_singleton.2 rfl)
      simp [said_lam, hx, hdigits, -Nat.toString_eq_repr]
    | app f a => simp [said_app, hdigits, -Nat.toString_eq_repr]
  simp [toList_line, alignRight, hdigits, hlabel, hsaid, -Nat.toString_eq_repr]

end Record

/-- Without positions the records hold names of the tree and nothing else that is text. -/
theorem Table.of_mem_number {e : Expr} {id : Nat} {r : Record} (h : r ∈ number false e id []) :
    r.pos = none ∧ ∀ key x, (key, .text x) ∈ r.names → x ∈ e.names := by
  induction e generalizing id with
  | var | con =>
    obtain rfl := List.mem_singleton.1 h
    exact ⟨rfl, by simp [Record.names, Expr.names]⟩
  | letIn x b e p ihb ihe =>
    rw [number, number_append b, List.mem_cons, List.mem_append] at h
    rcases h with rfl | h | h
    · exact ⟨rfl, by simp [Record.names, Expr.names]⟩
    · exact (ihb h).imp_right fun hn key y hy => by simp [Expr.names, hn key y hy]
    · exact (ihe h).imp_right fun hn key y hy => by simp [Expr.names, hn key y hy]
  | lam x e p ih =>
    rw [number, List.mem_cons] at h
    rcases h with rfl | h
    · exact ⟨rfl, by simp [Record.names, Expr.names]⟩
    · exact (ih h).imp_right fun hn key y hy => by simp [Expr.names, hn key y hy]
  | app f a p ihf iha =>
    rw [number, number_append f, List.mem_cons, List.mem_append] at h
    rcases h with rfl | h | h
    · exact ⟨rfl, by simp [Record.names]⟩
    · exact (ihf h).imp_right fun hn key y hy => by simp [Expr.names, hn key y hy]
    · exact (iha h).imp_right fun hn key y hy => by simp [Expr.names, hn key y hy]

theorem Table.of_mem_ofExpr {e : Expr} {r : Record} (h : r ∈ (ofExpr false e).records) :
    r.pos = none ∧ ∀ key x, (key, .text x) ∈ r.names → x ∈ e.names :=
  of_mem_number (records_ofExpr false e ▸ h)

namespace Expr

theorem newline_not_mem_line {e : Expr} (h : e.Plain) :
    ∀ line ∈ (Table.ofExpr false e).records.map fun r => r.line.toList, '\n' ∉ line := by
  rw [List.forall_mem_map]
  intro r hr
  obtain ⟨hpos, hnames⟩ := Table.of_mem_ofExpr hr
  exact r.newline_not_mem_line hpos fun key x hx => (h x (hnames key x hx)).1

/-- The lines of a listing, each with a newline behind it. -/
theorem unlines_listing (e : Expr) :
    e.listing.toList ++ ['\n'] =
      unlines ((Table.ofExpr false e).records.map fun r => r.line.toList) := by
  have hne : (Table.ofExpr false e).records.map Record.line ≠ [] := by
    have hpos := e.size_pos
    rw [← List.length_pos_iff, List.length_map, Table.length_ofExpr]
    exact hpos
  rw [listing, Table.listing, intercalate_newline hne, List.map_map]
  rfl

/-- Records in their places are told by their lines. -/
theorem records_eq_of_lines {e e' : Expr}
    (h : ((Table.ofExpr false e).records.map fun r => r.line.toList) =
      (Table.ofExpr false e').records.map fun r => r.line.toList) :
    (Table.ofExpr false e).records = (Table.ofExpr false e').records := by
  refine List.ext_getElem? fun i => ?_
  have hi := congrArg (·[i]?) h
  simp only [List.getElem?_map] at hi
  cases hr : (Table.ofExpr false e).records[i]? with
  | none =>
    rw [hr, Option.map_none, eq_comm, Option.map_eq_none_iff] at hi
    exact hi.symm
  | some r =>
    rw [hr, Option.map_some, eq_comm, Option.map_eq_some_iff] at hi
    obtain ⟨r', hr', hline⟩ := hi
    have hid := (Table.id_of_getElem? hr).trans (Table.id_of_getElem? hr').symm
    have hpos := (Table.of_mem_ofExpr (List.mem_of_getElem? hr)).1
    have hpos' := (Table.of_mem_ofExpr (List.mem_of_getElem? hr')).1
    rw [hr', Record.eq_of_line hid hpos hpos' (String.toList_inj.1 hline).symm]

/-- Listings are equal exactly if the trees are, up to positions. -/
theorem listing_eq_iff {e e' : Expr} (he : e.Plain) (he' : e'.Plain) :
    e.listing = e'.listing ↔ e.strip = e'.strip := by
  rw [← Table.ofExpr_eq_iff]
  constructor
  · intro h
    have hlines := unlines_injective (newline_not_mem_line he) (newline_not_mem_line he')
      (by rw [← unlines_listing, ← unlines_listing, h])
    exact congrArg Table.mk (records_eq_of_lines hlines)
  · exact fun h => congrArg Table.listing h

end Expr
end LetFun
