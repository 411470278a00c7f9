import LetFun.Token
/-!
# Names

Names are made of the letters and digits of ASCII and the underscore.  An
identifier begins with a small letter or an underscore and is no keyword; a
constructor begins with a capital letter.

Results:
* `isIdent_iff`, `isCon_iff`: a name is a first character of its kind and name characters.
* `ofWord_eq_ident_iff`: a word is read as an identifier exactly if it is no keyword.
-/

namespace LetFun

/-- The characters of names. -/
def isNameChar (c : Char) : Bool := c.isAlphanum || c = '_'

/-- The characters that an identifier or a keyword begins with. -/
def isWordStart (c : Char) : Bool := c.isLower || c = '_'

/-- Whether a word is a keyword. -/
def isKeyword (s : String) : Bool := s = "let" || s = "in" || s = "fun"

/-- Whether a text is an identifier. -/
def isIdent (s : String) : Bool :=
  match s.toList with
  | c :: cs => isWordStart c && cs.all isNameChar && !isKeyword s
  | [] => false

/-- Whether a text is the name of a constructor. -/
def isCon (s : String) : Bool :=
  match s.toList with
  | c :: cs => c.isUpper && cs.all isNameChar
  | [] => false

theorem isNameChar_eq (c : Char) :
    isNameChar c = (((c.isUpper || c.isLower) || c.isDigit) || decide (c = '_')) := rfl

theorem isNameChar_of_isWordStart {c : Char} (h : isWordStart c = true) : isNameChar c = true := by
  simp only [isWordStart, Bool.or_eq_true] at h
  rcases h with h | h <;> simp [isNameChar_eq, h]

theorem isNameChar_of_isUpper {c : Char} (h : c.isUpper = true) : isNameChar c = true := by
  simp [isNameChar_eq, h]

theorem isIdent_iff {s : String} :
    isIdent s = true ↔ ∃ c cs, s.toList = c :: cs ∧ isWordStart c = true ∧
      (∀ d ∈ cs, isNameChar d = true) ∧ isKeyword s = false := by
  unfold isIdent
  cases hs : s.toList with
  | nil => simp
  | cons c cs => simp [and_assoc]

theorem isCon_iff {s : String} :
    isCon s = true ↔ ∃ c cs, s.toList = c :: cs ∧ c.isUpper = true ∧
      ∀ d ∈ cs, isNameChar d = true := by
  unfold isCon
  cases hs : s.toList with
  | nil => simp
  | cons c cs => simp [and_assoc]

namespace Lexeme

/-- Whether a lexeme can be met in a text: its name, if it has one, is a name of its kind. -/
def legal : Lexeme → Bool
  | ident x => isIdent x
  | con c => isCon c
  | _ => true

/-- Whether a lexeme is spelled in name characters, so that one more would change it. -/
def isWordy : Lexeme → Bool
  | letKw | inKw | funKw | ident _ | con _ => true
  | _ => false

theorem ofWord_eq_ident_iff {w x : String} :
    ofWord w = ident x ↔ w = x ∧ isKeyword w = false := by
  unfold ofWord isKeyword
  split
  · simp [*]
  · split
    · simp [*]
    · split <;> simp [*]

end Lexeme
end LetFun
