import LetFun.Command.Opt
import LetFun.Text.Digit
/-!
# Reading arguments

Each argument is first read by itself: it spells an option, or it is a value, or
it looks like an option and is none.  A word may be cut short as long as no other
option begins like it (`--exp`), and a value may be attached (`--expr=x`, `-ex`,
`-e=x`).  What is attached to a letter may turn out to be further letters.  A
spelling that fits several options is an error wherever it stands.  Two dashes
make values of all arguments behind them.
-/

namespace LetFun.Command

/-- What is attached to the spelling of an option. -/
inductive Attached where
  | nothing
  /-- Characters right behind a letter. -/
  | tail (cs : List Char)
  /-- Characters behind a letter and an equals sign. -/
  | letterValue (cs : List Char)
  /-- Characters behind a word and an equals sign. -/
  | wordValue (cs : List Char)
deriving DecidableEq, Repr

/-- An argument, read by itself. -/
inductive Arg where
  | value (s : String)
  | option (o : Opt) (attached : Attached)
  /-- Looks like an option and is none. -/
  | unknown (s : String)
  /-- Two dashes, behind which nothing is an option. -/
  | separator
deriving DecidableEq, Repr

/-- A number with a minus sign: digits, or digits with a point among them that is not the last.
A newline at the end does not count. -/
def looksNegative (cs : List Char) : Bool :=
  match cs with
  | '-' :: cs =>
    let cs := if cs.getLast? = some '\n' then cs.dropLast else cs
    match cs.dropWhile Text.isDigit with
    | [] => !cs.isEmpty
    | '.' :: decimals => !decimals.isEmpty && decimals.all Text.isDigit
    | _ => false
  | _ => false

/-- What stands behind an equals sign, attached to the spelling before the sign. -/
def Attached.behindEquals : (spelling behind : List Char) → Attached
  | ['-', _], behind => .letterValue behind
  | _, behind => .wordValue behind

/-- The part before the first equals sign, and what is attached to it. -/
def cutEquals (cs : List Char) : List Char × Attached :=
  let word := cs.takeWhile (· != '=')
  match cs.dropWhile (· != '=') with
  | _ :: behind => (word, .behindEquals word behind)
  | [] => (cs, .nothing)

/-- The spellings that an argument which spells no option in full may be meant for, with what is
then attached to them. -/
def candidates (cs : List Char) : List (String × Arg) :=
  match cs with
  | '-' :: '-' :: _ =>
    let (word, attached) := cutEquals cs
    (Opt.table.filter fun (s, _) => word.isPrefixOf s.toList).map fun (s, o) =>
      (s, .option o attached)
  | '-' :: c :: tail =>
    match Opt.ofSpelling? (String.ofList ['-', c]) with
    | some o => [(String.ofList ['-', c], .option o (.tail tail))]
    | none => []
  | _ => []

/-- Reads an argument that is not the separator. -/
def Arg.read (s : String) : Except UsageError Arg :=
  let cs := s.toList
  let (word, attached) := cutEquals cs
  match cs with
  | '-' :: _ :: _ =>
    match Opt.ofSpelling? s, Opt.ofSpelling? (String.ofList word) with
    | some o, _ => .ok (.option o .nothing)
    | none, some o => .ok (.option o attached)
    | none, none =>
      match candidates cs with
      | [] => .ok (if looksNegative cs || cs.contains ' ' then .value s else .unknown s)
      | [(_, arg)] => .ok arg
      | several => .error (.ambiguous s (several.map (·.1)))
  | _ => .ok (.value s)

/-- Reads all arguments, each by itself. -/
def Arg.readAll : List String → Except UsageError (List Arg)
  | [] => .ok []
  | s :: rest =>
    if s = "--" then .ok (.separator :: rest.map .value)
    else do
      let arg ← Arg.read s
      return arg :: (← Arg.readAll rest)

end LetFun.Command
