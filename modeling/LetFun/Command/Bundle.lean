import LetFun.Command.Arg
/-!
# Bundles of options

One argument may spell several options: letters of options without a value share
one dash, and the last of them may be one that takes a value (`-ve x`).

The rules for what is attached have come in two editions.  In the first one, `=`
behind the letter of an option without a value does not keep further letters away
(`-v=ex`), a letter that spells no option spoils the argument, and two dashes,
attached as a value, say that there is none.  In the second one, `=` behind a letter
has a value behind it, what spells no option is left over as an argument that nobody
takes, and an attached value is the value, whatever it is.
-/

namespace LetFun.Command

/-- The editions of the rules for what is attached to an option. -/
inductive Edition where
  | first
  | second
deriving DecidableEq, Repr

/-- How the options that one argument spells end. -/
inductive Ending where
  | complete
  /-- The last one has this value attached, or one that is dropped. -/
  | attached (o : Opt) (value : Option String)
  /-- The last one needs the next argument. -/
  | needs (o : Opt)
  /-- What is left spells no option. -/
  | stray (s : String)
deriving DecidableEq, Repr

/-- The options that one argument spells: some without a value, and how they end. -/
structure Bundle where
  switches : List Opt
  ending : Ending
deriving DecidableEq, Repr

namespace Bundle

/-- An option with nothing attached. -/
def bare (o : Opt) : Bundle := if o.takesValue then ⟨[], .needs o⟩ else ⟨[o], .complete⟩

/-- The value that attached characters are, unless it is dropped. -/
def valueOf (edition : Edition) (cs : List Char) : Option String :=
  if edition = .first ∧ cs = ['-', '-'] then none else some (String.ofList cs)

/-- An option with a value attached. -/
def ofValue (edition : Edition) (o : Opt) (cs : List Char) : Except UsageError Bundle :=
  if o.takesValue then .ok ⟨[], .attached o (valueOf edition cs)⟩
  else .error (.ignoredValue o (String.ofList cs))

/-- An option spelled by a letter, with `cs` behind the letter: its value, or further letters. -/
def ofTail (edition : Edition) (o : Opt) : List Char → Except UsageError Bundle
  | [] => .ok (bare o)
  | c :: cs =>
    if edition = .second ∧ c = '=' then ofValue edition o cs
    else if o.takesValue then ofValue edition o (c :: cs)
    else
      match Opt.ofSpelling? (String.ofList ['-', c]) with
      | some next => do
        let b ← ofTail edition next cs
        return { b with switches := o :: b.switches }
      | none =>
        if edition = .second ∧ c ≠ '-' then .ok ⟨[o], .stray (String.ofList ('-' :: c :: cs))⟩
        else ofValue edition o (c :: cs)

def ofAttached (edition : Edition) (o : Opt) : Attached → Except UsageError Bundle
  | .nothing => .ok (bare o)
  | .tail cs => ofTail edition o cs
  | .letterValue cs =>
    if edition = .first ∧ cs ≠ [] then ofTail edition o cs else ofValue edition o cs
  | .wordValue cs => ofValue edition o cs

end Bundle
end LetFun.Command
