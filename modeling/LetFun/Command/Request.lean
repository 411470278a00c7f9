import LetFun.Command.Bundle
/-!
# Requests

Once they are read, arguments are taken in order.  A value of its own follows its
option at once.  Of the options that say where programs come from at most one may
be given.  An option whose value is dropped, as only the first edition of the rules
does, is still given: its text is empty, its path or format is none.  Help is given
as soon as it is asked for.  Arguments that nobody takes are collected and refused
at the end.
-/

namespace LetFun.Command

/-- What the command is asked to do. -/
structure Request where
  file : Option String
  expr : Option String
  interactive : Bool
  printTokens : Bool
  listing : Bool
  json : Option String
  viz : Option String
  /-- The format of the drawing, unless its value is dropped. -/
  format : Option String
  verbose : Bool
deriving DecidableEq, Repr

/-- What no argument asks for otherwise. -/
def Request.initial : Request := ⟨none, none, false, false, true, none, none, some "svg", false⟩

/-- Why the command does not start. -/
inductive Stop where
  | help
  | usage (e : UsageError)
deriving DecidableEq, Repr

/-- What the arguments so far have come to. -/
structure Progress where
  request : Request
  /-- The option that says where programs come from. -/
  source : Option Opt
  /-- The arguments that nobody took. -/
  extras : List String
deriving DecidableEq, Repr

namespace Progress

def initial : Progress := ⟨.initial, none, []⟩

def leave (p : Progress) (s : String) : Progress := { p with extras := p.extras ++ [s] }

/-- Sets an option, whose value counts if it takes one. -/
def set (p : Progress) (o : Opt) (value : Option String) : Except Stop Progress :=
  let r := p.request
  match o with
  | .help => .error .help
  | .file => .ok { p with request := { r with file := value } }
  | .expr => .ok { p with request := { r with expr := some (value.getD "") } }
  | .interactive => .ok { p with request := { r with interactive := true } }
  | .printTokens => .ok { p with request := { r with printTokens := true } }
  | .noAst => .ok { p with request := { r with listing := false } }
  | .json => .ok { p with request := { r with json := value } }
  | .viz => .ok { p with request := { r with viz := value } }
  | .vizFormat => .ok { p with request := { r with format := value } }
  | .verbose => .ok { p with request := { r with verbose := true } }

/-- Takes an option, unless an earlier one excludes it. -/
def take (p : Progress) (o : Opt) (value : Option String) : Except Stop Progress :=
  if o.isSource then
    match p.source with
    | some earlier =>
      if earlier = o then p.set o value else .error (.usage (.conflict o earlier))
    | none => { p with source := some o }.set o value
  else p.set o value

/-- Takes options without values, in order. -/
def takeSwitches (p : Progress) (os : List Opt) : Except Stop Progress :=
  os.foldlM (fun p o => p.take o none) p

/-- Takes arguments in order. -/
def takeAll (edition : Edition) (p : Progress) : List Arg → Except Stop Progress
  | [] => .ok p
  | .value s :: rest => (p.leave s).takeAll edition rest
  | .unknown s :: rest => (p.leave s).takeAll edition rest
  | .separator :: rest => (p.leave "--").takeAll edition rest
  | .option o attached :: rest =>
    match Bundle.ofAttached edition o attached with
    | .error e => .error (.usage e)
    | .ok ⟨switches, .complete⟩ => do (← p.takeSwitches switches).takeAll edition rest
    | .ok ⟨switches, .stray s⟩ => do
      (← (p.leave s).takeSwitches switches).takeAll edition rest
    | .ok ⟨switches, .attached o value⟩ => do
      (← (← p.takeSwitches switches).take o value).takeAll edition rest
    | .ok ⟨switches, .needs o⟩ =>
      match rest with
      | .value s :: rest => do
        (← (← p.takeSwitches switches).take o (some s)).takeAll edition rest
      | _ => .error (.usage (.missingValue o))

end Progress

/-- What a list of arguments asks for. -/
def Request.ofArgs (edition : Edition) (args : List String) : Except Stop Request := do
  let args ← (Arg.readAll args).mapError .usage
  let p ← Progress.initial.takeAll edition args
  if p.extras.isEmpty then return p.request
  else throw (.usage (.unrecognized p.extras))

end LetFun.Command
