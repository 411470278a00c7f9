import LetFun.Text.Quoted
/-!
# Options

The command takes options only.  An option is spelled by a word of its own
(`--expr`), and some also by a letter (`-e`).  `UsageError` says what can be wrong
with arguments.
-/

namespace LetFun.Command

/-- The options, in the order in which help shows them. -/
inductive Opt where
  | help | file | expr | interactive | printTokens | noAst | json | viz | vizFormat | verbose
deriving DecidableEq, Repr

namespace Opt

def all : List Opt :=
  [help, file, expr, interactive, printTokens, noAst, json, viz, vizFormat, verbose]

def spellings : Opt → List String
  | help => ["-h", "--help"]
  | file => ["--file", "-f"]
  | expr => ["--expr", "-e"]
  | interactive => ["--interactive", "-i"]
  | printTokens => ["--print-tokens"]
  | noAst => ["--no-ast"]
  | json => ["--json"]
  | viz => ["--viz"]
  | vizFormat => ["--viz-format"]
  | verbose => ["--verbose", "-v"]

/-- Whether the option has a value. -/
def takesValue : Opt → Bool
  | file | expr | json | viz | vizFormat => true
  | _ => false

/-- Whether the option says where programs come from; at most one may. -/
def isSource : Opt → Bool
  | file | expr | interactive => true
  | _ => false

/-- The name of an option in messages. -/
def name (o : Opt) : String := "/".intercalate o.spellings

/-- Every spelling with its option. -/
def table : List (String × Opt) := all.flatMap fun o => o.spellings.map fun s => (s, o)

/-- The option that a word or a dash and a letter spells in full. -/
def ofSpelling? (s : String) : Option Opt := (table.find? (·.1 == s)).map (·.2)

end Opt

/-- Why arguments are refused. -/
inductive UsageError where
  | ambiguous (arg : String) (candidates : List String)
  | missingValue (o : Opt)
  /-- A value is attached to an option that takes none. -/
  | ignoredValue (o : Opt) (value : String)
  | conflict (o earlier : Opt)
  | unrecognized (args : List String)
deriving DecidableEq, Repr

def UsageError.message : UsageError → String
  | ambiguous arg candidates =>
    "ambiguous option: " ++ arg ++ " could match " ++ ", ".intercalate candidates
  | missingValue o => "argument " ++ o.name ++ ": expected one argument"
  | ignoredValue o value =>
    "argument " ++ o.name ++ ": ignored explicit argument " ++ Text.quoted value
  | conflict o earlier => "argument " ++ o.name ++ ": not allowed with argument " ++ earlier.name
  | unrecognized args => "unrecognized arguments: " ++ " ".intercalate args

end LetFun.Command
