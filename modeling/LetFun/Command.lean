import LetFun.Command.Help
import LetFun.Command.Request
import LetFun.Session
/-!
# The command

The command reports on one program, given by a file or by an argument, or holds
a session.  It ends with a status: 0 if all went well, 1 if the program is wrong
or its file cannot be read, 2 if the arguments are.  Failures of saving and
drawing do not count.
-/

namespace LetFun.Command

/-- How a run ends. -/
inductive Status where
  | exit (code : Nat)
  | escaped (e : Escape)
deriving DecidableEq, Repr

/-- All that comes of a run. -/
structure Outcome where
  status : Status
  trace : Trace
  /-- What is wrong with the arguments, as it is printed. -/
  complaint : String
  /-- Whether notices are shown. -/
  verbose : Bool
deriving DecidableEq, Repr

/-- A path counts as given only if it is not empty. -/
def givenPath (path : Option String) : Option String := path.filter fun p => !p.isEmpty

/-- What is said of wrong arguments. -/
def complain (e : UsageError) : String := usage ++ program ++ ": error: " ++ e.message ++ "\n"

/-- What a report on one program is to hold. Without a format nothing can be drawn. -/
def Request.settings (r : Request) : Settings :=
  match r.format with
  | some format => ⟨r.printTokens, r.listing, givenPath r.json, givenPath r.viz, format⟩
  | none => ⟨r.printTokens, r.listing, givenPath r.json, none, ""⟩

/-- What is said of a drawing that there is no format for. -/
def Request.undrawn (r : Request) : Trace :=
  match r.format, givenPath r.viz with
  | none, some path => Settings.notDrawn path "'list' object has no attribute 'lower'"
  | _, _ => .empty

/-- Where the text of the one program comes from. -/
inductive Source where
  | session
  | file (path : String)
  | text (s : String)
  | help
deriving DecidableEq, Repr

def Request.source (r : Request) : Source :=
  if r.interactive then .session
  else
    match givenPath r.file, r.expr with
    | some path, _ => .file path
    | none, some s => .text s
    | none, none => .help

/-- Reports on the program in a text. -/
def reportOn (r : Request) (host : Host) (text : String) : Status × Trace :=
  match report r.settings host text with
  | (trace, .parsed) => (.exit 0, trace ++ r.undrawn)
  | (trace, .refused) => (.exit 1, trace)
  | (trace, .escaped e) => (.escaped e, trace)

/-- The text of a file: bytes read as UTF-8, with every line end a newline. -/
def readText (host : Host) (path : String) : Except OsError (Except Escape String) :=
  if path.toList.contains '\x00' then .ok (.error .nullInPath)
  else (host.read path).map fun bytes =>
    match Text.Utf8.decode bytes with
    | .ok text => .ok (Text.unifyNewlines text)
    | .error fault => .error (.undecodable fault)

/-- Does what a request asks for. -/
def perform (r : Request) (input : String) (host : Host) : Status × Trace :=
  match r.source with
  | .session => (.exit 0, Session.run r.printTokens r.listing input)
  | .help => (.exit 0, .print help)
  | .text text => reportOn r host text
  | .file path =>
    match readText host path with
    | .error e => (.exit 1, .printLine ("Failed to read file " ++ path ++ ": " ++ e.message path))
    | .ok (.error escape) => (.escaped escape, .empty)
    | .ok (.ok text) => reportOn r host text

/-- Runs the command with the given arguments, read by the given rules, and input. -/
def run (edition : Edition) (args : List String) (input : String) (host : Host) : Outcome :=
  match Request.ofArgs edition args with
  | .error .help => ⟨.exit 0, .print help, "", false⟩
  | .error (.usage e) => ⟨.exit 2, .empty, complain e, false⟩
  | .ok r =>
    let (status, trace) := perform r input host
    ⟨status, trace, "", r.verbose⟩

/-- The lines that show a notice: the notice behind its time, and the failure behind it. -/
def showNotice (time failure : String) (n : Notice) : String :=
  time ++ " - DEBUG - " ++ n.text ++ "\n" ++
    match n with
    | .renderFailed => failure ++ "\n"
    | _ => ""

/-- What a run prints as errors. -/
def Outcome.stderr (o : Outcome) (time failure : String) : String :=
  o.complaint ++
    if o.verbose then String.join (o.trace.notices.map (showNotice time failure)) else ""

end LetFun.Command
