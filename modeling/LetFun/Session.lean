import LetFun.Report
import LetFun.Text.Blank
import LetFun.Text.Newline
/-!
# Sessions

In a session every line typed is a program of its own, and is reported on alone.
Blank lines are passed over; the words `quit`, `exit` and `q`, in any case of
letters, end the session, and so does the end of the input.  Nothing is saved or
drawn.
-/

namespace LetFun.Session

def header : String :=
  "\nInteractive Parser Mode (type 'quit' to exit)\n" ++
    String.ofList (List.replicate 80 '=') ++ "\n"

def prompt : String := "\nEnter expression: "

def farewell : String := "Goodbye!\n"

/-- What is said when the input ends. -/
def exhausted : String := "\n\nExiting...\n"

/-- What a line asks for. -/
inductive Turn where
  | quit
  | pass
  | program (text : String)
deriving DecidableEq, Repr

def Turn.of (line : String) : Turn :=
  let text := Text.trim line
  if ["quit", "exit", "q"].contains (Text.lower text) then .quit
  else if text.isEmpty then .pass
  else .program text

/-- A world that nothing is asked of. -/
def nowhere : Host := ⟨fun _ => .error .notFound, fun _ _ => some .notFound, fun _ => none⟩

/-- The report on a line's program. -/
def respond (tokens listing : Bool) (text : String) : Trace :=
  (report ⟨tokens, listing, none, none, "svg"⟩ nowhere text).1

/-- The session on the lines that are left. -/
def converse (tokens listing : Bool) : List String → Trace
  | [] => .print (prompt ++ exhausted)
  | line :: lines =>
    Trace.print prompt ++
      match Turn.of line with
      | .quit => .print farewell
      | .pass => converse tokens listing lines
      | .program text => respond tokens listing text ++ converse tokens listing lines

/-- A whole session. -/
def run (tokens listing : Bool) (input : String) : Trace :=
  Trace.print header ++ converse tokens listing (Text.lines input)

end LetFun.Session
