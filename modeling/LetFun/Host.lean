import LetFun.Expr
import LetFun.Text.Quoted
import LetFun.Text.Utf8
/-!
# The world around a run

A run reads at most one file, writes at most one, and asks at most once for a
drawing.  `Host` is the world's side of this, given as its answers; `Trace` is
the run's side, all that it printed, noted and asked for, in order.
-/

namespace LetFun

/-- A failure of the operating system. -/
structure OsError where
  number : Nat
  text : String
deriving DecidableEq, Repr

/-- A failure, with the path that it is about. -/
def OsError.message (e : OsError) (path : String) : String :=
  "[Errno " ++ toString e.number ++ "] " ++ e.text ++ ": " ++ Text.quoted path

namespace OsError

def notFound : OsError := ⟨2, "No such file or directory"⟩
def notDirectory : OsError := ⟨20, "Not a directory"⟩
def isDirectory : OsError := ⟨21, "Is a directory"⟩
def nameTooLong : OsError := ⟨36, "File name too long"⟩

end OsError

/-- A drawing that is asked for: the graph, and the path without the format's extension. -/
structure Job where
  path : String
  format : String
  dot : String
deriving DecidableEq, Repr

/-- How the world answers a run. -/
structure Host where
  /-- The bytes of a file. -/
  read : String → Except OsError (List UInt8)
  /-- Why a file cannot be given a content, if it cannot. -/
  write : String → String → Option OsError
  /-- Why a drawing fails, if it does. -/
  render : Job → Option String

/-- What a run notes for whoever debugs it. -/
inductive Notice where
  | parsed (characters : Nat) (kind : ExprKind)
  | fault (pos : Pos)
  | renderFailed
deriving DecidableEq, Repr

def Notice.text : Notice → String
  | parsed n kind => "parsed " ++ toString n ++ " characters into " ++ kind.name
  | fault p => "error at line " ++ toString p.line ++ ", column " ++ toString p.column
  | renderFailed => "graphviz render failed"

/-- A file that a run wrote, or could not write. -/
structure Write where
  path : String
  content : String
  failure : Option OsError
deriving DecidableEq, Repr

/-- A drawing that a run asked for, and how it failed if it did. -/
structure Rendering where
  job : Job
  failure : Option String
deriving DecidableEq, Repr

/-- What a run leaves behind. -/
structure Trace where
  stdout : String
  notices : List Notice
  writes : List Write
  renderings : List Rendering
deriving DecidableEq, Repr

namespace Trace

def empty : Trace := ⟨"", [], [], []⟩

def append (s t : Trace) : Trace :=
  ⟨s.stdout ++ t.stdout, s.notices ++ t.notices, s.writes ++ t.writes,
    s.renderings ++ t.renderings⟩

instance : Append Trace := ⟨append⟩

/-- Prints a text. -/
def print (s : String) : Trace := { empty with stdout := s }

/-- Prints a text and ends the line. -/
def printLine (s : String) : Trace := print (s ++ "\n")

/-- Notes something. -/
def note (n : Notice) : Trace := { empty with notices := [n] }

@[simp] theorem stdout_append (s t : Trace) : (s ++ t).stdout = s.stdout ++ t.stdout := rfl

@[simp] theorem notices_append (s t : Trace) : (s ++ t).notices = s.notices ++ t.notices := rfl

@[simp] theorem writes_append (s t : Trace) : (s ++ t).writes = s.writes ++ t.writes := rfl

@[simp] theorem renderings_append (s t : Trace) :
    (s ++ t).renderings = s.renderings ++ t.renderings := rfl

@[simp] theorem append_empty (t : Trace) : t ++ empty = t := by
  show append t empty = t
  simp [append, empty]

end Trace

/-- What ends a run before its time. -/
inductive Escape where
  /-- A file holds no text. -/
  | undecodable (fault : Text.Utf8.Fault)
  /-- A path holds a null character. -/
  | nullInPath
deriving DecidableEq, Repr

def Escape.message : Escape → String
  | undecodable fault => fault.message
  | nullInPath => "embedded null byte"

end LetFun
