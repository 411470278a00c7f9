import LetFun.Lexer
import LetFun.Parse
import LetFun.Render
import LetFun.Table.Json
import LetFun.Table.Listing
/-!
# The report on one program

A program's text is read, and if it parses its tree is listed, saved and drawn
as the settings say.  Tokens are shown before the text is parsed; at most fifty
of them.  A tree that cannot be saved or drawn is reported and does not make the
program wrong.
-/

namespace LetFun

/-- What a report on a program is to hold. -/
structure Settings where
  tokens : Bool
  listing : Bool
  /-- Where the table is saved. -/
  json : Option String
  /-- Where the drawing goes, without the format's extension. -/
  viz : Option String
  format : String
deriving DecidableEq, Repr

/-- How a report on a program ends. -/
inductive Verdict where
  | parsed
  | refused
  | escaped (e : Escape)
deriving DecidableEq, Repr

/-- How many tokens a report shows. -/
def tokensShown : Nat := 50

/-- The lines that show the tokens of a text. -/
def tokenLines (ts : List Token) : String :=
  let line := fun ((t, i) : Token × Nat) =>
    "  " ++ Text.alignRight 3 (toString i) ++ ": " ++ t.text ++ "\n"
  "Tokens (" ++ toString ts.length ++ "):\n" ++
    String.join ((ts.take tokensShown).zipIdx.map line) ++
    if tokensShown < ts.length then
      "  ... and " ++ toString (ts.length - tokensShown) ++ " more\n"
    else ""

namespace Settings

/-- The tokens as far as they are wanted. -/
def showTokens (s : Settings) (text : String) : Except Fault String :=
  if s.tokens then
    match lex text with
    | .ok ts => .ok (tokenLines ts)
    | .error e => .error (.lex e)
  else .ok ""

/-- The listing if it is wanted. -/
def showTree (s : Settings) (e : Expr) : Trace :=
  if s.listing then .print ("\nAST:\n" ++ e.listing ++ "\n") else .empty

/-- Saves the table if that is wanted. -/
def saveTable (s : Settings) (host : Host) (e : Expr) : Except Escape Trace :=
  match s.json with
  | none => .ok .empty
  | some path =>
    if path.toList.contains '\x00' then .error .nullInPath
    else
      let content := (Table.ofExpr false e).json
      let failure := host.write path content
      let line := match failure with
        | none => "Wrote AST JSON to " ++ path
        | some err => "Failed to write AST JSON to " ++ path ++ ": " ++ err.message path
      .ok { Trace.printLine line with writes := [⟨path, content, failure⟩] }

/-- What is said when a tree is not drawn. -/
def notDrawn (path reason : String) : Trace :=
  Trace.note .renderFailed ++
    Trace.printLine ("Failed to render AST visualization to " ++ path ++ ": " ++ reason)

/-- Has the tree drawn if that is wanted. -/
def drawTree (s : Settings) (host : Host) (e : Expr) : Trace :=
  match s.viz with
  | none => .empty
  | some path =>
    let (renderings, result) := Render.draw host e path s.format
    let said := match result with
      | .ok _ => Trace.printLine ("Wrote AST visualization to " ++ path ++ "." ++ s.format)
      | .error failure => notDrawn path failure.message
    { said with renderings }

/-- Shows, saves and draws a tree. -/
def deliver (s : Settings) (host : Host) (e : Expr) : Trace × Verdict :=
  match s.saveTable host e with
  | .error escape => (s.showTree e, .escaped escape)
  | .ok saved => (s.showTree e ++ saved ++ s.drawTree host e, .parsed)

end Settings

/-- What is said of a fault. -/
def Fault.report (f : Fault) : Trace :=
  Trace.note (.fault f.pos) ++ Trace.printLine ("Syntax Error: " ++ f.message)

/-- Reports on the program that a text holds. -/
def report (s : Settings) (host : Host) (text : String) : Trace × Verdict :=
  match s.showTokens text with
  | .error fault => (fault.report, .refused)
  | .ok tokens =>
    match parse text with
    | .error fault => (Trace.print tokens ++ fault.report, .refused)
    | .ok e =>
      let (delivered, verdict) := s.deliver host e
      (Trace.print tokens ++ Trace.note (.parsed text.length e.kind) ++ delivered, verdict)

end LetFun
