import LetFun.Proofs.Command.Effects
/-!
# Options that do not meddle

What a report on a text is to hold plays no part in its verdict, and no option in
what another one asks for: the table that is saved is that of the text, and a
drawing that is asked for is that of the text in the format that is named, whatever
came of saving.  The one thing that showing tokens changes about a fault is that all
of the text is read before it is parsed, so an error of the lexer is met first.

A path for the table with a null character in it is no path: the report ends there.

Results:
* `stdout_report_of_error`: what a report says of a text with a fault.
* `loud_takeAll`: asking for notices changes nothing else about a request.
* `reports_agree`: the options of two reports on a text do not meddle.
-/
namespace LetFun

/-! ## Texts that are not parsed -/

section
variable {text : String} {f : Fault}

/-- A parse comes to the error of the lexer, or to an error of syntax. -/
theorem fault_of_lex {e : LexError} (hlex : lex text = .error e) (h : parse text = .error f) :
    f = .lex e ∨ ∃ err, f = .parse err := by
  rcases parseWithin_limit (some nestingLimit) text with hnone | ⟨-, p, hdeep⟩
  · have hruling := ruling_parse text
    rw [← hnone, show parseWithin (some nestingLimit) text = .error f from h] at hruling
    cases hruling with
    | lexical hfault =>
      rw [lex_eq, hfault] at hlex
      cases hlex
      exact .inl rfl
    | syntactic => exact .inr ⟨_, rfl⟩
  · rw [show parseWithin (some nestingLimit) text = .error f from h] at hdeep
    cases hdeep
    exact .inr ⟨_, rfl⟩

theorem stdout_fault (f : Fault) : f.report.stdout = "Syntax Error: " ++ f.message ++ "\n" := by
  simp [Fault.report, Trace.printLine, Trace.print, Trace.note, Trace.empty]

/-- The tokens of a text that are shown before it is parsed. -/
def Settings.shown (s : Settings) (text : String) : String :=
  match s.tokens, lex text with
  | true, .ok ts => tokenLines ts
  | _, _ => ""

/-- What is said of a text with a fault.  Where tokens are shown the whole text is read first, so
an error of the lexer is met before any error of syntax. -/
theorem stdout_report_of_error (s : Settings) (host : Host) (h : parse text = .error f) :
    ∃ g, (report s host text).1.stdout =
        s.shown text ++ ("Syntax Error: " ++ g.message ++ "\n") ∧
      ((∃ e err, s.tokens = true ∧ lex text = .error e ∧ f = .parse err ∧ g = .lex e) ∨
        (¬(∃ e err, s.tokens = true ∧ lex text = .error e ∧ f = .parse err) ∧ g = f)) := by
  unfold report Settings.showTokens Settings.shown
  cases s.tokens with
  | false => exact ⟨f, by simp [h, stdout_fault, Trace.print], by simp⟩
  | true =>
    cases hlex : lex text with
    | ok ts => exact ⟨f, by simp [h, stdout_fault, Trace.print], by simp⟩
    | error e =>
      refine ⟨.lex e, by simp [stdout_fault], ?_⟩
      rcases fault_of_lex hlex h with rfl | ⟨err, rfl⟩ <;> simp

theorem report_of_error (s : Settings) (host : Host) (h : parse text = .error f) :
    (report s host text).2 = .refused ∧ (report s host text).1.Quiet :=
  report_of_refused s host (by simp [h])

end

/-! ## Notices -/

namespace Command

/-- A request for notices as well. -/
def Request.loud (r : Request) : Request := { r with verbose := true }

namespace Progress

def loud (p : Progress) : Progress := { p with request := p.request.loud }

theorem loud_set (p : Progress) (o : Opt) (value : Option String) :
    p.loud.set o value = (p.set o value).map loud := by
  cases o <;> rfl

theorem loud_take (p : Progress) (o : Opt) (value : Option String) :
    p.loud.take o value = (p.take o value).map loud := by
  have hsource : p.loud.source = p.source := rfl
  unfold take
  rw [hsource]
  split
  · split
    · split
      · exact loud_set p o value
      · rfl
    · exact loud_set { p with source := some o } o value
  · exact loud_set p o value

theorem loud_takeSwitches (p : Progress) (os : List Opt) :
    p.loud.takeSwitches os = (p.takeSwitches os).map loud := by
  induction os generalizing p with
  | nil => rfl
  | cons o os ih =>
    simp only [takeSwitches, List.foldlM_cons, loud_take] at ih ⊢
    cases p.take o none with
    | error stop => rfl
    | ok q => exact ih q

/-- What goes on in the same way goes on in the same way behind a step. -/
theorem loud_bind {x : Except Stop Progress} {g : Progress → Except Stop Progress}
    (h : ∀ p, g p.loud = (g p).map loud) : x.map loud >>= g = (x >>= g).map loud := by
  cases x with
  | error stop => rfl
  | ok p => exact h p

/-- Asking for notices changes nothing else about a request. -/
theorem loud_takeAll (edition : Edition) (p : Progress) (args : List Arg) :
    p.loud.takeAll edition args = (p.takeAll edition args).map loud := by
  fun_induction takeAll edition p args with
  | case1 p => rfl
  | case2 p s rest ih => exact ih
  | case3 p s rest ih => exact ih
  | case4 p rest ih => exact ih
  | case5 p o attached rest e hb => simp only [takeAll, hb]; rfl
  | case6 p o attached rest switches hb ih =>
    simp only [takeAll, hb, loud_takeSwitches]
    exact loud_bind ih
  | case7 p o attached rest switches s hb ih =>
    have hleave : p.loud.leave s = (p.leave s).loud := rfl
    simp only [takeAll, hb, hleave, loud_takeSwitches]
    exact loud_bind ih
  | case8 p o attached rest switches o' value hb ih =>
    simp only [takeAll, hb, loud_takeSwitches]
    refine loud_bind fun q => ?_
    rw [loud_take]
    exact loud_bind ih
  | case9 p o attached switches o' hb s rest ih =>
    simp only [takeAll, hb, loud_takeSwitches]
    refine loud_bind fun q => ?_
    rw [loud_take]
    exact loud_bind ih
  | case10 p o attached rest switches o' hb hvalue =>
    simp only [takeAll, hb]
    rfl

end Progress

theorem readAll_verbose (args : List String) :
    Arg.readAll ("--verbose" :: args) =
      (Arg.readAll args).map (.option .verbose .nothing :: ·) := by
  have hread : Arg.read "--verbose" = .ok (.option .verbose .nothing) := rfl
  have hword : ¬"--verbose" = "--" := by decide
  simp only [Arg.readAll, hread, if_neg hword]
  cases Arg.readAll args <;> rfl

theorem ofArgs_verbose (edition : Edition) (args : List String) :
    Request.ofArgs edition ("--verbose" :: args) = (Request.ofArgs edition args).map .loud := by
  simp only [Request.ofArgs, readAll_verbose]
  cases Arg.readAll args with
  | error e => rfl
  | ok args =>
    have htake : Progress.initial.takeAll edition (.option .verbose .nothing :: args) =
        (Progress.initial.takeAll edition args).map .loud :=
      Progress.loud_takeAll edition Progress.initial args
    simp only [bind, pure, Except.bind, Except.pure, Except.mapError, Except.map, htake]
    cases Progress.initial.takeAll edition args with
    | error stop => rfl
    | ok p =>
      by_cases hextras : p.extras.isEmpty = true
      · simp only [Progress.loud, hextras, if_true]
      · simp only [Progress.loud, hextras]
        rfl

theorem run_verbose (edition : Edition) (args : List String) (input : String) (host : Host) :
    ∃ verbose, run edition ("--verbose" :: args) input host =
      { run edition args input host with verbose } := by
  simp only [run, ofArgs_verbose]
  cases Request.ofArgs edition args with
  | error stop => cases stop <;> exact ⟨false, rfl⟩
  | ok r => exact ⟨true, rfl⟩

end Command

/-! ## Two reports on a text -/

/-- The path for the table, if there is one, has no null character in it. -/
def Settings.NullFree (s : Settings) : Prop := ∀ path ∈ s.json, '\x00' ∉ path.toList

section
variable {s s' : Settings} (host host' : Host) {text : String}

theorem Settings.content_of_saveTable {e : Expr} {t : Trace} {w : Write}
    (h : s.saveTable host e = .ok t) (hw : w ∈ t.writes) :
    w.content = (Table.ofExpr false e).json := by
  unfold saveTable at h
  split at h
  · cases h
    cases hw
  · split at h
    · cases h
    · cases h
      obtain rfl := List.mem_singleton.1 hw
      rfl

theorem content_of_write {e : Expr} {w : Write} (h : parse text = .ok e)
    (hw : w ∈ (report s host text).1.writes) : w.content = (Table.ofExpr false e).json := by
  obtain ⟨tokens, htokens⟩ := s.exists_showTokens h
  have hshown := (s.showTree_quiet e).1
  have hdrawn := (s.drawTree_effects host e).1
  simp only [report, htokens, h, Settings.deliver] at hw
  cases hsaved : s.saveTable host e with
  | error escape => simp [hsaved, hshown, Trace.print, Trace.note, Trace.empty] at hw
  | ok t =>
    have hmem : w ∈ t.writes := by
      simpa [hsaved, hshown, hdrawn, Trace.print, Trace.note, Trace.empty] using hw
    exact Settings.content_of_saveTable host hsaved hmem

theorem contents_agree {w w' : Write} (hw : w ∈ (report s host text).1.writes)
    (hw' : w' ∈ (report s' host' text).1.writes) : w.content = w'.content := by
  cases h : parse text with
  | ok e => rw [content_of_write host h hw, content_of_write host' h hw']
  | error f =>
    rw [(report_of_error s host h).2.1] at hw
    cases hw

theorem verdicts_agree (hs : s.NullFree) (hs' : s'.NullFree) :
    (report s host text).2 = (report s' host' text).2 := by
  cases h : parse text with
  | ok e => rw [(report_of_ok host hs h).1, (report_of_ok host' hs' h).1]
  | error f => rw [(report_of_error s host h).1, (report_of_error s' host' h).1]

theorem jobs_agree (hs : s.NullFree) (hs' : s'.NullFree) (hviz : s.viz = s'.viz)
    (hformat : s.format = s'.format) :
    (report s host text).1.renderings.map (·.job) =
      (report s' host' text).1.renderings.map (·.job) := by
  cases h : parse text with
  | ok e =>
    rw [(report_of_ok host hs h).2.2, (report_of_ok host' hs' h).2.2, Settings.jobs, Settings.jobs,
      hviz, hformat]
  | error f => rw [(report_of_error s host h).2.2, (report_of_error s' host' h).2.2]

end

/-- **Options do not meddle.** Take reports on a text with any two settings, in any two worlds.
A text with a fault is refused, and neither saved nor drawn; the fault that is reported is that of
its parse, except that an error of syntax gives way to the error of the lexer where tokens are
shown.  A text that is parsed is accepted and drawn as the path and the format of the drawing say,
whatever comes of saving, if no path for the table has a null character in it.  So the verdicts
agree, and the drawings if their paths and formats do.  What is saved is the table of the text.
And a run that is asked for notices does what it does without them, by whichever edition of the
rules its arguments are read. -/
theorem reports_agree (s s' : Settings) (host host' : Host) (text : String) :
    (s.NullFree → s'.NullFree →
      (report s host text).2 = (report s' host' text).2 ∧
      (s.viz = s'.viz → s.format = s'.format →
        (report s host text).1.renderings.map (·.job) =
          (report s' host' text).1.renderings.map (·.job))) ∧
    (∀ w ∈ (report s host text).1.writes, ∀ w' ∈ (report s' host' text).1.writes,
      w.content = w'.content) ∧
    (∀ e, parse text = .ok e → s.NullFree →
      (report s host text).2 = .parsed ∧
      (report s host text).1.writes.map (fun w => (w.path, w.content)) =
        s.json.toList.map (fun path => (path, (Table.ofExpr false e).json)) ∧
      (report s host text).1.renderings.map (·.job) = s.jobs e) ∧
    (∀ f, parse text = .error f →
      (report s host text).2 = .refused ∧
      (report s host text).1.writes = [] ∧ (report s host text).1.renderings = [] ∧
      ∃ g, (report s host text).1.stdout =
          s.shown text ++ ("Syntax Error: " ++ g.message ++ "\n") ∧
        ((∃ e err, s.tokens = true ∧ lex text = .error e ∧ f = .parse err ∧ g = .lex e) ∨
          (¬(∃ e err, s.tokens = true ∧ lex text = .error e ∧ f = .parse err) ∧ g = f))) ∧
    ∀ edition args input, ∃ verbose,
      Command.run edition ("--verbose" :: args) input host =
        { Command.run edition args input host with verbose } := by
  refine ⟨fun hs hs' => ⟨verdicts_agree host host' hs hs', jobs_agree host host' hs hs'⟩,
    fun w hw w' hw' => contents_agree host host' hw hw',
    fun e h hs => report_of_ok host hs h, fun f h => ?_,
    fun edition args input => Command.run_verbose edition args input host⟩
  obtain ⟨hverdict, hwrites, hrenderings⟩ := report_of_error s host h
  exact ⟨hverdict, hwrites, hrenderings, stdout_report_of_error s host h⟩

/-- Neither a failure to save nor what else is shown changes the drawing that is asked for. -/
theorem reports_agree_unwritable :
    let host : Host :=
      ⟨fun _ => .error .notFound, fun _ _ => some .isDirectory, fun _ => some "no renderer"⟩
    let full : Settings := ⟨true, true, some "t", some "g", "SVG"⟩
    let plain : Settings := ⟨false, false, none, some "g", "SVG"⟩
    (report full host "f x").2 = (report plain Session.nowhere "f x").2 ∧
      (report full host "f x").1.renderings.map (·.job) =
        (report plain Session.nowhere "f x").1.renderings.map (·.job) := by
  intro host full plain
  have hfull : full.NullFree := by
    rintro _ ⟨⟩
    decide
  have hplain : plain.NullFree := nofun
  obtain ⟨hverdict, hjobs⟩ := (reports_agree full plain host Session.nowhere "f x").1 hfull hplain
  exact ⟨hverdict, hjobs rfl rfl⟩

/-- A path for the table that has a null character in it ends the report, and so there is no
verdict and nothing is drawn. -/
theorem reports_differ_at_null :
    let null : Settings := ⟨false, true, some "a\x00b", some "t", "svg"⟩
    let plain : Settings := ⟨false, true, none, some "t", "svg"⟩
    (report null Session.nowhere "x").2 ≠ (report plain Session.nowhere "x").2 ∧
      (report null Session.nowhere "x").1.renderings.map (·.job) ≠
        (report plain Session.nowhere "x").1.renderings.map (·.job) := by
  intro null plain
  have hparse : parse "x" = .ok (.var "x" ⟨1, 1⟩) := by
    have hs : scans "x" = ⟨[⟨.ident "x", ⟨1, 1⟩⟩] ++ [⟨.eof, ⟨1, 2⟩⟩], none⟩ := by decide +kernel
    have hshallow : Shallow (some nestingLimit) "x" := shallow_of_within (by rw [hs]; decide)
    rw [parse, parseWithin_of_shallow hshallow]
    exact parse_of_derives (p := ⟨1, 2⟩) (by rw [lex_eq, hs]) (.run (.single .ident))
  have hplain : plain.NullFree := by simp [Settings.NullFree, plain]
  obtain ⟨hverdict, -, hjobs⟩ := report_of_ok Session.nowhere hplain hparse
  have hnull : (report null Session.nowhere "x").2 = .escaped .nullInPath ∧
      (report null Session.nowhere "x").1.renderings = [] := by
    simp only [report, Settings.showTokens, hparse, Settings.deliver]
    exact ⟨rfl, rfl⟩
  have hformat : Text.lower "svg" ∈ Render.formats := by decide +kernel
  rw [hverdict, hjobs, hnull.1, hnull.2]
  exact ⟨by simp, by simp [Settings.jobs, plain, hformat]⟩

end LetFun
