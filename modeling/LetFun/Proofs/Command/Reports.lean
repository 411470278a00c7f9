import LetFun.Proofs.Command.Independence
/-!
# Reports that tell what was done

What a report says of saving and drawing is printed, and what it does is asked of the
world.  The two agree: a report says that it has saved the table exactly if the table
is in its file, and that it has drawn the tree exactly if the renderer has; and
otherwise it says what has failed.

A drawing is in a file named for the format as the renderer takes it, in lower case.
The report names the format as it was given, so the file that is named is the one
that is there if the format was given in lower case.

A path for the table with a null character in it is no path: the report ends there,
with nothing said of the table or of a drawing, and nothing done.

Results:
* `saving_told`, `drawing_told`: what is said of saving and of drawing, and what is done.
* `reports_tell_effects`: the same of a whole report.
-/
namespace LetFun

/-- The file that the renderer makes. -/
def Job.file (job : Job) : String := job.path ++ "." ++ job.format

/-- The table was to be saved at `path`; what is `said` of that is what the world answered. -/
structure SavingTold (host : Host) (e : Expr) (path : String) (writes : List Write)
    (said : String) : Prop where
  asked : writes =
    [⟨path, (Table.ofExpr false e).json, host.write path (Table.ofExpr false e).json⟩]
  wrote : said = "Wrote AST JSON to " ++ path ++ "\n" ↔
    host.write path (Table.ofExpr false e).json = none
  failed : ∀ err, host.write path (Table.ofExpr false e).json = some err →
    said = "Failed to write AST JSON to " ++ path ++ ": " ++ err.message path ++ "\n"

/-- The tree was to be drawn at `path` in a format; what is `said` of that is what the renderer
answered, if it was asked. -/
structure DrawingTold (host : Host) (path format : String)
    (renderings : List Rendering) (said : String) : Prop where
  asked : ∀ r ∈ renderings, r.job.path = path ∧ r.failure = host.render r.job
  wrote : (∃ file, said = "Wrote AST visualization to " ++ file ++ "\n") ↔
    ∃ job, ⟨job, none⟩ ∈ renderings
  named : ∀ job, ⟨job, none⟩ ∈ renderings → Text.lower format = format →
    said = "Wrote AST visualization to " ++ job.file ++ "\n"
  failed : (∀ job, ⟨job, none⟩ ∉ renderings) → ∃ failure : Render.Failure,
    said = "Failed to render AST visualization to " ++ path ++ ": " ++ failure.message ++ "\n"

/-! ## Lines -/

/-- Texts with different first characters are different, whatever follows. -/
theorem append_ne_append {a b : String} {c d : Char} (ha : a.toList.head? = some c)
    (hb : b.toList.head? = some d) (hcd : c ≠ d) (s t : String) : a ++ s ≠ b ++ t := by
  intro h
  have hhead := congrArg (fun x : String => x.toList.head?) h
  simp only [String.toList_append, List.head?_append, ha, hb, Option.some_or] at hhead
  exact hcd (Option.some.inj hhead)

theorem stdout_printLine (line : String) : (Trace.printLine line).stdout = line ++ "\n" := rfl

theorem stdout_notDrawn (path reason : String) :
    (Settings.notDrawn path reason).stdout =
      "Failed to render AST visualization to " ++ path ++ ": " ++ reason ++ "\n" := by
  simp [Settings.notDrawn, stdout_printLine, Trace.note, Trace.empty]

/-! ## Saving and drawing -/

section
variable {s : Settings} (host : Host) (e : Expr) {path : String}

theorem saving_told (hs : s.NullFree) :
    ∃ t, s.saveTable host e = .ok t ∧ t.renderings = [] ∧
      (s.json = none → t.stdout = "" ∧ t.writes = []) ∧
      ∀ path, s.json = some path → SavingTold host e path t.writes t.stdout := by
  cases hjson : s.json with
  | none =>
    have hsaved : s.saveTable host e = .ok .empty := by simp only [Settings.saveTable, hjson]
    exact ⟨_, hsaved, rfl, fun _ => ⟨rfl, rfl⟩, by simp⟩
  | some path =>
    have hnull : path.toList.contains '\x00' = false := by simpa using hs path hjson
    simp only [Settings.saveTable, hjson, hnull, Bool.false_eq_true, if_false]
    refine ⟨_, rfl, rfl, by simp, ?_⟩
    rintro _ ⟨⟩
    refine ⟨rfl, ?_, fun err herr => ?_⟩
    · cases hw : host.write path (Table.ofExpr false e).json with
      | none => simp [stdout_printLine]
      | some err =>
        simp only [stdout_printLine, String.append_assoc, reduceCtorEq, iff_false]
        exact append_ne_append rfl rfl (by decide) _ _
    · simp only [herr, stdout_printLine]

theorem saving_escapes (hs : ¬s.NullFree) : s.saveTable host e = .error .nullInPath := by
  obtain ⟨path, hpath, hmem⟩ : ∃ path ∈ s.json, '\x00' ∈ path.toList := by
    simpa [Settings.NullFree] using hs
  have hjson : s.json = some path := hpath
  simp [Settings.saveTable, hjson, hmem]

/-- If nothing is drawn, what is said is why. -/
theorem drawing_of_failure {failure : Render.Failure} {renderings : List Rendering}
    (hasked : ∀ r ∈ renderings, r.job.path = path ∧ r.failure = host.render r.job)
    (hnone : ∀ job, ⟨job, none⟩ ∉ renderings) (format : String) :
    DrawingTold host path format renderings
      (Settings.notDrawn path failure.message).stdout where
  asked := hasked
  wrote := by
    rw [stdout_notDrawn]
    refine ⟨fun ⟨file, hfile⟩ => ?_, fun ⟨job, hjob⟩ => absurd hjob (hnone job)⟩
    simp only [String.append_assoc] at hfile
    exact absurd hfile (append_ne_append rfl rfl (by decide) _ _)
  named job hjob := absurd hjob (hnone job)
  failed _ := ⟨failure, stdout_notDrawn path failure.message⟩

/-- If the tree is drawn, the format that is said is the one that was given. -/
theorem drawing_of_job {format : String} {job : Job} (hjob : job.path = path)
    (hformat : job.format = Text.lower format) (hrender : host.render job = none) :
    DrawingTold host path format [⟨job, none⟩]
      ("Wrote AST visualization to " ++ path ++ "." ++ format ++ "\n") where
  asked := List.forall_mem_singleton.2 ⟨hjob, hrender.symm⟩
  wrote := iff_of_true ⟨path ++ "." ++ format, by simp only [String.append_assoc]⟩
    ⟨job, List.mem_singleton_self _⟩
  named job' hmem hlower := by
    cases List.mem_singleton.1 hmem
    simp only [Job.file, hjob, hformat, hlower, String.append_assoc]
  failed hnone := absurd (List.mem_singleton_self _) (hnone job)

theorem drawing_told (hviz : s.viz = some path) :
    DrawingTold host path s.format (s.drawTree host e).renderings (s.drawTree host e).stdout := by
  simp only [Settings.drawTree, hviz, Render.draw]
  cases hjob : Render.job? e path s.format with
  | error failure =>
    exact drawing_of_failure host (List.forall_mem_nil _) (fun _ => List.not_mem_nil) s.format
  | ok job =>
    obtain ⟨-, hj⟩ := Render.job?_eq_ok_iff.1 hjob
    dsimp only
    cases hrender : host.render job with
    | some reason =>
      refine drawing_of_failure host ?_ (by simp) s.format
      exact List.forall_mem_singleton.2 ⟨by rw [hj], hrender.symm⟩
    | none => exact drawing_of_job host (by rw [hj]) (by rw [hj]) hrender

end

/-! ## Whole reports -/

theorem Settings.showTokens_of_ok (s : Settings) {text : String} {e : Expr}
    (h : parse text = .ok e) : s.showTokens text = .ok (s.shown text) := by
  obtain ⟨ts, hlex⟩ := lex_of_parse h
  unfold showTokens shown
  cases s.tokens <;> simp [hlex]

/-- A report on a text that is parsed delivers the tree behind the tokens. -/
theorem report_of_tree {s : Settings} (host : Host) {text : String} {e : Expr}
    (h : parse text = .ok e) :
    (report s host text).2 = (s.deliver host e).2 ∧
      (report s host text).1.stdout = s.shown text ++ (s.deliver host e).1.stdout ∧
      (report s host text).1.writes = (s.deliver host e).1.writes ∧
      (report s host text).1.renderings = (s.deliver host e).1.renderings := by
  simp [report, s.showTokens_of_ok h, h, Trace.print, Trace.note, Trace.empty]

/-- **Reports tell what was done.** A report on a text that is parsed is the tokens and the listing
as far as they are wanted, then what is said of saving, then what is said of drawing. If a path is
given for the table, it is said that the table was written to it exactly if the world has written
it, and otherwise how that failed. If a path is given for the drawing, it is said that the drawing
was written to some file exactly if the renderer was asked and has not failed, and otherwise why
there is none; the file is the one that the renderer made, if the format was given in lower case.
If the path for the table has a null character in it, nothing is said of either, and nothing
is done. -/
theorem reports_tell_effects (s : Settings) (host : Host) {text : String} {e : Expr}
    (h : parse text = .ok e) :
    let t := (report s host text).1
    (s.NullFree → (report s host text).2 = .parsed ∧ ∃ saved drawn,
      t.stdout = s.shown text ++ ((s.showTree e).stdout ++ saved ++ drawn) ∧
      (s.json = none → saved = "" ∧ t.writes = []) ∧
      (∀ path, s.json = some path → SavingTold host e path t.writes saved) ∧
      (s.viz = none → drawn = "" ∧ t.renderings = []) ∧
      (∀ path, s.viz = some path → DrawingTold host path s.format t.renderings drawn)) ∧
    (¬s.NullFree → (report s host text).2 = .escaped .nullInPath ∧
      t.stdout = s.shown text ++ (s.showTree e).stdout ∧ t.writes = [] ∧ t.renderings = []) := by
  intro t
  obtain ⟨hverdict, hstdout, hwrites, hrenderings⟩ := report_of_tree (s := s) host h
  obtain ⟨hshown, hshown'⟩ := s.showTree_quiet e
  rw [hverdict]
  refine ⟨fun hs => ?_, fun hs => ?_⟩
  · obtain ⟨saved, hsaved, hnone, hempty, htold⟩ := saving_told host e hs
    have hdrawn := (s.drawTree_effects host e).1
    simp only [Settings.deliver, hsaved, Trace.stdout_append, Trace.writes_append,
      Trace.renderings_append, hshown, hshown', hnone, hdrawn, List.nil_append, List.append_nil]
      at hstdout hwrites hrenderings ⊢
    refine ⟨trivial, saved.stdout, (s.drawTree host e).stdout, hstdout, ?_⟩
    rw [hwrites, hrenderings]
    exact ⟨hempty, htold, fun hviz => by simp [Settings.drawTree, hviz, Trace.empty],
      fun path hviz => drawing_told host e hviz⟩
  · simp only [Settings.deliver, saving_escapes host e hs, hshown, hshown']
      at hstdout hwrites hrenderings ⊢
    exact ⟨trivial, hstdout, hwrites, hrenderings⟩

theorem parse_variable : parse "x" = .ok (.var "x" ⟨1, 1⟩) := by
  have hs : scans "x" = ⟨[⟨.ident "x", ⟨1, 1⟩⟩] ++ [⟨.eof, ⟨1, 2⟩⟩], none⟩ := by decide +kernel
  exact parseWithin_of_scans hs (by decide) (.run (.single .ident))

/-- A table that cannot be saved does not keep the drawing from being told. -/
theorem reports_tell_effects_unwritable :
    let host : Host := ⟨fun _ => .error .notFound, fun _ _ => some .isDirectory, fun _ => none⟩
    let s : Settings := ⟨false, false, some "t", some "g", "svg"⟩
    parse "x" = .ok (.var "x" ⟨1, 1⟩) ∧ s.NullFree ∧ (report s host "x").2 = .parsed ∧
      (report s host "x").1.stdout =
        "Failed to write AST JSON to t: [Errno 21] Is a directory: 't'\n" ++
          "Wrote AST visualization to g.svg\n" := by
  intro host s
  have hs : s.NullFree := by
    rintro _ ⟨⟩
    decide
  obtain ⟨hverdict, saved, drawn, hstdout, -, hsaved, -, hdrawn⟩ :=
    (reports_tell_effects s host parse_variable).1 hs
  have hsvg : Text.lower "svg" = "svg" ∧ "svg" ∈ Render.formats := by decide +kernel
  have hjob : ⟨⟨"g", "svg", (Expr.var "x" ⟨1, 1⟩).dot⟩, none⟩ ∈
      (report s host "x").1.renderings := by
    have hjobs := (report_of_ok host hs parse_variable).2.2
    simp only [Settings.jobs, s, hsvg, if_true] at hjobs
    obtain ⟨r, hr, hjob⟩ := List.map_eq_singleton_iff.1 hjobs
    have hfailure := ((hdrawn "g" rfl).asked r (by rw [hr]; exact List.mem_singleton_self _)).2
    rw [hr, ← hjob]
    exact List.mem_singleton.2 (congrArg _ hfailure.symm)
  have hnamed := (hdrawn "g" rfl).named _ hjob hsvg.1
  have hfailed := (hsaved "t" rfl).failed _ rfl
  refine ⟨parse_variable, hs, hverdict, ?_⟩
  rw [hstdout, hnamed, hfailed]
  rfl

/-- With a null character in its path the table is not saved, and that is not said. And of a drawing
whose format is given in capitals a file is named that is not there. -/
theorem reports_untold :
    let null : Settings := ⟨false, false, some "a\x00b", none, "svg"⟩
    let capitals : Settings := ⟨false, false, none, some "t", "SVG"⟩
    parse "x" = .ok (.var "x" ⟨1, 1⟩) ∧
      ((report null Session.nowhere "x").1.writes = [] ∧
        (report null Session.nowhere "x").1.stdout = "") ∧
      ∃ job, (report capitals Session.nowhere "x").1.renderings = [⟨job, none⟩] ∧
        job.file = "t.svg" ∧
        (report capitals Session.nowhere "x").1.stdout = "Wrote AST visualization to t.SVG\n" := by
  intro null capitals
  obtain ⟨-, hstdout, hwrites, -⟩ := report_of_tree (s := null) Session.nowhere parse_variable
  obtain ⟨-, hstdout', -, hrenderings⟩ :=
    report_of_tree (s := capitals) Session.nowhere parse_variable
  have hsvg : Text.lower "SVG" = "svg" ∧ "svg" ∈ Render.formats := by decide +kernel
  have hjob : Render.job? (.var "x" ⟨1, 1⟩) "t" "SVG" =
      .ok ⟨"t", "svg", (Expr.var "x" ⟨1, 1⟩).dot⟩ :=
    Render.job?_eq_ok_iff.2 ⟨hsvg.1 ▸ hsvg.2, by rw [hsvg.1]⟩
  have hdrawn : capitals.drawTree Session.nowhere (.var "x" ⟨1, 1⟩) =
      { Trace.printLine "Wrote AST visualization to t.SVG" with
        renderings := [⟨⟨"t", "svg", (Expr.var "x" ⟨1, 1⟩).dot⟩, none⟩] } := by
    simp only [Settings.drawTree, capitals, Render.draw, hjob, Session.nowhere]
    rfl
  refine ⟨parse_variable, ⟨hwrites, hstdout⟩, ⟨"t", "svg", (Expr.var "x" ⟨1, 1⟩).dot⟩, ?_, rfl, ?_⟩
  · rw [hrenderings]
    simp only [Settings.deliver, Settings.saveTable, capitals]
    rw [Trace.renderings_append, hdrawn]
    rfl
  · rw [hstdout']
    simp only [Settings.deliver, Settings.saveTable, capitals]
    rw [Trace.stdout_append, hdrawn]
    rfl

end LetFun
