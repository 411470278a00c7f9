import LetFun.Command
import LetFun.Proofs.Command.Arguments
import LetFun.Proofs.Parse.Language
import LetFun.Proofs.Text.Utf8
/-!
# What a run does to the world

A run touches the world in two ways only: it writes the file for the table, and it
asks for a drawing.  It does either only after the program is parsed, so a run that
fails leaves nothing behind.  What a request has to work on is its `Supply`, which
the arguments and the world settle; what it comes to is its `Result`, which the
supply settles.

Results:
* `report_of_refused`, `report_of_ok`: what a report does for a text that does not parse, and for
  one that does.
* `Request.undrawn_eq_empty`: by the second edition of the rules every drawing has a format.
* `result_perform`: every request comes to a result.
* `run_effects`: a run that fails has no effects, and what each way to end means.
-/
namespace LetFun

/-- Nothing is saved, and no drawing is asked for. -/
def Trace.Quiet (t : Trace) : Prop := t.writes = [] ∧ t.renderings = []

theorem Trace.quiet_print (s : String) : (print s).Quiet := ⟨rfl, rfl⟩

theorem Trace.Quiet.append {s t : Trace} (hs : s.Quiet) (ht : t.Quiet) : (s ++ t).Quiet :=
  ⟨by rw [writes_append, hs.1, ht.1]; rfl, by rw [renderings_append, hs.2, ht.2]; rfl⟩

theorem Fault.quiet_report (f : Fault) : f.report.Quiet := ⟨rfl, rfl⟩

/-! ## Reports -/

variable {s : Settings} {host : Host} {text : String} {e : Expr}

/-- A text that is parsed is one whose tokens are read. -/
theorem lex_of_parse {limit : Option Nat} (h : parseWithin limit text = .ok e) :
    ∃ ts, lex text = .ok ts := by
  obtain ⟨us, p, hlex, -⟩ := derives_of_parse (parseWithin_of_ok h)
  exact ⟨_, hlex⟩

theorem Settings.exists_showTokens (h : parse text = .ok e) :
    ∃ tokens, s.showTokens text = .ok tokens := by
  obtain ⟨ts, hlex⟩ := lex_of_parse h
  unfold showTokens
  split
  · rw [hlex]
    exact ⟨_, rfl⟩
  · exact ⟨_, rfl⟩

theorem report_of_refused (s : Settings) (host : Host) (h : ∀ e, parse text ≠ .ok e) :
    (report s host text).2 = .refused ∧ (report s host text).1.Quiet := by
  unfold report
  split
  · exact ⟨rfl, Fault.quiet_report _⟩
  · split
    · exact ⟨rfl, (Trace.quiet_print _).append (Fault.quiet_report _)⟩
    · next e hparse => exact absurd hparse (h e)

namespace Settings

/-- The file for the table, with its content. -/
def saved (s : Settings) (e : Expr) : List (String × String) :=
  s.json.toList.map fun path => (path, (Table.ofExpr false e).json)

/-- The drawing that is asked for, if its format is a known one. -/
def jobs (s : Settings) (e : Expr) : List Job :=
  match s.viz with
  | some path =>
    if Text.lower s.format ∈ Render.formats then [⟨path, Text.lower s.format, e.dot⟩] else []
  | none => []

theorem length_jobs_le (s : Settings) (e : Expr) : (s.jobs e).length ≤ 1 := by
  unfold jobs
  split
  · split <;> simp
  · simp

theorem exists_saveTable (host : Host) (e : Expr)
    (hjson : ∀ path ∈ s.json, '\x00' ∉ path.toList) :
    ∃ t, s.saveTable host e = .ok t ∧ t.writes.map (fun w => (w.path, w.content)) = s.saved e ∧
      t.renderings = [] := by
  unfold saveTable saved
  split
  · next hnone => exact ⟨_, rfl, by rw [hnone]; rfl, rfl⟩
  · next path hpath =>
    have hnull : path.toList.contains '\x00' = false := by
      simpa using hjson path hpath
    rw [hnull, hpath]
    exact ⟨_, rfl, rfl, rfl⟩

theorem draw_jobs (host : Host) (e : Expr) (path format : String) :
    (Render.draw host e path format).1.map (·.job) =
      if Text.lower format ∈ Render.formats then [⟨path, Text.lower format, e.dot⟩] else [] := by
  unfold Render.draw Render.job?
  by_cases hformat : Text.lower format ∈ Render.formats
  · simp only [List.contains_iff_mem, hformat, if_true]
    split <;> rfl
  · simp [hformat]

theorem drawTree_effects (s : Settings) (host : Host) (e : Expr) :
    (s.drawTree host e).writes = [] ∧ (s.drawTree host e).renderings.map (·.job) = s.jobs e := by
  unfold drawTree jobs
  cases s.viz with
  | none => exact ⟨rfl, rfl⟩
  | some path =>
    refine ⟨?_, draw_jobs host e path s.format⟩
    dsimp only
    split <;> rfl

theorem showTree_quiet (s : Settings) (e : Expr) : (s.showTree e).Quiet := by
  unfold showTree
  split <;> exact ⟨rfl, rfl⟩

end Settings

theorem report_of_ok (host : Host) (hjson : ∀ path ∈ s.json, '\x00' ∉ path.toList)
    (h : parse text = .ok e) :
    (report s host text).2 = .parsed ∧
      (report s host text).1.writes.map (fun w => (w.path, w.content)) = s.saved e ∧
      (report s host text).1.renderings.map (·.job) = s.jobs e := by
  obtain ⟨tokens, htokens⟩ := s.exists_showTokens h
  obtain ⟨t, hsaved, hwrites, hrenderings⟩ := Settings.exists_saveTable host e hjson
  obtain ⟨hdrawn, hjobs⟩ := s.drawTree_effects host e
  obtain ⟨hshown, hshown'⟩ := s.showTree_quiet e
  simp only [report, htokens, h, Settings.deliver, hsaved]
  refine ⟨trivial, ?_, ?_⟩
  · simpa [Trace.print, Trace.note, Trace.empty, hdrawn, hshown] using hwrites
  · simpa [Trace.print, Trace.note, Trace.empty, hrenderings, hshown'] using hjobs

/-- Nothing is written but the file for the table, and one drawing is asked for at most. -/
structure Delivered (s : Settings) (t : Trace) : Prop where
  writes : ∀ w ∈ t.writes, s.json = some w.path
  renderings : t.renderings.length ≤ 1

theorem Delivered.append {t t' : Trace} (h : Delivered s t) (ht' : t'.Quiet) :
    Delivered s (t ++ t') where
  writes := by
    rw [Trace.writes_append, ht'.1, List.append_nil]
    exact h.writes
  renderings := by
    rw [Trace.renderings_append, ht'.2, List.append_nil]
    exact h.renderings

theorem report_of_parsed (host : Host) (hjson : ∀ path ∈ s.json, '\x00' ∉ path.toList)
    (h : parse text = .ok e) :
    (report s host text).2 = .parsed ∧ Delivered s (report s host text).1 := by
  obtain ⟨hverdict, hwrites, hjobs⟩ := report_of_ok host hjson h
  refine ⟨hverdict, fun w hw => ?_, ?_⟩
  · have hmem : (w.path, w.content) ∈ s.saved e := hwrites ▸ List.mem_map_of_mem hw
    have hpath : s.json = some w.path ∧ (Table.ofExpr false e).json = w.content := by
      simpa [Settings.saved] using hmem
    exact hpath.1
  · have hlength := s.length_jobs_le e
    rwa [← hjobs, List.length_map] at hlength

/-- Without a path nothing is saved or drawn. -/
theorem quiet_report (host : Host) (text : String) (hjson : s.json = none) (hviz : s.viz = none) :
    (report s host text).1.Quiet := by
  cases h : parse text with
  | error fault => exact (report_of_refused s host (by simp [h])).2
  | ok e =>
    obtain ⟨tokens, htokens⟩ := s.exists_showTokens h
    have hsaved : s.saveTable host e = .ok .empty := by simp [Settings.saveTable, hjson]
    have hdrawn : s.drawTree host e = .empty := by simp [Settings.drawTree, hviz]
    simp only [report, htokens, h, Settings.deliver, hsaved, hdrawn]
    have hnoted : (Trace.note (.parsed text.length e.kind)).Quiet := ⟨rfl, rfl⟩
    have hempty : Trace.empty.Quiet := ⟨rfl, rfl⟩
    exact ((Trace.quiet_print _).append hnoted).append
      (((s.showTree_quiet e).append hempty).append hempty)

theorem Session.quiet_converse (tokens listing : Bool) (lines : List String) :
    (converse tokens listing lines).Quiet := by
  induction lines with
  | nil => exact Trace.quiet_print _
  | cons line lines ih =>
    refine (Trace.quiet_print _).append ?_
    split
    · exact Trace.quiet_print _
    · exact ih
    · exact (quiet_report _ _ rfl rfl).append ih

/-! ## Requests -/

namespace Command

variable {r : Request} {edition : Edition}

/-- What a request has to work on. -/
inductive Supply where
  /-- A request for a session or for help is for no program. -/
  | nothing
  | unreadable
  | undecodable
  | program (text : String)
deriving DecidableEq, Repr

/-- How a request comes by what it works on. -/
inductive Request.Supplied (r : Request) (host : Host) : Supply → Prop where
  | session : r.source = .session → Supplied r host .nothing
  | help : r.source = .help → Supplied r host .nothing
  | text {s : String} : r.source = .text s → Supplied r host (.program s)
  | unreadable {path : String} {e : OsError} : r.source = .file path → host.read path = .error e →
      Supplied r host .unreadable
  | undecodable {path : String} {bytes : List UInt8} : r.source = .file path →
      host.read path = .ok bytes → (∀ s, Text.Utf8.encode s ≠ bytes) →
      Supplied r host .undecodable
  | file {path s : String} : r.source = .file path → host.read path = .ok (Text.Utf8.encode s) →
      Supplied r host (.program (Text.unifyNewlines s))

theorem Request.Supplied.unique {a b : Supply} (ha : r.Supplied host a) (hb : r.Supplied host b) :
    a = b := by
  cases ha <;> cases hb <;> simp_all [Text.Utf8.encode_inj]

/-- What a request comes to, with what it leaves behind. -/
inductive Request.Result (r : Request) (host : Host) : Status → Trace → Prop where
  | idle {t : Trace} : r.Supplied host .nothing → t.Quiet → Result r host (.exit 0) t
  | unreadable {t : Trace} : r.Supplied host .unreadable → t.Quiet → Result r host (.exit 1) t
  | undecodable {t : Trace} (fault : Text.Utf8.Fault) : r.Supplied host .undecodable → t.Quiet →
      Result r host (.escaped (.undecodable fault)) t
  | refused {t : Trace} {text : String} : r.Supplied host (.program text) →
      (∀ e, parse text ≠ .ok e) → t.Quiet → Result r host (.exit 1) t
  | accepted {t : Trace} {text : String} {e : Expr} : r.Supplied host (.program text) →
      parse text = .ok e → Delivered r.settings t → Result r host (.exit 0) t

theorem of_givenPath {path : String} {given : Option String} (h : givenPath given = some path) :
    given = some path :=
  (Option.filter_eq_some_iff.1 h).1

theorem Request.json_settings (r : Request) : r.settings.json = givenPath r.json := by
  unfold settings
  split <;> rfl

theorem Request.quiet_undrawn (r : Request) : r.undrawn.Quiet := by
  unfold undrawn
  split <;> exact ⟨rfl, rfl⟩

/-- By the second edition of the rules there is a format for every drawing. -/
theorem Request.undrawn_eq_empty {args : List String} (h : ofArgs .second args = .ok r) :
    r.undrawn = .empty := by
  obtain ⟨format, hformat⟩ := Option.isSome_iff_exists.1 (isSome_format_ofArgs h)
  rw [undrawn, hformat]

theorem Request.file_of_source {path : String} (h : r.source = .file path) :
    r.file = some path := by
  unfold source at h
  split at h
  · cases h
  · split at h
    · next hfile =>
      cases h
      exact of_givenPath hfile
    · cases h
    · cases h

theorem result_reportOn {text : String} (hnull : r.PathsHold (· ≠ '\x00'))
    (h : r.Supplied host (.program text)) :
    r.Result host (reportOn r host text).1 (reportOn r host text).2 := by
  unfold reportOn
  cases hparse : parse text with
  | error fault =>
    have hrefused : ∀ e, parse text ≠ .ok e := by simp [hparse]
    obtain ⟨hverdict, hquiet⟩ := report_of_refused r.settings host hrefused
    generalize report r.settings host text = reported at hverdict hquiet
    obtain ⟨trace, verdict⟩ := reported
    obtain rfl : verdict = .refused := hverdict
    exact .refused h hrefused hquiet
  | ok e =>
    have hjson : ∀ path ∈ r.settings.json, '\x00' ∉ path.toList := fun path hpath hc =>
      hnull.2.1 path (of_givenPath (r.json_settings ▸ hpath)) _ hc rfl
    obtain ⟨hverdict, hdelivered⟩ := report_of_parsed host hjson hparse
    generalize report r.settings host text = reported at hverdict hdelivered
    obtain ⟨trace, verdict⟩ := reported
    obtain rfl : verdict = .parsed := hverdict
    exact .accepted h hparse (hdelivered.append r.quiet_undrawn)

theorem result_perform (hnull : r.PathsHold (· ≠ '\x00')) (input : String) (host : Host) :
    r.Result host (perform r input host).1 (perform r input host).2 := by
  unfold perform
  split
  · next hs => exact .idle (.session hs) ((Trace.quiet_print _).append (Session.quiet_converse ..))
  · next hs => exact .idle (.help hs) (Trace.quiet_print _)
  · next hs => exact result_reportOn hnull (.text hs)
  · next path hs =>
    -- the one way to be cut short that is not about bytes needs a null character in the path
    have hpath : '\x00' ∉ path.toList := fun hc =>
      hnull.1 path (Request.file_of_source hs) _ hc rfl
    cases hread : host.read path with
    | error err =>
      have htext : readText host path = .error err := by simp [readText, hpath, hread, Except.map]
      rw [htext]
      exact .unreadable (.unreadable hs hread) (Trace.quiet_print _)
    | ok bytes =>
      cases hdecode : Text.Utf8.decode bytes with
      | error fault =>
        have htext : readText host path = .ok (.error (.undecodable fault)) := by
          simp [readText, hpath, hread, hdecode, Except.map]
        rw [htext]
        refine .undecodable fault (.undecodable hs hread ?_) ⟨rfl, rfl⟩
        rintro s rfl
        rw [Text.Utf8.decode_encode] at hdecode
        cases hdecode
      | ok s =>
        have htext : readText host path = .ok (.ok (Text.unifyNewlines s)) := by
          simp [readText, hpath, hread, hdecode, Except.map]
        rw [htext]
        rw [Text.Utf8.decode_eq_ok_iff] at hdecode
        exact result_reportOn hnull (.file hs (hdecode ▸ hread))

/-! ## What a result tells -/

namespace Request.Result

variable {status : Status} {t : Trace}

theorem quiet_of_ne (h : r.Result host status t) (hs : status ≠ .exit 0) : t.Quiet := by
  cases h with
  | idle _ hquiet => exact hquiet
  | unreadable _ hquiet => exact hquiet
  | undecodable _ _ hquiet => exact hquiet
  | refused _ _ hquiet => exact hquiet
  | accepted => exact absurd rfl hs

theorem code_le_one {code : Nat} (h : r.Result host (.exit code) t) : code ≤ 1 := by
  cases h <;> decide

theorem exit_one_iff (h : r.Result host status t) :
    status = .exit 1 ↔ r.Supplied host .unreadable ∨
      ∃ text, r.Supplied host (.program text) ∧ ∀ e, parse text ≠ .ok e := by
  constructor
  · rintro rfl
    cases h with
    | unreadable hsupply _ => exact .inl hsupply
    | refused hsupply hrefused _ => exact .inr ⟨_, hsupply, hrefused⟩
  · rintro (hsupply | ⟨text, hsupply, hrefused⟩)
    · cases h with
      | unreadable => rfl
      | idle h | undecodable _ h | refused h | accepted h => cases h.unique hsupply
    · cases h with
      | refused => rfl
      | accepted h hparse =>
        cases h.unique hsupply
        exact absurd hparse (hrefused _)
      | idle h | undecodable _ h | unreadable h => cases h.unique hsupply

theorem escaped_iff (h : r.Result host status t) :
    (∃ escape, status = .escaped escape) ↔ r.Supplied host .undecodable := by
  constructor
  · rintro ⟨escape, rfl⟩
    cases h with
    | undecodable _ hsupply _ => exact hsupply
  · intro hsupply
    cases h with
    | undecodable fault => exact ⟨_, rfl⟩
    | idle h | unreadable h | refused h | accepted h => cases h.unique hsupply

theorem undecodable_of_escaped {escape : Escape} (h : r.Result host (.escaped escape) t) :
    ∃ fault, escape = .undecodable fault := by
  cases h with
  | undecodable fault => exact ⟨fault, rfl⟩

theorem of_parsed {text : String} {e : Expr} (h : r.Result host status t)
    (hsupply : r.Supplied host (.program text)) (hparse : parse text = .ok e) :
    status = .exit 0 ∧ Delivered r.settings t := by
  cases h with
  | accepted _ _ hdelivered => exact ⟨rfl, hdelivered⟩
  | refused h hrefused =>
    cases h.unique hsupply
    exact absurd hparse (hrefused _)
  | idle h | undecodable _ h | unreadable h => cases h.unique hsupply

end Request.Result

/-- What the command does once its arguments are read. -/
theorem run_of_ofArgs {args : List String} (h : Request.ofArgs edition args = .ok r)
    (input : String) (host : Host) :
    run edition args input host =
      ⟨(perform r input host).1, (perform r input host).2, "", r.verbose⟩ := by
  simp only [run, h]

/-- **A run that fails has no effects.** Whatever the arguments are and by whichever edition of the
rules they are read, as long as there is no null character in them, a run that does not end with 0
saves nothing and asks for no drawing. It ends with 2 exactly if the arguments are wrong, and then
prints nothing but what is wrong with them; it ends with 1 exactly if the file with the program
cannot be read or the program does not parse; and it is cut short exactly if the bytes of the file
are those of no text. There is no other way to end but with 0. If the program parses it ends with 0,
whatever comes of saving and drawing, and then it writes no file but the one for the table and asks
for one drawing at most. -/
theorem run_effects {args : List String} (hnull : ∀ s ∈ args, '\x00' ∉ s.toList) (input : String)
    (host : Host) :
    ∃ status trace complaint verbose,
      run edition args input host = ⟨status, trace, complaint, verbose⟩ ∧
      (status ≠ .exit 0 → trace.writes = [] ∧ trace.renderings = []) ∧
      (status = .exit 2 ↔ ∃ e, Request.ofArgs edition args = .error (.usage e)) ∧
      (status = .exit 2 → trace.stdout = "") ∧
      (status = .exit 1 ↔ ∃ r, Request.ofArgs edition args = .ok r ∧ (r.Supplied host .unreadable ∨
        ∃ text, r.Supplied host (.program text) ∧ ∀ e, parse text ≠ .ok e)) ∧
      ((∃ escape, status = .escaped escape) ↔
        ∃ r, Request.ofArgs edition args = .ok r ∧ r.Supplied host .undecodable) ∧
      (∀ escape, status = .escaped escape → ∃ fault, escape = .undecodable fault) ∧
      (∀ code, status = .exit code → code ≤ 2) ∧
      ∀ r text e, Request.ofArgs edition args = .ok r → r.Supplied host (.program text) →
        parse text = .ok e → status = .exit 0 ∧ (∀ w ∈ trace.writes, r.json = some w.path) ∧
          trace.renderings.length ≤ 1 := by
  cases hargs : Request.ofArgs edition args with
  | error stop =>
    cases stop with
    | help =>
      have hrun : run edition args input host = ⟨.exit 0, .print help, "", false⟩ := by
        simp only [run, hargs]
      exact ⟨_, _, _, _, hrun, by simp⟩
    | usage e =>
      have hrun : run edition args input host = ⟨.exit 2, .empty, complain e, false⟩ := by
        simp only [run, hargs]
      exact ⟨_, _, _, _, hrun, by simp [Trace.empty]⟩
  | ok r =>
    have hpaths := Request.pathsHold_ofArgs (P := (· ≠ '\x00')) hargs fun s hs c hc hnul =>
      hnull s hs (hnul ▸ hc)
    have hresult := result_perform hpaths input host
    refine ⟨_, _, _, _, run_of_ofArgs hargs input host, ?_⟩
    generalize perform r input host = performed at hresult
    obtain ⟨status, trace⟩ := performed
    dsimp only at hresult ⊢
    have hcode : ∀ code, status = .exit code → code ≤ 1 := by
      rintro code rfl
      exact hresult.code_le_one
    have hnot : status ≠ .exit 2 := fun h => absurd (hcode 2 h) (by decide)
    simp only [Except.ok.injEq, exists_eq_left', reduceCtorEq, exists_false, iff_false]
    refine ⟨hresult.quiet_of_ne, hnot, (absurd · hnot), hresult.exit_one_iff, hresult.escaped_iff,
      ?_, fun code h => (hcode code h).trans (by decide), ?_⟩
    · rintro escape rfl
      exact hresult.undecodable_of_escaped
    · rintro _ text e rfl hsupply hparse
      obtain ⟨hstatus, hdelivered⟩ := hresult.of_parsed hsupply hparse
      exact ⟨hstatus, fun w hw => of_givenPath (r.json_settings ▸ hdelivered.writes w hw),
        hdelivered.renderings⟩

/-- A program that is wrong is neither saved nor drawn, where both would have succeeded. -/
theorem run_effects_refused :
    ∃ trace complaint verbose,
      run .second ["--json", "table", "--viz", "tree", "-e", "("] ""
          ⟨fun _ => .error .notFound, fun _ _ => none, fun _ => none⟩ =
        ⟨.exit 1, trace, complaint, verbose⟩ ∧
      trace.writes = [] ∧ trace.renderings = [] := by
  have hargs : Request.ofArgs .second ["--json", "table", "--viz", "tree", "-e", "("] =
      .ok ⟨none, some "(", false, false, true, some "table", some "tree", some "svg", false⟩ := by
    rfl
  have hrefused : ∀ e, parse "(" ≠ .ok e := by
    intro e he
    obtain ⟨us, p, hlex, hderives⟩ := derives_of_parse (parseWithin_of_ok he)
    have hs : scans "(" = ⟨[⟨.lparen, ⟨1, 1⟩⟩] ++ [⟨.eof, ⟨1, 2⟩⟩], none⟩ := by decide +kernel
    rw [lex_eq, hs] at hlex
    obtain ⟨rfl, -⟩ := List.append_inj' (Except.ok.inj hlex) rfl
    cases feeds_program (p := p) hderives
  obtain ⟨status, trace, complaint, verbose, hrun, hquiet, -, -, hone, -⟩ :=
    @run_effects .second ["--json", "table", "--viz", "tree", "-e", "("] (by decide) ""
      ⟨fun _ => .error .notFound, fun _ _ => none, fun _ => none⟩
  obtain rfl : status = .exit 1 := hone.2 ⟨_, hargs, .inr ⟨_, .text rfl, hrefused⟩⟩
  exact ⟨trace, complaint, verbose, hrun, hquiet (by decide)⟩

end Command
end LetFun
