import LetFun.Disk
import LetFun.Proofs.Command.Reports
/-!
# What a run changes on a disk

A file that is written is read back from the path that it was written to, and no other
place on the disk holds anything else than before.  Both rest on where a path leads:
a walk reaches a place only by way of directories, so a file is written beside what
the disk holds, in a directory that was there, and nothing lies below it.

A run writes one file at most, the one for the table, and only once the program is
parsed; so what it changes on a disk is that file.

Results:
* `target_eq_some`: a file is written to a directory, under a name that is not a directory's.
* `find?_write`, `read_write`: what a write changes, and what is read then.
* `mem_changed_iff`: the files that are listed as changed are those that are.
* `writes_perform`, `quiet_or_program`: a request that comes to a tree writes its table if that is
  asked for, and no other writes anything.
* `run_on_disk`: a run changes one file at most, and none if it fails.
-/
namespace LetFun

theorem toUTF8_eq_encode (s : String) : s.toUTF8.data.toList = Text.Utf8.encode s := by
  show s.toByteArray.data.toList = _
  rw [← String.utf8Encode_toList]
  simp [List.utf8Encode, Text.Utf8.encode]

namespace Disk

variable {d : Disk} {s s' : Stand} {name : String} {place q : Names}

/-! ## Where a path leads -/

/-- The places on the way to a place are those of directories. -/
def Open (d : Disk) (place : Names) : Prop :=
  ∀ q, q <+: place → q ≠ place → d.find? q = some .directory

theorem open_nil : d.Open [] := fun _ hq hne => absurd (List.prefix_nil.1 hq) hne

theorem Open.mono (h : d.Open place) (hq : q <+: place) : d.Open q := by
  intro r hr hne
  refine h r (hr.trans hq) fun heq => hne ?_
  exact hr.eq_of_length_le (heq ▸ hq.length_le)

/-- A directory holds names that are open to a walk. -/
theorem Open.concat (h : d.Open place) (hplace : d.find? place = some .directory) (name : String) :
    d.Open (place ++ [name]) := by
  intro q hq hne
  rcases List.prefix_concat_iff.1 hq with rfl | hq
  · exact absurd rfl hne
  · by_cases heq : q = place
    · exact heq ▸ hplace
    · exact h q hq heq

theorem Open.find?_dropLast (h : d.Open place) (hplace : d.find? place = some .directory) :
    d.find? place.dropLast = some .directory := by
  by_cases heq : place.dropLast = place
  · exact heq.symm ▸ hplace
  · exact h _ (List.dropLast_prefix place) heq

/-- Whether something can be called by a name. -/
def Proper (name : String) : Prop :=
  name ≠ "" ∧ name ≠ "." ∧ name ≠ ".." ∧ name.utf8ByteSize ≤ maxName

/-- A step from a directory. -/
theorem step_directory (hplace : d.find? place = some .directory) (name : String) :
    d.step (.inside place) name =
      if name = "" ∨ name = "." then .ok (.inside place)
      else if name = ".." then .ok (if place.isEmpty then .above else .inside place.dropLast)
      else if maxName < name.utf8ByteSize then .error .nameTooLong
      else .ok (d.found (place ++ [name])) := by
  unfold step
  dsimp only
  rw [hplace]

theorem step_proper (hplace : d.find? place = some .directory) (hname : Proper name) :
    d.step (.inside place) name = .ok (d.found (place ++ [name])) := by
  obtain ⟨hempty, hdot, hdots, hsize⟩ := hname
  rw [step_directory hplace, if_neg (by simp [hempty, hdot]), if_neg hdots,
    if_neg (Nat.not_lt.2 hsize)]

theorem directory_of_step (h : d.step (.inside place) name = .ok s) :
    d.find? place = some .directory := by
  unfold step at h
  dsimp only at h
  split at h
  · assumption
  · cases h

/-- All that a step from a directory can come to. -/
theorem step_cases (h : d.step (.inside place) name = .ok s) :
    s = .inside place ∨ s = .above ∨ s = .inside place.dropLast ∨
      (Proper name ∧ s = d.found (place ++ [name])) := by
  rw [step_directory (directory_of_step h)] at h
  split at h
  · exact .inl (Except.ok.inj h).symm
  · next hstay =>
    split at h
    · split at h
      · exact .inr (.inl (Except.ok.inj h).symm)
      · exact .inr (.inr (.inl (Except.ok.inj h).symm))
    · next hdots =>
      split at h
      · cases h
      · next hsize =>
        obtain ⟨hempty, hdot⟩ := not_or.1 hstay
        exact .inr (.inr (.inr ⟨⟨hempty, hdot, hdots, Nat.le_of_not_lt hsize⟩,
          (Except.ok.inj h).symm⟩))

/-- A step from above does not come to a place in the working directory. -/
theorem step_above (h : d.step .above name = .ok s) : s = .above ∨ s = .nowhere none := by
  unfold step at h
  dsimp only at h
  split at h
  · exact .inl (Except.ok.inj h).symm
  · split at h
    · cases h
    · exact .inr (Except.ok.inj h).symm

/-- What a walk comes to inside the working directory, it comes to by way of directories. -/
def Fair (d : Disk) (s : Stand) : Prop := ∀ place, s = .inside place → d.Open place

theorem step_fair (hs : d.Fair s) (h : d.step s name = .ok s') : d.Fair s' := by
  rintro place rfl
  cases s with
  | nowhere => cases h
  | above => rcases step_above h with h | h <;> cases h
  | inside q =>
    have hq := hs q rfl
    obtain hq' | hq' | hq' | ⟨-, hq'⟩ := step_cases h
    · cases hq'
      exact hq
    · cases hq'
    · cases hq'
      exact hq.mono (List.dropLast_prefix q)
    · unfold found at hq'
      split at hq' <;> cases hq'
      exact hq.concat (directory_of_step h) name

theorem walk_fair {names : Names} (hs : d.Fair s) (h : d.walk s names = .ok s') : d.Fair s' := by
  induction names generalizing s with
  | nil =>
    cases h
    exact hs
  | cons name names ih =>
    rw [walk_cons] at h
    obtain ⟨s₁, hstep, hwalk⟩ := Command.exists_of_bind_ok h
    exact ih (step_fair hs hstep) hwalk

theorem route_fair {path : String} {names : Names} (h : route path = .ok (s, names)) :
    d.Fair s := by
  unfold route at h
  split at h
  · cases h
  · split at h
    · cases h
    · simp only [Except.ok.injEq, Prod.mk.injEq] at h
      rintro place rfl
      obtain ⟨hstart, -⟩ := h
      split at hstart
      · cases hstart
      · cases hstart
        exact open_nil

/-- A path leads to a place where a file can be: to a name in a directory, which is not the name of
a directory. -/
structure Leads (d : Disk) (path : String) (place : Names) : Prop where
  way : ∃ start names q name, route path = .ok (start, names ++ [name]) ∧
    d.walk start names = .ok (.inside q) ∧ d.find? q = some .directory ∧ Proper name ∧
    place = q ++ [name]
  clear : d.Open place
  free : d.find? place ≠ some .directory

theorem landing_eq_some (h : d.landing s = .ok (some place)) :
    s = .nowhere (some place) ∨
      ∃ bytes, s = .inside place ∧ d.find? place = some (.file bytes) := by
  unfold landing at h
  split at h
  · exact .inl (by rw [Except.ok.inj h])
  · cases h
  · split at h
    · next bytes hfile =>
      cases h
      exact .inr ⟨bytes, rfl, hfile⟩
    · cases h

theorem landing_found (h : d.landing (d.found q) = .ok (some place)) :
    place = q ∧ d.find? q ≠ some .directory := by
  unfold found at h
  split at h
  · obtain h | ⟨bytes, h, hfile⟩ := landing_eq_some h
    · cases h
    · cases h
      exact ⟨rfl, by simp [hfile]⟩
  · next hnone =>
    obtain h | ⟨bytes, h, -⟩ := landing_eq_some h
    · cases h
      exact ⟨rfl, fun hdir => hnone (by simp [hdir])⟩
    · cases h

theorem landing_directory (h : d.find? q = some .directory) :
    d.landing (.inside q) ≠ .ok (some place) := by
  intro hlanding
  obtain h' | ⟨bytes, h', hfile⟩ := landing_eq_some hlanding <;> cases h'
  rw [h] at hfile
  cases hfile

/-- The last step to a place where a file can be. -/
theorem step_to_place (hs : d.Fair s) (hstep : d.step s name = .ok s')
    (h : d.landing s' = .ok (some place)) :
    ∃ q, s = .inside q ∧ d.find? q = some .directory ∧ Proper name ∧ place = q ++ [name] ∧
      d.Open place ∧ d.find? place ≠ some .directory := by
  cases s with
  | nowhere => cases hstep
  | above => rcases step_above hstep with rfl | rfl <;> cases h
  | inside q =>
    have hq := hs q rfl
    have hdir := directory_of_step hstep
    obtain rfl | rfl | rfl | ⟨hname, rfl⟩ := step_cases hstep
    · exact absurd h (landing_directory hdir)
    · cases h
    · exact absurd h (landing_directory (hq.find?_dropLast hdir))
    · obtain ⟨rfl, hfree⟩ := landing_found h
      exact ⟨q, rfl, hdir, hname, rfl, hq.concat hdir name, hfree⟩

theorem target_eq_some {path : String} (h : d.target path = .ok (some place)) :
    d.Leads path place := by
  unfold target at h
  obtain ⟨⟨start, names⟩, hroute, h⟩ := Command.exists_of_bind_ok h
  dsimp only at h
  split at h
  · cases h
  · next last hlast =>
    obtain ⟨parent, hparent, h⟩ := Command.exists_of_bind_ok h
    split at h
    · obtain ⟨_, -, h⟩ := Command.exists_of_bind_ok h
      cases h
    · next hslash =>
      obtain ⟨s, hstep, hlanding⟩ := Command.exists_of_bind_ok h
      have hfair := walk_fair (route_fair hroute) hparent
      obtain ⟨q, rfl, hdir, hname, hplace, hclear, hfree⟩ := step_to_place hfair hstep hlanding
      have hstem : (names.reverse.dropWhile (·.isEmpty)).reverse <+: names := by
        simpa using List.reverse_prefix.2 (List.dropWhile_suffix (l := names.reverse) (·.isEmpty))
      -- a slash behind the last name would ask for a directory
      have hnamed := hstem.eq_of_length_le
        (Nat.le_of_not_lt fun hlt => hslash ⟨hlt, hname.2.1, hname.2.2.1⟩)
      rw [hnamed] at hlast hparent
      obtain ⟨names, rfl⟩ := List.getLast?_eq_some_iff.1 hlast
      rw [List.dropLast_concat] at hparent
      exact ⟨⟨start, names, q, last, hroute, hparent, hdir, hname, hplace⟩, hclear, hfree⟩

/-! ## What a write changes -/

section
variable {w : Write}

theorem placed_eq_some :
    d.placed w = some place ↔ w.failure = none ∧ d.target w.path = .ok (some place) := by
  unfold placed
  split
  · next hfailure htarget => simp [hfailure, htarget]
  · next hnot =>
    refine iff_of_false (by simp) fun ⟨hfailure, htarget⟩ => ?_
    exact hnot place hfailure htarget

theorem leads_of_placed (h : d.placed w = some place) : d.Leads w.path place :=
  target_eq_some (placed_eq_some.1 h).2

theorem write_of_placed (h : d.placed w = some place) :
    d.write w = ⟨(place, w.entry) :: d.entries⟩ := by
  unfold write
  rw [h]

theorem write_of_not_placed (h : d.placed w = none) : d.write w = d := by
  unfold write
  rw [h]

theorem find?_write_place (h : d.placed w = some place) :
    (d.write w).find? place = some w.entry := by
  rw [write_of_placed h]
  simp [find?]

/-- On the way to the file there are directories already, so it is in the way of nothing. -/
theorem find?_write_of_ne (h : d.placed w = some place) (hq : q ≠ place) :
    (d.write w).find? q = d.find? q := by
  rw [write_of_placed h]
  have hlookup : ((place, w.entry) :: d.entries).lookup q = d.entries.lookup q := by
    rw [List.lookup_cons, beq_false_of_ne hq]
  by_cases hway : q <+: place
  · have hdir := (leads_of_placed h).clear q hway hq
    rw [hdir]
    unfold find? at hdir ⊢
    dsimp only at hdir ⊢
    rw [hlookup]
    split at hdir
    · exact hdir
    · simp [hway]
  · have hnot : q.isPrefixOf place = false := by
      simpa [← List.isPrefixOf_iff_prefix] using hway
    unfold find?
    dsimp only
    rw [hlookup, List.any_cons, hnot, Bool.false_or]

/-- **A write changes nothing but the file that is written.** -/
theorem find?_write (d : Disk) (w : Write) (q : Names) :
    (d.write w).find? q = if d.placed w = some q then some w.entry else d.find? q := by
  cases h : d.placed w with
  | none => simp [write_of_not_placed h]
  | some place =>
    by_cases hq : q = place
    · subst hq
      simp [find?_write_place h]
    · rw [find?_write_of_ne h hq, if_neg fun heq => hq (Option.some.inj heq).symm]

theorem find?_write_directory (h : d.find? q = some .directory) (w : Write) :
    (d.write w).find? q = some .directory := by
  rw [find?_write, if_neg, h]
  exact fun hplaced => (leads_of_placed hplaced).free h

theorem found_write (h : ∀ p, d.found q ≠ .nowhere p) (w : Write) :
    (d.write w).found q = d.found q := by
  unfold found at h ⊢
  split
  · split
    · rfl
    · next hnone => exact absurd (if_neg hnone) (h (some q))
  · next hnone =>
    refine absurd (if_neg fun hsome => hnone ?_) (h (some q))
    rw [find?_write]
    split
    · rfl
    · exact hsome

/-! ## Reading what is written -/

/-- A walk that comes to something goes the same way when a file is written. -/
theorem step_write (h : d.step s name = .ok s') (hs' : ∀ p, s' ≠ .nowhere p) (w : Write) :
    (d.write w).step s name = .ok s' := by
  cases s with
  | nowhere => cases h
  | above => exact h
  | inside q =>
    have hdir := directory_of_step h
    rw [step_directory hdir] at h
    rw [step_directory (find?_write_directory hdir w)]
    split at h
    · next hstay => rw [if_pos hstay, h]
    · next hstay =>
      rw [if_neg hstay]
      split at h
      · next hdots => rw [if_pos hdots, h]
      · next hdots =>
        rw [if_neg hdots]
        split at h
        · cases h
        · next hsize =>
          cases h
          rw [if_neg hsize, found_write hs' w]

/-- From nothing a walk does not go on. -/
theorem walk_nowhere {p : Option Names} {names : Names} (h : d.walk (.nowhere p) names = .ok s) :
    s = .nowhere p := by
  cases names with
  | nil => exact (Except.ok.inj h).symm
  | cons => cases h

theorem walk_write {names : Names} (h : d.walk s names = .ok s') (hs' : ∀ p, s' ≠ .nowhere p)
    (w : Write) : (d.write w).walk s names = .ok s' := by
  induction names generalizing s with
  | nil => exact h
  | cons name names ih =>
    rw [walk_cons] at h ⊢
    obtain ⟨s₁, hstep, hwalk⟩ := Command.exists_of_bind_ok h
    have hs₁ : ∀ p, s₁ ≠ .nowhere p := by
      rintro p rfl
      exact hs' p (walk_nowhere hwalk)
    rw [step_write hstep hs₁ w]
    exact ih hwalk

/-- **What is written is read back.** -/
theorem read_write (h : d.placed w = some place) :
    (d.write w).read w.path = .ok w.content.toUTF8.data.toList := by
  obtain ⟨⟨start, names, q, name, hroute, hwalk, hdir, hname, rfl⟩, -, -⟩ := leads_of_placed h
  have hfile := find?_write_place h
  have hfound : (d.write w).found (q ++ [name]) = .inside (q ++ [name]) := by
    rw [found, hfile]
    rfl
  have hwalk' : (d.write w).walk start (names ++ [name]) = .ok (.inside (q ++ [name])) := by
    have hstep := step_proper (find?_write_directory hdir w) hname
    rw [walk_append, walk_write hwalk (by simp) w]
    exact (walk_cons ..).trans (by rw [hstep, hfound]; rfl)
  unfold read
  rw [hroute]
  simp only [bind, Except.bind, hwalk', hfile, Write.entry]

/-- The files that a write changes are the places that hold something else behind it. -/
theorem mem_changed_iff {file content : String} :
    (file, content) ∈ d.changed [w] ↔
      ∃ place, file = "/".intercalate place ∧
        (d.write w).find? place = some (.file (Text.Utf8.encode content)) ∧
        (d.write w).find? place ≠ d.find? place := by
  have hchanged : (file, content) ∈ d.changed [w] ↔
      ∃ place, d.placed w = some place ∧ d.find? place ≠ some w.entry ∧
        file = "/".intercalate place ∧ content = w.content := by
    simp only [changed, List.filterMap_cons, List.filterMap_nil]
    cases d.placed w with
    | none => simp
    | some place =>
      by_cases hsame : d.find? place = some w.entry <;> simp [hsame]
  rw [hchanged]
  refine exists_congr fun place => ?_
  rw [find?_write]
  by_cases hplaced : d.placed w = some place
  · rw [if_pos hplaced]
    simp only [hplaced, Write.entry, toUTF8_eq_encode, true_and, Option.some.injEq,
      Entry.file.injEq, Text.Utf8.encode_inj]
    exact ⟨fun ⟨hne, hfile, hcontent⟩ => ⟨hfile, hcontent.symm, Ne.symm hne⟩,
      fun ⟨hfile, hcontent, hne⟩ => ⟨Ne.symm hne, hfile, hcontent.symm⟩⟩
  · rw [if_neg hplaced]
    simp [hplaced]

end

end Disk

/-! ## Runs -/

namespace Command

variable {r : Request} {edition : Edition} {host : Host} {text : String} {e : Expr}

theorem perform_of_program (hnull : r.PathsHold (· ≠ '\x00'))
    (h : r.Supplied host (.program text)) (input : String) :
    perform r input host = reportOn r host text := by
  cases h with
  | text hs => simp only [perform, hs]
  | file hs hread =>
    next path s =>
    have hpath : '\x00' ∉ path.toList := fun hc =>
      hnull.1 path (Request.file_of_source hs) _ hc rfl
    have htext : readText host path = .ok (.ok (Text.unifyNewlines s)) := by
      simp [readText, hpath, hread, Text.Utf8.decode_encode, Except.map]
    simp only [perform, hs, htext]

/-- Of a program that is parsed the table is written, if a path is given for it. -/
theorem writes_perform (hnull : r.PathsHold (· ≠ '\x00')) (h : r.Supplied host (.program text))
    (hparse : parse text = .ok e) (input : String) :
    (perform r input host).2.writes = (givenPath r.json).toList.map fun path =>
      ⟨path, (Table.ofExpr false e).json, host.write path (Table.ofExpr false e).json⟩ := by
  have hs : r.settings.NullFree := fun path hpath hc =>
    hnull.2.1 path (of_givenPath (r.json_settings ▸ hpath)) _ hc rfl
  obtain ⟨t, hsaved, -, hnone, htold⟩ := saving_told host e hs
  obtain ⟨hverdict, -, hwrites, -⟩ := report_of_tree (s := r.settings) host hparse
  have hshown := (r.settings.showTree_quiet e).1
  have hdrawn := (r.settings.drawTree_effects host e).1
  simp only [Settings.deliver, hsaved, Trace.writes_append, hshown, hdrawn, List.nil_append,
    List.append_nil] at hverdict hwrites
  rw [perform_of_program hnull h, reportOn]
  generalize report r.settings host text = reported at hverdict hwrites
  obtain ⟨trace, verdict⟩ := reported
  obtain rfl : verdict = .parsed := hverdict
  dsimp only at hwrites ⊢
  rw [Trace.writes_append, r.quiet_undrawn.1, List.append_nil, hwrites]
  rw [r.json_settings] at hnone htold
  cases hjson : givenPath r.json with
  | none => exact (hnone hjson).2
  | some path => exact (htold path hjson).asked

/-- A request either comes to a tree or writes nothing. -/
theorem quiet_or_program (hnull : r.PathsHold (· ≠ '\x00')) (input : String) (host : Host) :
    ((perform r input host).2.writes = []) ∨
      (perform r input host).1 = .exit 0 ∧
        ∃ text e, r.Supplied host (.program text) ∧ parse text = .ok e := by
  have hresult := result_perform hnull input host
  generalize perform r input host = performed at hresult
  obtain ⟨status, t⟩ := performed
  cases hresult with
  | accepted h hparse => exact .inr ⟨rfl, _, _, h, hparse⟩
  | idle _ hquiet | unreadable _ hquiet | undecodable _ _ hquiet | refused _ _ hquiet =>
    exact .inl hquiet.1

variable {d : Disk} {failure : Option String} {path : String} {place : Names}

theorem after_of_writes_nil {t : Trace} (h : t.writes = []) : d.after t = d := by
  rw [Disk.after, h, List.foldl_nil]

theorem after_perform (hnull : r.PathsHold (· ≠ '\x00'))
    (h : r.Supplied (d.host failure) (.program text)) (hparse : parse text = .ok e)
    (hjson : givenPath r.json = some path) (input : String) :
    d.after (perform r input (d.host failure)).2 =
      d.write ⟨path, (Table.ofExpr false e).json,
        (d.host failure).write path (Table.ofExpr false e).json⟩ := by
  rw [Disk.after, writes_perform hnull h hparse, hjson]
  rfl

theorem placed_host (content : String) :
    d.placed ⟨path, content, (d.host failure).write path content⟩ = some place ↔
      d.target path = .ok (some place) := by
  rw [Disk.placed_eq_some]
  refine ⟨And.right, fun h => ⟨?_, h⟩⟩
  simp only [Disk.host, h]

/-- A place that holds something else behind a request holds the table of its program. -/
theorem table_of_changed (hnull : r.PathsHold (· ≠ '\x00')) {input : String}
    (h : (d.after (perform r input (d.host failure)).2).find? place ≠ d.find? place) :
    ∃ path text e, r.json = some path ∧ r.Supplied (d.host failure) (.program text) ∧
      parse text = .ok e ∧ d.target path = .ok (some place) ∧
      (d.after (perform r input (d.host failure)).2).find? place =
        some (.file (Text.Utf8.encode (Table.ofExpr false e).json)) := by
  have hwrites : (perform r input (d.host failure)).2.writes ≠ [] := fun hnil =>
    h (congrArg (Disk.find? · place) (after_of_writes_nil hnil))
  obtain hnil | ⟨-, text, e, hsupply, hparse⟩ := quiet_or_program hnull input (d.host failure)
  · exact absurd hnil hwrites
  · cases hjson : givenPath r.json with
    | none => exact absurd (by rw [writes_perform hnull hsupply hparse, hjson]; rfl) hwrites
    | some path =>
      rw [after_perform hnull hsupply hparse hjson, Disk.find?_write] at h ⊢
      have hplaced := of_not_not fun hnot => h (if_neg hnot)
      refine ⟨path, text, e, of_givenPath hjson, hsupply, hparse, (placed_host _).1 hplaced, ?_⟩
      rw [if_pos hplaced, Write.entry, toUTF8_eq_encode]

/-- **A run changes one file at most.** Whatever is on a disk, a run that does not end with 0 leaves
it as it was. A place on it that holds something else behind a run is the one that the path for the
table leads to, and what it holds is the table of the program that was parsed; every other place
holds what it held. And if that path leads to a place on the disk, the table is read back
from it. -/
theorem run_on_disk {args : List String} (hnull : ∀ s ∈ args, '\x00' ∉ s.toList) (input : String)
    (d : Disk) (failure : Option String) :
    let o := run edition args input (d.host failure)
    (o.status ≠ .exit 0 → d.after o.trace = d) ∧
    (∀ place, (d.after o.trace).find? place ≠ d.find? place →
      ∃ r path text e, Request.ofArgs edition args = .ok r ∧ r.json = some path ∧
        r.Supplied (d.host failure) (.program text) ∧ parse text = .ok e ∧
        d.target path = .ok (some place) ∧
        (d.after o.trace).find? place =
          some (.file (Text.Utf8.encode (Table.ofExpr false e).json))) ∧
    ∀ r path text e place, Request.ofArgs edition args = .ok r → givenPath r.json = some path →
      r.Supplied (d.host failure) (.program text) → parse text = .ok e →
      d.target path = .ok (some place) →
      (d.after o.trace).read path = .ok (Text.Utf8.encode (Table.ofExpr false e).json) := by
  intro o
  cases hargs : Request.ofArgs edition args with
  | error stop =>
    have hafter : d.after o.trace = d := by
      refine after_of_writes_nil ?_
      simp only [o, run, hargs]
      cases stop <;> rfl
    refine ⟨fun _ => hafter, fun place hplace => ?_, fun r path text e place h => ?_⟩
    · exact absurd (congrArg (Disk.find? · place) hafter) hplace
    · cases h
  | ok r =>
    have hpaths := Request.pathsHold_ofArgs (P := (· ≠ '\x00')) hargs fun s hs c hc hnul =>
      hnull s hs (hnul ▸ hc)
    have hrun : o = _ := run_of_ofArgs hargs input (d.host failure)
    rw [hrun]
    refine ⟨fun hstatus => ?_, fun place hplace => ?_, ?_⟩
    · obtain hnil | ⟨hzero, -⟩ := quiet_or_program hpaths input (d.host failure)
      · exact after_of_writes_nil hnil
      · exact absurd hzero hstatus
    · obtain ⟨path, text, e, hchanged⟩ := table_of_changed hpaths hplace
      exact ⟨r, path, text, e, rfl, hchanged⟩
    · rintro _ path text e place ⟨⟩ hjson h hparse htarget
      dsimp only
      rw [after_perform hpaths h hparse hjson, ← toUTF8_eq_encode]
      exact Disk.read_write ((placed_host _).2 htarget)

end Command
end LetFun
