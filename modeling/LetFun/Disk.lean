import LetFun.Host
/-!
# Disks

A disk in memory: files and directories under one working directory, reached by
paths as an operating system reads them.  A path is walked name by name; `.` and
empty names stay, `..` goes up, and every name but the last must be that of a
directory.  The directories above the working directory hold nothing else that the
disk knows of, and what is written there leaves no mark on it.
-/

namespace LetFun

/-- The names that lead from the working directory to a place in it. -/
abbrev Names := List String

/-- What lies at a place. -/
inductive Entry where
  | file (bytes : List UInt8)
  | directory
deriving DecidableEq, Repr

/-- The file that a write makes. -/
def Write.entry (w : Write) : Entry := .file w.content.toUTF8.data.toList

/-- The places that hold something; the directories on the way to them need no mention. -/
structure Disk where
  entries : List (Names × Entry)
deriving DecidableEq, Repr

namespace Disk

/-- What lies at a place, if anything does. -/
def find? (d : Disk) (place : Names) : Option Entry :=
  match d.entries.lookup place with
  | some entry => some entry
  | none =>
    if place.isEmpty || d.entries.any fun (p, _) => place.isPrefixOf p then some .directory
    else none

/-- Where a walk has come to. -/
inductive Stand where
  | inside (place : Names)
  /-- A directory that holds the working directory. -/
  | above
  /-- A place that holds nothing. -/
  | nowhere (place : Option Names)
deriving DecidableEq, Repr

/-- The longest name of a file, in bytes. -/
def maxName : Nat := 255

/-- The longest path, in bytes. -/
def maxPath : Nat := 4095

/-- Where a walk has come to that has gone on to a place. -/
def found (d : Disk) (place : Names) : Stand :=
  if (d.find? place).isSome then .inside place else .nowhere (some place)

/-- Goes one name further. -/
def step (d : Disk) (s : Stand) (name : String) : Except OsError Stand :=
  match s with
  | .nowhere _ => .error .notFound
  | .above =>
    if name = "" ∨ name = "." ∨ name = ".." then .ok .above
    else if maxName < name.utf8ByteSize then .error .nameTooLong
    else .ok (.nowhere none)
  | .inside place =>
    match d.find? place with
    | some .directory =>
      if name = "" ∨ name = "." then .ok s
      else if name = ".." then
        .ok (if place.isEmpty then .above else .inside place.dropLast)
      else if maxName < name.utf8ByteSize then .error .nameTooLong
      else .ok (d.found (place ++ [name]))
    | _ => .error .notDirectory

/-- Goes along names. -/
def walk (d : Disk) (s : Stand) (names : Names) : Except OsError Stand := names.foldlM d.step s

theorem walk_cons (d : Disk) (s : Stand) (name : String) (names : Names) :
    d.walk s (name :: names) = d.step s name >>= fun s => d.walk s names :=
  List.foldlM_cons ..

theorem walk_append (d : Disk) (s : Stand) (names names' : Names) :
    d.walk s (names ++ names') = d.walk s names >>= fun s => d.walk s names' :=
  List.foldlM_append ..

/-- The names in a path: what lies between slashes, the empty names among them. -/
def namesOf : List Char → List (List Char)
  | [] => [[]]
  | c :: cs =>
    if c = '/' then [] :: namesOf cs
    else
      match namesOf cs with
      | [] => [[c]]
      | name :: names => (c :: name) :: names

/-- Where the walk along a path starts, and the names that it goes along. -/
def route (path : String) : Except OsError (Stand × Names) :=
  if path.isEmpty then .error .notFound
  else if maxPath < path.utf8ByteSize then .error .nameTooLong
  else
    let start := if path.toList.head? = some '/' then .above else .inside []
    .ok (start, (namesOf path.toList).map String.ofList)

/-- Reads a file. -/
def read (d : Disk) (path : String) : Except OsError (List UInt8) := do
  let (start, names) ← route path
  match ← d.walk start names with
  | .nowhere _ => .error .notFound
  | .above => .error .isDirectory
  | .inside place =>
    match d.find? place with
    | some (.file bytes) => .ok bytes
    | _ => .error .isDirectory

/-- The place of the file that is written where a walk has come to, if it lies under the working
directory. -/
def landing (d : Disk) : Stand → Except OsError (Option Names)
  | .nowhere place => .ok place
  | .above => .error .isDirectory
  | .inside place =>
    match d.find? place with
    | some (.file _) => .ok (some place)
    | _ => .error .isDirectory

/-- Where a file is to be written: its place, if it lies under the working directory. A name with
a slash behind it is taken for a directory, whatever it names. -/
def target (d : Disk) (path : String) : Except OsError (Option Names) := do
  let (start, names) ← route path
  let named := (names.reverse.dropWhile (·.isEmpty)).reverse
  match named.getLast? with
  | none => .error .isDirectory
  | some last =>
    let parent ← d.walk start named.dropLast
    if named.length < names.length ∧ last ≠ "." ∧ last ≠ ".." then
      let _ ← d.step parent ""
      .error .isDirectory
    else d.landing (← d.step parent last)

/-- The world of a disk, with a renderer that fails for the given reason if there is one. -/
def host (d : Disk) (renderFailure : Option String) : Host where
  read := d.read
  write path _ :=
    match d.target path with
    | .ok _ => none
    | .error e => some e
  render _ := renderFailure

/-- The place of a file that is written, if it lies under the working directory. -/
def placed (d : Disk) (w : Write) : Option Names :=
  match w.failure, d.target w.path with
  | none, .ok place => place
  | _, _ => none

/-- The disk once a file is written. -/
def write (d : Disk) (w : Write) : Disk :=
  match d.placed w with
  | some place => ⟨(place, w.entry) :: d.entries⟩
  | none => d

/-- The disk once a run is over. -/
def after (d : Disk) (t : Trace) : Disk := t.writes.foldl write d

/-- The files that writes create or change, by their paths from the working directory. -/
def changed (d : Disk) (writes : List Write) : List (String × String) :=
  writes.filterMap fun w =>
    match d.placed w with
    | some place =>
      if d.find? place = some w.entry then none else some ("/".intercalate place, w.content)
    | none => none

end Disk
end LetFun
