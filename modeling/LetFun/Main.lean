import LetFun.Command
/-!
# The program

Carries a run of the command out on the real world.  What a run asks of the
world does not depend on how its writing fares, so the run is made once to learn
what it wants and once more with the world's answers.  There is no renderer to
hand drawings to, so every drawing fails.
-/

namespace LetFun

/-- A failure by its number, which the runtime may give negated. The failures that a disk knows
have texts of their own. -/
def osError (code : UInt32) (details : String) : OsError :=
  let number := if code.toNat < 0x80000000 then code.toNat else 0x100000000 - code.toNat
  let known := [OsError.notFound, .notDirectory, .isDirectory, .nameTooLong]
  (known.find? (·.number == number)).getD ⟨number, details⟩

/-- A failure as the operating system numbers and names it; one that it does not number counts as
an error of input or output. -/
def osErrorOf : IO.Error → OsError
  | .noFileOrDirectory _ code details | .noSuchThing _ code details
  | .inappropriateType _ code details | .invalidArgument _ code details
  | .resourceExhausted _ code details | .permissionDenied _ code details
  | .otherError code details => osError code details
  | e => ⟨5, toString e⟩

/-- The bytes of a file. -/
def readBytes (path : String) : IO (Except OsError (List UInt8)) := do
  try
    return .ok (← IO.FS.readBinFile path).toList
  catch e => return .error (osErrorOf e)

/-- Writes a file, and answers how that failed if it did. -/
def writeText (path content : String) : IO (Option OsError) := do
  try
    IO.FS.writeFile path content
    return none
  catch e => return some (osErrorOf e)

/-- What stands for the failure behind a notice. -/
def noRenderer : String := "no renderer is installed"

/-- Prints notices, stamped with the milliseconds that have passed. -/
def printNotices (notices : List Notice) : IO Unit := do
  let time ← IO.monoMsNow
  IO.eprint (String.join (notices.map (Command.showNotice (toString time) noRenderer)))

/-- Talks to whoever types, one line at a time. -/
partial def talk (r : Command.Request) : IO Unit := do
  let stdout ← IO.getStdout
  stdout.putStr Session.prompt
  stdout.flush
  let line ← (← IO.getStdin).getLine
  if line.isEmpty then stdout.putStr Session.exhausted
  else
    match Session.Turn.of line with
    | .quit => stdout.putStr Session.farewell
    | .pass => talk r
    | .program text =>
      let said := Session.respond r.printTokens r.listing text
      stdout.putStr said.stdout
      if r.verbose then printNotices said.notices
      talk r

/-- A world that can only be read. -/
def reading (file : Except OsError (List UInt8)) (failures : List (String × OsError)) : Host :=
  ⟨fun _ => file, fun path _ => failures.lookup path, fun _ => some noRenderer⟩

/-- Runs the command, by the rules in force, and answers its exit code. -/
def carryOut (args : List String) : IO UInt32 := do
  let request := Command.Request.ofArgs .second args
  let source := request.toOption.map Command.Request.source
  if let .ok r := request then
    if source = some .session then
      IO.print Session.header
      talk r
      return 0
  let file ← match source with
    | some (.file path) => readBytes path
    | _ => pure (.error .notFound)
  let wanted := (Command.run .second args "" (reading file [])).trace.writes
  let failures ← wanted.filterMapM fun w => do
    return (← writeText w.path w.content).map fun e => (w.path, e)
  let outcome := Command.run .second args "" (reading file failures)
  IO.print outcome.trace.stdout
  IO.eprint outcome.complaint
  if outcome.verbose then printNotices outcome.trace.notices
  match outcome.status with
  | .exit code => return UInt32.ofNat code
  | .escaped e =>
    IO.eprintln e.message
    return 1

end LetFun

def main (args : List String) : IO UInt32 := LetFun.carryOut args
