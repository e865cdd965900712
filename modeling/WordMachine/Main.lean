/-
  The command line on a real computer.

  The machine is run step by step, so that its output is seen while it runs, and a line is
  read only when the next step asks for one.
-/
import WordMachine.CommandLine.Session

namespace WordMachine

/-- The failure that the system reported. -/
def DeviceError.ofSystem (error : IO.Error) : DeviceError :=
  match error with
  | .noFileOrDirectory _ _ _ => .notFound
  | .permissionDenied _ _ _ => .notPermitted
  | .resourceExhausted _ 28 _ => .noSpace
  | error => .reported (toString error)

/-- Runs an action on files and catches its failure. -/
def attempt {α : Type} (action : IO α) : IO (Except DeviceError α) := do
  try
    return .ok (← action)
  catch error =>
    return .error (.ofSystem error)

/-- Reads the bytes through the next newline, or to the end of the input. -/
partial def readLineBytes (stdin : IO.FS.Stream) (line : ByteArray) : IO ByteArray := do
  let next ← stdin.read 1
  if next.isEmpty then return line
  let line := line ++ next
  if next.data[0]? = some Source.newline then return line
  readLineBytes stdin line

/-- Shows an event if it is at least as severe as the bound. -/
def showEvent (bound : Option Level) (event : Event) : IO Unit := do
  if event.level.Within bound then
    (← IO.getStdout).putStrLn s!"{event.level.name} {event.message}"

/-- Runs a machine to its end.  The first `shown` bytes of its output were shown before. -/
partial def runShowing (bound : Option Level) (shown : Nat) (m : Machine) :
    IO (Except Fault Unit × Machine) := do
  let stdout ← IO.getStdout
  let m ←
    if m.WantsLine then do
      stdout.flush
      let line ← readLineBytes (← IO.getStdin) .empty
      pure (m.feed line.data.toList)
    else pure m
  let ran := if m.halted then Machine.finish (.ok ()) m else Machine.step m
  let output := ran.state.output
  if shown < output.size then stdout.write ⟨output.extract shown output.size⟩
  for event in ran.log do showEvent bound event
  match ran.outcome with
  | .ok () =>
    if m.halted then
      stdout.flush
      return (.ok (), ran.state)
    runShowing bound output.size ran.state
  | .error fault =>
    let ended := Machine.finish (.error fault) ran.state
    stdout.flush
    return (.error fault, ended.state)

/-- The computer that the program runs on. -/
def computer (bound : Option Level) : Host IO.FS.Handle IO where
  read path := attempt do return (← IO.FS.readBinFile path).data.toList
  create path := attempt do IO.FS.Handle.mk path .write
  write file contents := attempt do
    file.write contents.toByteArray
    file.flush
  print text := do (← IO.getStdout).putStr text
  note event := showEvent bound event
  execute machine := runShowing bound 0 machine

/-- Follows the arguments of the command line, and reports a failure. -/
def commandLine (arguments : List String) : IO UInt32 := do
  let ending ← invoke computer arguments ⟨[], none⟩ .unlimited
  match ending with
  | .success => pure ()
  | .failure problem =>
    IO.eprintln "Error:"
    for message in problem.messages do
      IO.eprintln s!"  {message}"
  | .misuse error =>
    IO.eprintln s!"error: {error.message}"
    IO.eprint helpText
  return ending.exitStatus.toUInt32

end WordMachine

/-- The program. -/
def main (arguments : List String) : IO UInt32 := WordMachine.commandLine arguments
