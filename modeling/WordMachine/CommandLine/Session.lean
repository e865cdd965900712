/-
  A session: an image is loaded and run, and what was said is kept in files.

  A session runs on a host, which reads, creates and writes files, shows output and events,
  and runs a machine to its end.  A real computer is a host; `Sandbox.host` is one that is a
  value: its files, and what was shown.

  * `Problem` is why a session failed, with the texts of its report, outermost first;
  * `session` follows a request: it reads the image and the lines to replay, runs the
    machine, and writes the session files, whether the run ended well or not.  The first
    thing that goes wrong ends it, be it that a file cannot be created or that its contents
    cannot be written; a fault of the run waits until the files are written;
  * `invoke` follows the arguments of a command line and gives the exit status.
-/
import WordMachine.CommandLine.Options
import WordMachine.Files
import WordMachine.Machine.Run

namespace WordMachine

/-! ## Problems -/

/-- Why a session failed. -/
inductive Problem where
  | unreadable (path : String) (error : DeviceError)
  | unloadable (path : String) (fault : Fault)
  | uncreatable (path : String) (error : DeviceError)
  /-- A file was created, and its contents could not be written. -/
  | unwritten (error : DeviceError)
  | faulted (pc : Word) (fault : Fault)
deriving DecidableEq, Repr

/-- The texts of the report, outermost first. -/
def Problem.messages : Problem → List String
  | unreadable path error => [s!"Failed to read {path}", error.message]
  | unloadable path fault => s!"Failed to load {path}" :: fault.messages
  | uncreatable path error => [s!"Failed to create {path}", error.message]
  | unwritten error => [error.message]
  | faulted pc fault => s!"Program faulted at {pc.upperHex}" :: fault.messages

/-! ## Hosts -/

/-- What a session needs of the computer it runs on.  A file that is open to be written to is a
    `File`. -/
structure Host (File : Type) (m : Type → Type) where
  /-- Reads a file. -/
  read : String → m (Except DeviceError (List UInt8))
  /-- Creates a file, or empties it, and opens it. -/
  create : String → m (Except DeviceError File)
  /-- Writes the contents of a file that was opened. -/
  write : File → List UInt8 → m (Except DeviceError Unit)
  /-- Shows some text. -/
  print : String → m Unit
  /-- Shows an event. -/
  note : Event → m Unit
  /-- Runs a machine to its end, and shows its output and its events. -/
  execute : Machine → m (Except Fault Unit × Machine)

section
variable {File : Type} {m : Type → Type} [Monad m]

/-! ## Sessions -/

/-- Reads a file, or fails. -/
def readFile (host : Host File m) (path : String) : ExceptT Problem m (List UInt8) := do
  match ← host.read path with
  | .ok contents => pure contents
  | .error error => throw (.unreadable path error)

/-- Reads a file of text, or fails. -/
def readTextFile (host : Host File m) (path : String) : ExceptT Problem m String := do
  match String.fromUTF8? (← readFile host path).toByteArray with
  | some text => pure text
  | none => throw (.unreadable path .malformedText)

/-- Creates a file and writes its contents, or fails, and shows the event. -/
def writeFile (host : Host File m) (path : String) (render : Action Sink Unit) (event : Event) :
    ExceptT Problem m Unit := do
  match ← host.create path with
  | .error error => throw (.uncreatable path error)
  | .ok file =>
    match ← host.write file (render .unlimited).state.written.toList with
    | .error error => throw (.unwritten error)
    | .ok () => host.note event

/-- The machine that a request asks for, before its first step.  A transcript is kept if
    any session file is asked for. -/
def prepare (host : Host File m) (options : Options) (source : Source) (sink : Sink) :
    ExceptT Problem m Machine := do
  let image ← readFile host options.image
  let loaded := Store.loadImage image options.base .empty
  for event in loaded.log do host.note event
  if let .error fault := loaded.outcome then throw (.unloadable options.image fault)
  let lines ←
    match options.input with
    | none => pure []
    | some path => do pure (Transcript.readInputs (← readTextFile host path))
  let machine := (Machine.new loaded.state source sink).queueLines lines
  let machine := if options.strictReturn then machine.withEmptyReturn .faults else machine
  pure (if options.transcript.isSome ∨ options.replayOut.isSome then machine.record else machine)

/-- Writes the session files that are asked for. -/
def keepFiles (host : Host File m) (options : Options) (transcript : Transcript) :
    ExceptT Problem m Unit := do
  if let some path := options.transcript then
    writeFile host path transcript.render (.transcriptWritten path)
  if let some path := options.replayOut then
    writeFile host path transcript.renderInputs (.inputsWritten path)

/-- Follows a request to run an image. -/
def session (host : Host File m) (options : Options) (source : Source) (sink : Sink) :
    ExceptT Problem m Unit := do
  let machine ← prepare host options source sink
  let (outcome, machine) ← host.execute machine
  if let .error fault := outcome then host.note (.stopped machine.store.pc fault)
  if let some transcript := machine.console.transcript then
    keepFiles host options transcript
  if let .error fault := outcome then throw (.faulted machine.store.pc fault)

/-! ## Invocations -/

/-- How an invocation ended. -/
inductive Ending where
  | success
  /-- The session failed. -/
  | failure (problem : Problem)
  /-- The arguments were wrong. -/
  | misuse (error : UsageError)
deriving DecidableEq, Repr

namespace Ending

/-- The exit status of an invocation. -/
def exitStatus : Ending → Nat
  | success => 0
  | failure _ => 1
  | misuse _ => 2

/-- The texts of the error report, outermost first. -/
def report : Ending → List String
  | failure problem => problem.messages
  | success | misuse _ => []

end Ending

/-- The name of the program and its version. -/
def versionText : String := "synvm 0.1.0\n"

/-- How the program is used. -/
def helpText : String := "Usage: synvm [OPTIONS] <IMAGE>\n"

/-- Follows the arguments of a command line.  `host` depends on the level of messages
    that is asked for. -/
def invoke (host : Option Level → Host File m) (arguments : List String) (source : Source)
    (sink : Sink) : m Ending := do
  match Request.parse arguments with
  | .error error => pure (.misuse error)
  | .ok .version => do
    (host none).print versionText
    pure .success
  | .ok .help => do
    (host none).print helpText
    pure .success
  | .ok (.run options) => do
    match ← (session (host options.logLevel) options source sink).run with
    | .ok () => pure .success
    | .error problem => pure (.failure problem)

end

/-! ## A host that is a value -/

/-- Files, and the output and the events that were shown. -/
structure Sandbox where
  files : Files
  output : Array UInt8
  log : List Event
deriving Inhabited

namespace Sandbox

/-- The host that works in a sandbox, and shows the events within a bound.  It has no
    answer if a program runs for more than `fuel` steps. -/
def host (fuel : Nat) (bound : Option Level) : Host Place (StateT Sandbox Option) where
  read path := return (← get).files.read path
  create path := do
    match (← get).files.create path with
    | .ok (place, files) =>
      modify fun sandbox => { sandbox with files }
      pure (.ok place)
    | .error error => pure (.error error)
  write place contents := do
    let (outcome, files) := (← get).files.write place contents
    modify fun sandbox => { sandbox with files }
    pure outcome
  print text := modify fun sandbox => { sandbox with output := sandbox.output ++ text.toUTF8.data }
  note event := modify fun sandbox =>
    { sandbox with log := sandbox.log ++ Event.within bound [event] }
  execute machine := do
    let ran ← liftM (Machine.runKeeping (·.level.Within bound) fuel machine)
    modify fun sandbox =>
      { sandbox with output := sandbox.output ++ ran.state.output, log := sandbox.log ++ ran.log }
    pure (ran.outcome, ran.state)

/-- Follows the arguments of a command line among such files, with bytes to read. -/
def invoke (fuel : Nat) (files : Files) (arguments : List String) (input : List UInt8) :
    Option (Ending × Sandbox) :=
  (WordMachine.invoke (host fuel) arguments ⟨input, none⟩ .unlimited).run
    ⟨files, #[], []⟩

end Sandbox

end WordMachine
