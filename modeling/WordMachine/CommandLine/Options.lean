/-
  The arguments of the command line.

  Arguments are read from left to right.  An option with a value is written in two
  arguments or in one with an equals sign between; after two dashes alone everything is
  an image.  The first argument that asks for the version or for help, or that is wrong,
  decides.

  * `Request.parse` reads the arguments; `UsageError` says what is wrong with them;
  * `Options` is a request to run an image, `Draft` one that is still being read;
  * `parseAddress?` and `parseLevel?` read the values of options.
-/
import WordMachine.Event

namespace WordMachine

/-! ## Values of options -/

/-- The value of decimal digits, of which there is at least one. -/
def parseDigits? (digits : List Char) : Option Nat :=
  if digits ≠ [] ∧ digits.all Char.isDigit then
    some (digits.foldl (fun n c => 10 * n + (c.toNat - '0'.toNat)) 0)
  else none

/-- A decimal number of 16 bits, with or without a sign. -/
def parseAddress? (text : List Char) : Option Word := do
  let n ←
    match text with
    | '+' :: digits => parseDigits? digits
    | '-' :: digits => (parseDigits? digits).filter (· = 0)
    | digits => parseDigits? digits
  if n < UInt16.size then some (.ofNat n) else none

/-- A level, or the word for no messages at all, in letters of either case. -/
def parseLevel? (text : String) : Option (Option Level) :=
  if text.toLower = "off" then some none
  else (Level.all.find? fun level => level.name.toLower = text.toLower).map some

/-! ## Options -/

/-- The options that take a value. -/
inductive Setting where
  /-- The address that the image is loaded at. -/
  | base
  /-- A file of lines that are read before the input. -/
  | input
  /-- The file that the transcript is written to. -/
  | transcript
  /-- The file that the lines of input are written to. -/
  | replayOut
  /-- The least severe level of messages. -/
  | logLevel
deriving DecidableEq, Repr

/-- A request to run an image. -/
structure Options where
  image : String
  base : Word
  input : Option String
  transcript : Option String
  replayOut : Option String
  strictReturn : Bool
  logLevel : Option Level
deriving DecidableEq, Repr

/-- What is wrong with the arguments. -/
inductive UsageError where
  | unknownArgument (argument : String)
  | unexpectedArgument (argument : String)
  | repeatedArgument (argument : String)
  | missingValue (option : String)
  | unwantedValue (option : String)
  | badValue (option value : String)
  | missingImage
deriving DecidableEq, Repr

/-- The text of a usage error. -/
def UsageError.message : UsageError → String
  | unknownArgument argument => s!"unexpected argument '{argument}' found"
  | unexpectedArgument argument => s!"unexpected argument '{argument}' found"
  | repeatedArgument argument => s!"the argument '{argument}' cannot be used multiple times"
  | missingValue option => s!"a value is required for '{option}' but none was supplied"
  | unwantedValue option => s!"unexpected value for '{option}' found; no more were expected"
  | badValue option value => s!"invalid value '{value}' for '{option}'"
  | missingImage => "the following required arguments were not provided: <IMAGE>"

/-- What the arguments ask for. -/
inductive Request where
  /-- Run an image. -/
  | run (options : Options)
  /-- Show the version. -/
  | version
  /-- Show how the program is used. -/
  | help
deriving DecidableEq, Repr

/-! ## Reading arguments -/

/-- What one argument is. -/
inductive Argument where
  /-- No option. -/
  | positional
  /-- Two dashes: no argument after them is an option. -/
  | separator
  /-- An option, and the value in the same argument if there is one. -/
  | setting (setting : Setting) (name : String) (value : Option String)
  /-- An option without a value, which may have got one. -/
  | strictReturn (name : String) (value : Option String)
  | version (value : Option String)
  | help (value : Option String)
  | unknown
deriving DecidableEq, Repr

/-- The argument is taken for an option; a single dash is none. -/
def LooksLikeOption (argument : String) : Prop :=
  argument.toList.head? = some '-' ∧ argument ≠ "-"

instance (argument : String) : Decidable (LooksLikeOption argument) :=
  inferInstanceAs (Decidable (_ ∧ _))

/-- A long option, by its name. -/
def Argument.ofName (name : String) (value : Option String) : Argument :=
  match name with
  | "--base" => .setting .base name value
  | "--input" => .setting .input name value
  | "--transcript" => .setting .transcript name value
  | "--replay-out" => .setting .replayOut name value
  | "--log-level" => .setting .logLevel name value
  | "--strict-ret" => .strictReturn name value
  | "--version" => .version value
  | "--help" => .help value
  | _ => .unknown

/-- What an argument is, where options are still looked for.  Of letters behind one dash
    the first one decides. -/
def Argument.of (argument : String) : Argument :=
  if ¬ LooksLikeOption argument then .positional
  else
    match argument.toList with
    | ['-', '-'] => .separator
    | '-' :: '-' :: _ =>
      let name := String.ofList (argument.toList.takeWhile (· ≠ '='))
      match argument.toList.dropWhile (· ≠ '=') with
      | [] => ofName name none
      | _ :: value => ofName name (some (String.ofList value))
    | '-' :: 'V' :: _ => .version none
    | '-' :: 'h' :: _ => .help none
    | _ => .unknown

/-- What has been read of a request so far. -/
structure Draft where
  image : Option String
  base : Option Word
  input : Option String
  transcript : Option String
  replayOut : Option String
  strictReturn : Bool
  logLevel : Option (Option Level)
deriving DecidableEq, Repr

namespace Draft

/-- Nothing has been read. -/
def empty : Draft := ⟨none, none, none, none, none, false, none⟩

/-- Fills a place that has to be empty. -/
def once {α : Type} (name : String) (old : Option α) (new : α) : Except UsageError (Option α) :=
  if old.isSome then .error (.repeatedArgument name) else .ok (some new)

/-- A path is any text but the empty one. -/
def path (name value : String) : Except UsageError String :=
  if value = "" then .error (.badValue name value) else .ok value

/-- Reads the value of an option. -/
def assign (d : Draft) (setting : Setting) (name value : String) : Except UsageError Draft := do
  match setting with
  | .base =>
    match parseAddress? value.toList with
    | some address => return { d with base := ← once name d.base address }
    | none => throw (.badValue name value)
  | .input => return { d with input := ← once name d.input (← path name value) }
  | .transcript => return { d with transcript := ← once name d.transcript (← path name value) }
  | .replayOut => return { d with replayOut := ← once name d.replayOut (← path name value) }
  | .logLevel =>
    match parseLevel? value with
    | some level => return { d with logLevel := ← once name d.logLevel level }
    | none => throw (.badValue name value)

/-- Reads the path of the image. -/
def setImage (d : Draft) (argument : String) : Except UsageError Draft := do
  if d.image.isSome then throw (.unexpectedArgument argument)
  return { d with image := some (← path "<IMAGE>" argument) }

/-- Asks for a fault on a return from nothing. -/
def setStrictReturn (d : Draft) (name : String) : Except UsageError Draft :=
  if d.strictReturn then .error (.repeatedArgument name)
  else .ok { d with strictReturn := true }

/-- The request, once all arguments are read.  Warnings are shown unless another level
    was asked for. -/
def toRequest (d : Draft) : Except UsageError Request :=
  match d.image with
  | none => .error .missingImage
  | some image =>
    .ok (.run ⟨image, d.base.getD 0, d.input, d.transcript, d.replayOut, d.strictReturn,
      d.logLevel.getD (some .warn)⟩)

end Draft

namespace Request

/-- Reads the arguments that are left. -/
def parseFrom : List String → Draft → Except UsageError Request
  | [], d => d.toRequest
  | argument :: rest, d =>
    match Argument.of argument with
    | .positional => do parseFrom rest (← d.setImage argument)
    | .separator => do (← rest.foldlM Draft.setImage d).toRequest
    | .setting setting name (some value) => do parseFrom rest (← d.assign setting name value)
    | .setting setting name none =>
      match rest with
      | [] => .error (.missingValue name)
      | value :: rest =>
        if LooksLikeOption value then .error (.missingValue name)
        else do parseFrom rest (← d.assign setting name value)
    | .strictReturn name none => do parseFrom rest (← d.setStrictReturn name)
    | .version none => .ok .version
    | .help none => .ok .help
    | .strictReturn _ (some _) | .version (some _) | .help (some _) =>
      .error (.unwantedValue argument)
    | .unknown => .error (.unknownArgument argument)

/-- Reads the arguments of the command line. -/
def parse (arguments : List String) : Except UsageError Request := parseFrom arguments .empty

end Request

end WordMachine
