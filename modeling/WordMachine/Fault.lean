/-
  Faults: the reasons why an operation of the machine does not succeed.

  * `DeviceError` is a failure of the world outside: a reader, a writer, a file;
  * `ImageDefect` is what is wrong with a program image before its words are looked at;
  * `Fault` is every failure of the machine;
  * `message` gives each its one text, and `Fault.source` the device error behind a
    fault, if there is one.
-/
import WordMachine.Text.Hex

namespace WordMachine

/-- A failure outside of the machine. -/
inductive DeviceError where
  /-- A line or a file does not hold text. -/
  | malformedText
  /-- A writer took none of the bytes offered to it. -/
  | full
  /-- There is no file of that name, or no directory to put it in. -/
  | notFound
  /-- A directory stands where a file is needed. -/
  | isDirectory
  /-- A file stands where a directory is needed. -/
  | notDirectory
  /-- A path, or a name in it, has too many bytes. -/
  | nameTooLong
  /-- The place may not be written to. -/
  | notPermitted
  /-- There is no room for what is written. -/
  | noSpace
  /-- A device reported a failure in words of its own. -/
  | reported (text : String)
deriving DecidableEq, Repr

/-- The text of a device error. -/
def DeviceError.message : DeviceError → String
  | malformedText => "stream did not contain valid UTF-8"
  | full => "failed to write whole buffer"
  | notFound => "No such file or directory (os error 2)"
  | isDirectory => "Is a directory (os error 21)"
  | notDirectory => "Not a directory (os error 20)"
  | nameTooLong => "File name too long (os error 36)"
  | notPermitted => "Permission denied (os error 13)"
  | noSpace => "No space left on device (os error 28)"
  | reported text => text

/-- A defect of a program image as a whole. -/
inductive ImageDefect where
  /-- The image has an odd number of bytes. -/
  | oddLength (bytes : Nat)
  /-- The words do not fit between the base and the registers. -/
  | tooLong (words : Nat) (base : Word)
  /-- Any other defect, in words. -/
  | other (text : String)
deriving DecidableEq, Repr

/-- The text of an image defect. -/
def ImageDefect.message : ImageDefect → String
  | oddLength bytes => s!"image length {bytes} is not a whole number of words"
  | tooLong words base => s!"{words} words do not fit into memory at `{base.hex}`"
  | other text => text

/-- A failure of the machine. -/
inductive Fault where
  /-- An address beyond the registers, or a program counter beyond ordinary memory. -/
  | addressRange (address : Nat)
  /-- A word that the place it was meant for cannot hold. -/
  | valueRange (value : Nat)
  /-- The word at `pc` is no opcode. -/
  | invalidOpcode (opcode pc : Word)
  /-- A word was to be popped from an empty stack. -/
  | stackUnderflow
  /-- The remainder by zero was asked for. -/
  | divisionByZero
  /-- A program image is malformed. -/
  | load (defect : ImageDefect)
  /-- A character was asked for and the input has ended. -/
  | inputExhausted
  /-- A device failed. -/
  | device (error : DeviceError)
deriving DecidableEq, Repr

namespace Fault

/-- The text of a fault. -/
def message : Fault → String
  | addressRange address => s!"address `{address}` is outside of the address space"
  | valueRange value => s!"value `{value}` is not a valid word"
  | invalidOpcode opcode pc => s!"invalid opcode `{opcode}` at `{pc.hex}`"
  | stackUnderflow => "pop from an empty stack"
  | divisionByZero => "modulo by zero"
  | load defect => s!"failed to load image: {defect.message}"
  | inputExhausted => "input ended while waiting for a character"
  | device error => s!"i/o error: {error.message}"

/-- The failure behind a fault: only a device fault has one. -/
def source : Fault → Option DeviceError
  | device error => some error
  | _ => none

/-- The texts of a fault and of the failure behind it, outermost first. -/
def messages (fault : Fault) : List String :=
  fault.message :: (fault.source.map DeviceError.message).toList

end Fault

end WordMachine
