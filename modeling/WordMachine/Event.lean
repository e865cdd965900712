/-
  Events: what the machine reports while it runs.

  * `Event` is what happened; `Event.level` says how much it matters and
    `Event.message` puts it into words;
  * `Level` orders reports from the most severe on, and `Event.within` is the filter
    by a level: without a level nothing passes.
-/
import WordMachine.Fault
import WordMachine.Opcode
import WordMachine.Text.Quoted

namespace WordMachine

/-! ## Levels -/

/-- How much a report matters, the most severe first. -/
inductive Level where
  | error | warn | info | debug | trace
deriving DecidableEq, Repr

namespace Level

/-- All levels, the most severe first. -/
def all : List Level := [error, warn, info, debug, trace]

/-- The name of a level. -/
def name : Level → String
  | error => "ERROR" | warn => "WARN" | info => "INFO" | debug => "DEBUG" | trace => "TRACE"

/-- The level is at least as severe as the bound; nothing is if there is no bound. -/
def Within (level : Level) : Option Level → Prop
  | none => False
  | some bound => level.ctorIdx ≤ bound.ctorIdx

instance (level : Level) : (bound : Option Level) → Decidable (level.Within bound)
  | none => inferInstanceAs (Decidable False)
  | some bound => inferInstanceAs (Decidable (level.ctorIdx ≤ bound.ctorIdx))

end Level

/-! ## Events -/

/-- Something that happened and is worth a message. -/
inductive Event where
  /-- An instruction succeeded: its operands as it used them, and the word it produced. -/
  | executed (op : Opcode) (operands : List Word) (result : Option Word)
  /-- A return found nothing to return to, which ends the program. -/
  | returnedOnEmpty
  /-- A line of input was taken. -/
  | inputLine (line : String)
  /-- A code that is no character is replaced on its way out. -/
  | replacedCode (code : Word)
  /-- The program ended at `pc`. -/
  | halted (pc : Word)
  /-- An image was written to the store. -/
  | loaded (words : Nat) (base : Word)
  /-- An image file was read. -/
  | fileRead (bytes : Nat) (path : String)
  /-- The program stopped with a fault. -/
  | stopped (pc : Word) (fault : Fault)
  /-- The transcript was written to a file. -/
  | transcriptWritten (path : String)
  /-- The input lines were written to a file. -/
  | inputsWritten (path : String)
deriving DecidableEq, Repr

namespace Event

/-- How much an event matters.  Instructions that do not change the store, the stack or
    the control flow matter least. -/
def level : Event → Level
  | executed .out _ _ | executed .noop _ _ => .trace
  | executed _ _ _ | returnedOnEmpty | inputLine _ | loaded _ _ | fileRead _ _ => .debug
  | halted _ | transcriptWritten _ | inputsWritten _ => .info
  | replacedCode _ => .warn
  | stopped _ _ => .error

/-- The words of an instruction, each after a space. -/
def spaced (words : List Word) : String :=
  String.join (words.map fun w => s!" {w}")

/-- The text of an event. -/
def message : Event → String
  | executed op operands none => s!"{op.mnemonic}{spaced operands}"
  | executed op operands (some result) => s!"{op.mnemonic}{spaced operands}: {result}"
  | returnedOnEmpty => s!"{Opcode.ret.mnemonic}: empty stack, halting"
  | inputLine line => s!"Input line {quoted line}"
  | replacedCode code => s!"Code {code} is not a character, writing U+FFFD"
  | halted pc => s!"Program halted at {pc.upperHex}"
  | loaded words base => s!"Loaded {words} words at {base.hex}"
  | fileRead bytes path => s!"Read {bytes} bytes from {path}"
  | stopped pc fault => s!"Execution stopped at {pc.upperHex}: {fault.message}"
  | transcriptWritten path => s!"Transcript written to {path}"
  | inputsWritten path => s!"Input lines written to {path}"

/-- The events that are at least as severe as the bound, in order. -/
def within (bound : Option Level) (log : List Event) : List Event :=
  log.filter fun event => event.level.Within bound

end Event

end WordMachine
