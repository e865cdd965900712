/-
  The reference machine: the instruction table, carried out literally.

  Memory, registers and stack are apart, and hold natural numbers.  An instruction is known by its
  number: the table `kinds` says which operands follow it, and the table `effect` what it does with
  them.  Whatever is written, pushed or jumped to is checked.

  * `State` and `Terminal` are the parts of the machine;
  * `instruction` takes the number under the program counter and resolves its operands;
  * `step` is one step, and `steps` some number of them.
-/
import WordMachine.Machine.Basic

namespace WordMachine

namespace Reference

/-! ## States -/

/-- The two devices, the codes left of the current line, the lines that come before the input, and
    the transcript if one is kept. -/
structure Terminal where
  input : Source
  output : Sink
  codes : List Nat
  lines : List String
  transcript : Option Transcript

/-- The parts of the machine.  The top of the stack comes first. -/
structure State where
  memory : Fin 32768 → Nat
  registers : Fin 8 → Nat
  stack : List Nat
  pc : Nat
  halted : Bool
  terminal : Terminal
  emptyReturn : EmptyReturn

/-- What is done with a state; after a fault there is none. -/
abbrev Effect (α : Type) : Type := StateT State (Except Fault) α

/-! ## Memory, registers and stack -/

/-- The word at an address: below 32768 a cell, from there on a register. -/
def read (a : Nat) : Effect Nat := fun s =>
  if h : a < 32768 then .ok (s.memory ⟨a, h⟩, s)
  else if h : a - 32768 < 8 then .ok (s.registers ⟨a - 32768, h⟩, s)
  else .error (.addressRange a)

/-- Writes a word of 15 bits to a cell or a register. -/
def write (a v : Nat) : Effect Unit := fun s =>
  if 32775 < a then .error (.addressRange a)
  else if 32767 < v then .error (.valueRange v)
  else if a < 32768 then
    .ok ((), { s with memory := fun i => if i = a then v else s.memory i })
  else .ok ((), { s with registers := fun r => if 32768 + r = a then v else s.registers r })

/-- What a word stands for: the contents of a register, or itself. -/
def resolve (w : Nat) : Effect Nat := fun s =>
  if h : 32768 ≤ w ∧ w - 32768 < 8 then .ok (s.registers ⟨w - 32768, h.2⟩, s) else .ok (w, s)

/-- Puts a word of 15 bits on the stack. -/
def push (v : Nat) : Effect Unit := fun s =>
  if 32767 < v then .error (.valueRange v) else .ok ((), { s with stack := v :: s.stack })

def pop : Effect Nat := fun s =>
  match s.stack with
  | [] => .error .stackUnderflow
  | v :: stack => .ok (v, { s with stack })

/-- Sets the program counter to an address of memory. -/
def jump (a : Nat) : Effect Unit := fun s =>
  if 32767 < a then .error (.addressRange a) else .ok ((), { s with pc := a })

def halt : Effect Unit := fun s => .ok ((), { s with halted := true })

/-! ## The terminal -/

namespace Terminal

/-- Writes the character with a code in UTF-8 and records it. -/
def emit (code : Nat) : StateT Terminal (Except Fault) Unit := fun t =>
  let c := Char.ofNat code
  match Sink.write (String.utf8EncodeChar c) t.output with
  | ⟨.ok (), output, _⟩ => .ok ((), { t with
      output
      transcript := t.transcript.map (·.logOutput (String.singleton c)) })
  | ⟨.error fault, _, _⟩ => .error fault

/-- Flushes the output and takes a line: one that comes before the input, or else one from it. -/
def nextLine : StateT Terminal (Except Fault) String := fun t =>
  match Sink.flush t.output with
  | ⟨.error fault, _, _⟩ => .error fault
  | ⟨.ok (), output, _⟩ =>
    match t.lines with
    | line :: lines => .ok (line, { t with output, lines })
    | [] =>
      match Source.readLine t.input with
      | ⟨.ok line, input, _⟩ => .ok (line, { t with input, output })
      | ⟨.error fault, _, _⟩ => .error fault

/-- The characters of a line without its end: a newline, a carriage return, or the one behind the
    other. -/
def withoutEnd (line : List Char) : List Char :=
  match line.reverse with
  | '\n' :: '\r' :: rest => rest.reverse
  | '\n' :: rest | '\r' :: rest => rest.reverse
  | _ => line

/-- Takes a line for the codes to come.  Its end is not one of them, but a newline, 10, is. -/
def refill : StateT Terminal (Except Fault) Unit := do
  let line := withoutEnd (← nextLine).toList
  modify fun t => { t with
    codes := t.codes ++ line.map Char.toNat ++ [10]
    transcript := t.transcript.map (·.logInput (String.ofList line)) }

/-- Takes the next code, which has to be of 15 bits. -/
def nextCode : StateT Terminal (Except Fault) Nat := fun t =>
  match t.codes with
  | [] => .error .inputExhausted
  | code :: codes =>
    if 32767 < code then .error (.valueRange code) else .ok (code, { t with codes })

/-- Reads the next code.  Where there is none, a line is taken first. -/
def receive : StateT Terminal (Except Fault) Nat := do
  if (← get).codes.isEmpty then refill
  nextCode

end Terminal

def onTerminal {α : Type} (y : StateT Terminal (Except Fault) α) : Effect α := fun s => do
  let (a, terminal) ← y s.terminal
  return (a, { s with terminal })

/-! ## Instructions -/

/-- The operands of each instruction.  What is written to is kept as it is, anything else is
    resolved, and so is the first operand of number 16. -/
def kinds : Nat → Option (List Operand)
  | 0 => some []
  | 1 => some [.destination, .value]
  | 2 => some [.value]
  | 3 => some [.destination]
  | 4 => some [.destination, .value, .value]
  | 5 => some [.destination, .value, .value]
  | 6 => some [.value]
  | 7 => some [.value, .value]
  | 8 => some [.value, .value]
  | 9 => some [.destination, .value, .value]
  | 10 => some [.destination, .value, .value]
  | 11 => some [.destination, .value, .value]
  | 12 => some [.destination, .value, .value]
  | 13 => some [.destination, .value, .value]
  | 14 => some [.destination, .value]
  | 15 => some [.destination, .value]
  | 16 => some [.value, .value]
  | 17 => some [.value]
  | 18 => some []
  | 19 => some [.value]
  | 20 => some [.destination]
  | 21 => some []
  | _ => none

/-- What each instruction does with its operands. -/
def effect : Nat → List Nat → Effect Unit
  | 0, [] => halt
  | 1, [a, b] => write a b
  | 2, [a] => push a
  | 3, [a] => do write a (← pop)
  | 4, [a, b, c] => write a (if b = c then 1 else 0)
  | 5, [a, b, c] => write a (if b > c then 1 else 0)
  | 6, [a] => jump a
  | 7, [a, b] => if a ≠ 0 then jump b else pure ()
  | 8, [a, b] => if a = 0 then jump b else pure ()
  | 9, [a, b, c] => write a ((b + c) % 32768)
  | 10, [a, b, c] => write a (b * c % 32768)
  | 11, [a, b, c] => if c = 0 then throw .divisionByZero else write a (b % c)
  | 12, [a, b, c] => write a (b &&& c)
  | 13, [a, b, c] => write a (b ||| c)
  | 14, [a, b] => write a (32767 - b)
  | 15, [a, b] => do write a (← read b)
  | 16, [a, b] => write a b
  | 17, [a] => do push (← get).pc; jump a
  | 18, [] => do
    let s ← get
    if s.stack.isEmpty && s.emptyReturn = .halts then halt else jump (← pop)
  | 19, [a] => onTerminal (Terminal.emit a)
  | 20, [a] => do write a (← onTerminal Terminal.receive)
  | 21, [] => pure ()
  | _, _ => pure ()

/-- Takes the word under the program counter, which moves on. -/
def fetch : Effect Nat := fun s =>
  if h : s.pc < 32768 then .ok (s.memory ⟨s.pc, h⟩, { s with pc := s.pc + 1 })
  else .error (.addressRange s.pc)

/-- Takes a word for each operand, and resolves it where it is to be. -/
def operands : List Operand → Effect (List Nat)
  | [] => pure []
  | .destination :: kinds => do
    let w ← fetch
    return w :: (← operands kinds)
  | .value :: kinds => do
    let w ← resolve (← fetch)
    return w :: (← operands kinds)

/-- Takes the number of an instruction, as it is stored, and its operands. -/
def instruction : Effect (Nat × List Nat) := do
  let pc := (← get).pc
  let number ← fetch
  match kinds number with
  | none => throw (.invalidOpcode (.ofNat number) (.ofNat pc))
  | some kinds => return (number, ← operands kinds)

/-- One step.  A machine that has halted does nothing. -/
def step : Effect Unit := do
  if (← get).halted then pure ()
  else
    let (number, words) ← instruction
    effect number words

def steps : Nat → Effect Unit
  | 0 => pure ()
  | n + 1 => do
    step
    steps n

end Reference

end WordMachine
