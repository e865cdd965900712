/-
  The instruction set.

  An instruction is stored as the code of its opcode, followed by one word for each
  operand.  The table `operands` says how many there are and how each is read: a
  destination is the address to write to and is kept as it is stored, a value stands
  for itself unless it names a register, which is then read.

  * `code` and `ofCode?` take an opcode to its word and back (`ofCode?_code`,
    `code_of_ofCode?`): exactly the words below 22 are codes (`ofCode?_eq_none_iff`);
  * `Instruction` is an opcode with its operands, `Instruction.encode` its stored form.
-/
import WordMachine.Word

namespace WordMachine

/-! ## Opcodes -/

/-- How an operand word is turned into what the instruction works with. -/
inductive Operand where
  /-- A place to write to, used as it is stored. -/
  | destination
  /-- A literal, or a register whose contents are used. -/
  | value
deriving DecidableEq, Repr

/-- Only a value is read through a register. -/
def Operand.dereferences : Operand → Bool
  | destination => false
  | value => true

/-- The operations of the machine, in the order of their codes. -/
inductive Opcode where
  /-- Stop the program. -/
  | halt
  /-- Write `b` to `a`. -/
  | set
  /-- Push `a`. -/
  | push
  /-- Pop into `a`. -/
  | pop
  /-- Write 1 to `a` if `b` equals `c`, and 0 otherwise. -/
  | eq
  /-- Write 1 to `a` if `b` is greater than `c`, and 0 otherwise. -/
  | gt
  /-- Jump to `a`. -/
  | jmp
  /-- Jump to `b` if `a` is not zero. -/
  | jt
  /-- Jump to `b` if `a` is zero. -/
  | jf
  /-- Write the sum of `b` and `c` to `a`. -/
  | add
  /-- Write the product of `b` and `c` to `a`. -/
  | mult
  /-- Write the remainder of `b` by `c` to `a`. -/
  | mod
  /-- Write the bitwise and of `b` and `c` to `a`. -/
  | and
  /-- Write the bitwise or of `b` and `c` to `a`. -/
  | or
  /-- Write the 15 bit complement of `b` to `a`. -/
  | not
  /-- Write the word at address `b` to `a`. -/
  | rmem
  /-- Write `b` to the address that `a` holds. -/
  | wmem
  /-- Push the address of the next instruction and jump to `a`. -/
  | call
  /-- Pop an address and jump to it. -/
  | ret
  /-- Write the character with code `a`. -/
  | out
  /-- Read a character and write its code to `a`. -/
  | inp
  /-- Do nothing. -/
  | noop
deriving DecidableEq, Repr

namespace Opcode

/-- All opcodes, each at the position of its code. -/
def all : List Opcode :=
  [halt, set, push, pop, eq, gt, jmp, jt, jf, add, mult, mod, and, or, not, rmem, wmem,
    call, ret, out, inp, noop]

/-- The word that stands for an opcode. -/
def code (op : Opcode) : Word := .ofNat op.ctorIdx

/-- The opcode that a word stands for, if any. -/
def ofCode? (w : Word) : Option Opcode := all[w.toNat]?

/-- The name of an opcode, as messages show it. -/
def mnemonic : Opcode → String
  | halt => "HALT" | set => "SET" | push => "PUSH" | pop => "POP" | eq => "EQ" | gt => "GT"
  | jmp => "JMP" | jt => "JT" | jf => "JF" | add => "ADD" | mult => "MULT" | mod => "MOD"
  | and => "AND" | or => "OR" | not => "NOT" | rmem => "RMEM" | wmem => "WMEM"
  | call => "CALL" | ret => "RET" | out => "OUT" | inp => "IN" | noop => "NOOP"

/-- The operands that follow an opcode, in the order they are stored.  In `wmem` the
    place to write to is a value: a register there holds the address. -/
def operands : Opcode → List Operand
  | halt | ret | noop => []
  | push | jmp | call | out => [.value]
  | pop | inp => [.destination]
  | jt | jf | wmem => [.value, .value]
  | set | not | rmem => [.destination, .value]
  | eq | gt | add | mult | mod | and | or => [.destination, .value, .value]

/-- The opcode of that name. -/
def ofMnemonic? (name : String) : Option Opcode := all.find? (·.mnemonic = name)

@[simp] theorem ofCode?_code (op : Opcode) : ofCode? op.code = some op := by
  cases op <;> rfl

theorem code_of_ofCode? {w : Word} {op : Opcode} (h : ofCode? w = some op) : op.code = w := by
  obtain ⟨hi, rfl⟩ := List.getElem?_eq_some_iff.mp h
  have key : ∀ i (hi : i < all.length), (all[i].code).toNat = i := by decide
  exact UInt16.toNat_inj.mp (key _ hi)

/-- Exactly the words below 22 are codes. -/
theorem ofCode?_eq_none_iff {w : Word} : ofCode? w = none ↔ 22 ≤ w.toNat := by
  simp [ofCode?, all]

theorem length_operands_le (op : Opcode) : op.operands.length ≤ 3 := by
  cases op <;> decide

end Opcode

/-! ## Instructions -/

/-- An opcode with three operand words, of which it uses the first ones.  The others
    are zero in an instruction that was fetched. -/
structure Instruction where
  opcode : Opcode
  a : Word
  b : Word
  c : Word
deriving DecidableEq, Repr

namespace Instruction

/-- The instruction with the given operands; missing ones are zero. -/
def ofOperands (op : Opcode) (words : List Word) : Instruction :=
  ⟨op, words.getD 0 0, words.getD 1 0, words.getD 2 0⟩

/-- The operand words that the opcode uses. -/
def operands (i : Instruction) : List Word := [i.a, i.b, i.c].take i.opcode.operands.length

/-- The words that store an instruction. -/
def encode (i : Instruction) : List Word := i.opcode.code :: i.operands

@[simp] theorem length_operands (i : Instruction) :
    i.operands.length = i.opcode.operands.length := by
  have := i.opcode.length_operands_le
  simp only [operands, List.length_take, List.length_cons, List.length_nil]; omega

theorem operands_ofOperands {op : Opcode} {words : List Word}
    (h : words.length = op.operands.length) : (ofOperands op words).operands = words := by
  have hle := op.length_operands_le
  simp only [operands, ofOperands, ← h]
  match words, h ▸ hle with
  | [], _ | [_], _ | [_, _], _ | [_, _, _], _ => rfl

end Instruction

end WordMachine
