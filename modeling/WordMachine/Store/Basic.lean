/-
  The store: ordinary memory, the registers above it, and the program counter.

  Every cell and every register has an address, so that one operation reads or writes
  either.  The program counter belongs to the store because the words of an instruction
  are taken through it.

  * `get`, `set` and `jump` check their arguments first and change nothing when they
    fail (`set_of_not_isAddress`, `set_of_not_isValue`, `jump_of_not_isValue`);
  * `takeWord` reads the word under the program counter and moves on;
  * `writeBlock` writes many words at once, or none.  They may name registers, since
    instructions are stored that way;
  * `getElem_overwrite`: what the cells hold after a block was written over them.
-/
import WordMachine.Action

namespace WordMachine

/-- The cells of ordinary memory followed by the registers, and the address of the next
    word to take. -/
structure Store where
  cells : Vector Word addressCount
  pc : Word
deriving DecidableEq

namespace Store

/-- The store that holds only zeros, at address zero. -/
def empty : Store := ⟨Vector.replicate addressCount 0, 0⟩

instance : Inhabited Store := ⟨empty⟩

/-! ## Single words -/

/-- The word at an address. -/
def get (s : Store) (address : Word) : Except Fault Word :=
  if h : address.IsAddress then
    have : address.toNat < addressCount := h
    .ok s.cells[address.toNat]
  else .error (.addressRange address.toNat)

/-- Writes a value to an address.  The address is checked first. -/
def set (address value : Word) : Action Store Unit := fun s =>
  if h : address.IsAddress then
    if value.IsValue then
      ⟨.ok (), { s with cells := s.cells.set address.toNat value h }, []⟩
    else ⟨.error (.valueRange value.toNat), s, []⟩
  else ⟨.error (.addressRange address.toNat), s, []⟩

/-- The address of the register with that index.  The sum is one of natural numbers: in machine
    words of 64 bits it would not overflow for an index below `2 ^ 64 - 32768`, and of larger ones
    nothing is said here. -/
def registerAddress (index : Nat) : Except Fault Word :=
  if index < registerCount then .ok (.ofNat (valueCount + index))
  else .error (.addressRange (valueCount + index))

/-- The contents of a register. -/
def getRegister (s : Store) (index : Nat) : Except Fault Word :=
  registerAddress index >>= s.get

/-- Writes a value to a register. -/
def setRegister (index : Nat) (value : Word) : Action Store Unit := do
  let address ← Action.inspect fun _ => registerAddress index
  set address value

/-- The contents of the register that a word names; any other word stands for itself. -/
def dereference (s : Store) (w : Word) : Word :=
  if h : w.IsRegister then
    have := h.2
    s.cells[w.toNat]
  else w

/-- What an operand word stands for. -/
def resolve (s : Store) (operand : Operand) (w : Word) : Word :=
  if operand.dereferences then s.dereference w else w

/-! ## The program counter -/

/-- Moves the program counter, which has to stay in ordinary memory. -/
def jump (address : Word) : Action Store Unit := fun s =>
  if address.IsValue then ⟨.ok (), { s with pc := address }, []⟩
  else ⟨.error (.addressRange address.toNat), s, []⟩

/-- Takes the word under the program counter as an operand and moves on to the next. -/
def takeWord (operand : Operand) : Action Store Word := fun s =>
  if h : s.pc.IsValue then
    have : s.pc.toNat < addressCount := Nat.lt_trans h (by decide)
    ⟨.ok (s.resolve operand s.cells[s.pc.toNat]), { s with pc := s.pc + 1 }, []⟩
  else ⟨.error (.addressRange s.pc.toNat), s, []⟩

/-- Takes a word for each operand. -/
def takeOperands : List Operand → Action Store (List Word)
  | [] => pure []
  | operand :: operands => do
    let w ← takeWord operand
    let words ← takeOperands operands
    pure (w :: words)

/-- Takes the instruction under the program counter.  Its first word is the opcode, as it
    is stored: a register is not read here. -/
def takeInstruction : Action Store Instruction := do
  let pc ← Action.view Store.pc
  let code ← takeWord .destination
  match Opcode.ofCode? code with
  | none => Action.fail (.invalidOpcode code pc)
  | some op =>
    let words ← takeOperands op.operands
    pure (.ofOperands op words)

/-! ## Blocks of words -/

/-- The cells with words written over them from a position on. -/
def overwrite (cells : Vector Word addressCount) (position : Nat) :
    (words : List Word) → position + words.length ≤ addressCount → Vector Word addressCount
  | [], _ => cells
  | w :: words, h =>
    overwrite (cells.set position w (by simp only [List.length_cons] at h; omega)) (position + 1)
      words (by simp only [List.length_cons] at h; omega)

/-- Writes a block of words to ordinary memory.  The block has to end below the
    registers, and each word has to be an address; all is checked before anything is
    written. -/
def writeBlock (position : Word) (words : List Word) : Action Store Unit := fun s =>
  if h : position.toNat + words.length ≤ valueCount then
    match words.find? (fun w => ¬ w.IsAddress) with
    | some w => ⟨.error (.valueRange w.toNat), s, []⟩
    | none =>
      ⟨.ok (), { s with
        cells := overwrite s.cells position.toNat words (Nat.le_trans h (by decide)) }, []⟩
  else ⟨.error (.addressRange (position.toNat + words.length - 1)), s, []⟩

/-! ## What the operations do -/

theorem get_of_isAddress {s : Store} {a : Word} (h : a.toNat < addressCount) :
    s.get a = .ok s.cells[a.toNat] :=
  dif_pos h

theorem get_of_not_isAddress {s : Store} {a : Word} (h : ¬ a.IsAddress) :
    s.get a = .error (.addressRange a.toNat) :=
  dif_neg h

theorem set_of_isAddress {s : Store} {a v : Word} (ha : a.IsAddress) (hv : v.IsValue) :
    set a v s = ⟨.ok (), { s with cells := s.cells.set a.toNat v ha }, []⟩ := by
  simp [set, ha, hv]

theorem set_of_not_isAddress {s : Store} {a v : Word} (ha : ¬ a.IsAddress) :
    set a v s = ⟨.error (.addressRange a.toNat), s, []⟩ := by
  simp [set, ha]

theorem set_of_not_isValue {s : Store} {a v : Word} (ha : a.IsAddress) (hv : ¬ v.IsValue) :
    set a v s = ⟨.error (.valueRange v.toNat), s, []⟩ := by
  simp [set, ha, hv]

theorem jump_of_isValue {s : Store} {a : Word} (h : a.IsValue) :
    jump a s = ⟨.ok (), { s with pc := a }, []⟩ :=
  if_pos h

theorem jump_of_not_isValue {s : Store} {a : Word} (h : ¬ a.IsValue) :
    jump a s = ⟨.error (.addressRange a.toNat), s, []⟩ :=
  if_neg h

theorem dereference_of_not_isRegister {s : Store} {w : Word} (h : ¬ w.IsRegister) :
    s.dereference w = w :=
  dif_neg h

/-- Registers and cells are read through one door. -/
theorem get_of_isRegister {s : Store} {w : Word} (h : w.IsRegister) :
    s.get w = .ok (s.dereference w) := by
  rw [get_of_isAddress h.2, dereference, dif_pos h]

/-- After a block was written, its words are found from its position on, and every other
    cell is as before. -/
theorem getElem_overwrite (cells : Vector Word addressCount) (position : Nat)
    (words : List Word) (h : position + words.length ≤ addressCount) (i : Nat)
    (hi : i < addressCount) :
    (overwrite cells position words h)[i] =
      if position ≤ i then words[i - position]?.getD cells[i] else cells[i] := by
  induction words generalizing cells position with
  | nil => simp [overwrite]
  | cons w words ih =>
    rw [overwrite, ih]
    by_cases he : i = position
    · subst he
      simp [show ¬ (i + 1 ≤ i) by omega]
    · rw [Vector.getElem_set_ne _ _ (by omega)]
      by_cases hb : position ≤ i
      · obtain ⟨k, rfl⟩ : ∃ k, i = position + 1 + k := ⟨i - (position + 1), by omega⟩
        simp [show position + 1 + k - position = k + 1 by omega, hb]
      · rw [if_neg (by omega), if_neg hb]

end Store

end WordMachine
