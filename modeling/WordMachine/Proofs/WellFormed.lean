/-
  Well-formed machines: what every operation keeps.

  A cell of ordinary memory may name a register, because instructions are stored there.  A
  register and the stack hold values only.  The program counter is the address of a cell of
  ordinary memory, or the first address after them.

  * `Store.WellFormed`, `CallStack.WellFormed`, `Machine.WellFormed` say this of the parts and
    of the whole; that there are `addressCount` cells is part of the type of a store;
  * `Store.keeps_*`, `CallStack.keeps_*`: each operation keeps it, with any arguments, also when
    it faults;
  * `Machine.keeps_perform`, `Machine.keeps_step`, `Machine.WellFormed.run`: so does any
    instruction with any operands, a step, and a run to its end.
-/
import WordMachine.Proofs.Cells
import WordMachine.Proofs.Invariant
import WordMachine.Machine.Run

namespace WordMachine

open WordMachine.Action

/-! ## What is kept -/

/-- The words of a store are where they may be, and so is its program counter. -/
structure Store.WellFormed (s : Store) : Prop where
  /-- A cell of ordinary memory holds a value or names a register. -/
  memory : ∀ i < valueCount, (s.word i).IsAddress
  /-- A register holds a value. -/
  registers : ∀ i, valueCount ≤ i → i < addressCount → (s.word i).IsValue
  /-- The program counter is in ordinary memory or at its end. -/
  pc : s.pc.toNat ≤ valueCount

/-- The stack holds values. -/
def CallStack.WellFormed (stack : CallStack) : Prop := ∀ v ∈ stack.toList, v.IsValue

/-- The store and the stack of a machine are well-formed. -/
structure Machine.WellFormed (m : Machine) : Prop where
  store : m.store.WellFormed
  stack : m.stack.WellFormed

/-! ## The store -/

namespace Store

variable {s : Store} {a v w : Word}

theorem wellFormed_empty : empty.WellFormed where
  memory i _ := by rw [word_empty]; decide
  registers i _ _ := by rw [word_empty]; decide
  pc := by decide

namespace WellFormed

/-- What an address stands for is a value. -/
theorem isValue_dereference (h : s.WellFormed) (hw : w.IsAddress) :
    (s.dereference w).IsValue := by
  rw [dereference_eq]
  split
  · next hr => exact h.registers _ hr.1 hr.2
  · next hr => exact ((Word.isAddress_iff w).mp hw).resolve_right hr

theorem withPc (h : s.WellFormed) {pc : Word} (hpc : pc.toNat ≤ valueCount) :
    ({ s with pc } : Store).WellFormed :=
  ⟨h.memory, h.registers, hpc⟩

theorem write (h : s.WellFormed) (ha : a.IsAddress) (hv : v.IsValue) :
    (s.write a v).WellFormed where
  memory i hi := by
    rw [word_write ha]
    split
    · exact hv.isAddress
    · exact h.memory i hi
  registers i hi hi' := by
    rw [word_write ha]
    split
    · exact hv
    · exact h.registers i hi hi'
  pc := h.pc

/-- A block of addresses may be written to ordinary memory. -/
theorem overwrite (h : s.WellFormed) {position : Nat} {words : List Word}
    (hp : position + words.length ≤ valueCount) (hw : ∀ w ∈ words, w.IsAddress)
    (hp' : position + words.length ≤ addressCount) :
    ({ s with cells := overwrite s.cells position words hp' } : Store).WellFormed where
  memory i hi := by
    rw [word_overwrite _ _ hp' (Nat.lt_trans hi (by decide))]
    split
    · rcases hg : words[i - position]? with _ | w
      · exact h.memory i hi
      · exact hw w (List.mem_of_getElem? hg)
    · exact h.memory i hi
  registers i hi hi' := by
    have hout : words[i - position]? = none := List.getElem?_eq_none (by omega)
    rw [word_overwrite _ _ hp' hi', hout]
    simpa using h.registers i hi hi'
  pc := h.pc

end WellFormed

theorem keeps_set (a v : Word) : Keeps WellFormed (set a v) := by
  intro s h
  by_cases ha : a.IsAddress
  · by_cases hv : v.IsValue
    · rw [set_eq ha hv]; exact h.write ha hv
    · rw [set_of_not_isValue ha hv]; exact h
  · rw [set_of_not_isAddress ha]; exact h

theorem keeps_setRegister (index : Nat) (v : Word) : Keeps WellFormed (setRegister index v) :=
  .bind (.inspect _) fun address => keeps_set address v

theorem keeps_jump (a : Word) : Keeps WellFormed (jump a) := by
  intro s h
  by_cases ha : a.IsValue
  · rw [jump_of_isValue ha]; exact h.withPc (Nat.le_of_lt ha)
  · rw [jump_of_not_isValue ha]; exact h

/-- A word is taken from ordinary memory only, so the program counter ends at most behind it. -/
theorem keeps_takeWord (operand : Operand) : Keeps WellFormed (takeWord operand) := by
  intro s h
  unfold takeWord
  split
  · next hpc =>
    refine h.withPc ?_
    have hpc' : s.pc.toNat < 32768 := hpc
    rw [UInt16.toNat_add]
    simp only [UInt16.reduceToNat, valueCount]
    omega
  · exact h

theorem keeps_takeOperands (operands : List Operand) :
    Keeps WellFormed (takeOperands operands) := by
  induction operands with
  | nil => exact .pure _
  | cons operand operands ih =>
    exact .bind (keeps_takeWord operand) fun _ => .bind ih fun _ => .pure _

theorem keeps_takeInstruction : Keeps WellFormed takeInstruction := by
  refine .bind (.view _) fun pc => .bind (keeps_takeWord _) fun code => ?_
  split
  · exact .fail _
  · exact .bind (keeps_takeOperands _) fun _ => .pure _

theorem keeps_writeBlock (position : Word) (words : List Word) :
    Keeps WellFormed (writeBlock position words) := by
  intro s h
  unfold writeBlock
  split
  · next hp =>
    split
    · exact h
    · next hw => exact h.overwrite hp (find?_eq_none_iff.mp hw) _
  · exact h

theorem keeps_loadImage (image : List UInt8) (base : Word) :
    Keeps WellFormed (loadImage image base) := by
  unfold loadImage
  split
  · exact .fail _
  · exact .ite (.fail _) (.bind (keeps_writeBlock _ _) fun _ => .note _)

end Store

/-! ## The stack -/

namespace CallStack

theorem wellFormed_empty : empty.WellFormed := by simp [WellFormed]

theorem keeps_push (v : Word) : Keeps WellFormed (push v) := by
  intro stack h
  by_cases hv : v.IsValue
  · rw [push_of_isValue hv]
    intro w hw
    rcases List.mem_append.mp hw with hw | hw
    · exact h w hw
    · rwa [List.mem_singleton.mp hw]
  · rw [push_of_not_isValue hv]; exact h

/-- A stack is empty, or it is a stack with a word on top. -/
theorem eq_nil_or_append (stack : CallStack) :
    stack.toList = [] ∨ ∃ below v, stack.toList = below ++ [v] := by
  simpa only [List.concat_eq_append] using List.eq_nil_or_concat stack.toList

/-- The word on top is a value. -/
theorem WellFormed.top {stack : CallStack} (h : stack.WellFormed) {below : List Word} {v : Word}
    (hs : stack.toList = below ++ [v]) : v.IsValue := by
  refine h v ?_
  rw [hs]
  exact List.mem_append_right below (List.mem_singleton_self v)

theorem keeps_pop : Keeps WellFormed pop := by
  intro stack h
  rcases eq_nil_or_append stack with hs | ⟨below, v, hs⟩
  · rw [pop_of_nil hs]; exact h
  · rw [pop_of_append hs]
    exact fun w hw => h w (by rw [hs]; exact List.mem_append_left _ hw)

end CallStack

/-! ## The machine -/

namespace Machine

variable {α : Type}

theorem wellFormed_new (source : Source) (sink : Sink) :
    (new .empty source sink).WellFormed :=
  ⟨Store.wellFormed_empty, CallStack.wellFormed_empty⟩

theorem keeps_onStore {x : Action Store α} (hx : Keeps Store.WellFormed x) :
    Keeps WellFormed (onStore x) :=
  fun m h => ⟨hx m.store h.store, h.stack⟩

theorem keeps_onStack {x : Action CallStack α} (hx : Keeps CallStack.WellFormed x) :
    Keeps WellFormed (onStack x) :=
  fun m h => ⟨h.store, hx m.stack h.stack⟩

/-- The console has no part in it. -/
theorem keeps_onConsole (x : Action Console α) : Keeps WellFormed (onConsole x) :=
  fun _ h => ⟨h.store, h.stack⟩

theorem keeps_stop : Keeps WellFormed stop := .change fun _ h => ⟨h.store, h.stack⟩

theorem keeps_put (op : Opcode) (destination : Word) (sources : List Word) (result : Word) :
    Keeps WellFormed (put op destination sources result) :=
  .bind (keeps_onStore (Store.keeps_set _ _)) fun _ => .note _

theorem keeps_enter (target : Word) : Keeps WellFormed (enter target) :=
  .bind (.view _) fun _ => .bind (keeps_onStack (CallStack.keeps_push _)) fun _ =>
    .bind (keeps_onStore (Store.keeps_jump _)) fun _ => .note _

theorem keeps_leave : Keeps WellFormed leave :=
  .bind (.view _) fun _ => .ite (.bind keeps_stop fun _ => .note _)
    (.bind (keeps_onStack CallStack.keeps_pop) fun _ =>
      .bind (keeps_onStore (Store.keeps_jump _)) fun _ => .note _)

/-- Every write of an instruction is checked where it happens, so the operands do not matter. -/
theorem keeps_perform (i : Instruction) : Keeps WellFormed (perform i) := by
  have hset (a v : Word) (op : Opcode) (operands : List Word) :
      Keeps WellFormed (onStore (Store.set a v) >>= fun _ => done op operands) :=
    .bind (keeps_onStore (Store.keeps_set _ _)) fun _ => .note _
  have hjump (a : Word) (op : Opcode) (operands : List Word) :
      Keeps WellFormed (onStore (Store.jump a) >>= fun _ => done op operands) :=
    .bind (keeps_onStore (Store.keeps_jump _)) fun _ => .note _
  obtain ⟨op, a, b, c⟩ := i
  cases op with
  | halt => exact .bind keeps_stop fun _ => .note _
  | set | wmem => exact hset _ _ _ _
  | push => exact .bind (keeps_onStack (CallStack.keeps_push _)) fun _ => .note _
  | pop => exact .bind (keeps_onStack CallStack.keeps_pop) fun _ => keeps_put _ _ _ _
  | jmp => exact hjump _ _ _
  | jt | jf => exact .ite (hjump _ _ _) (.note _)
  | eq | gt | add | mult | and | or | not => exact keeps_put _ _ _ _
  | mod => exact .ite (.fail _) (keeps_put _ _ _ _)
  | rmem => exact .bind (keeps_onStore (.inspect _)) fun _ => keeps_put _ _ _ _
  | call => exact keeps_enter a
  | ret => exact keeps_leave
  | out => exact .bind (keeps_onConsole _) fun _ => .note _
  | inp => exact .bind (keeps_onConsole _) fun _ => keeps_put _ _ _ _
  | noop => exact .note _

theorem keeps_step : Keeps WellFormed step :=
  .bind (.view _) fun _ => .ite (.pure _)
    (.bind (keeps_onStore Store.keeps_takeInstruction) fun i => keeps_perform i)

theorem keeps_finish (outcome : Except Fault Unit) : Keeps WellFormed (finish outcome) := by
  intro m h
  have hflush := keeps_onConsole Console.flush m h
  unfold finish
  split
  next flushed m' log heq =>
    rw [heq] at hflush
    split <;> exact hflush

theorem WellFormed.run {m : Machine} (h : m.WellFormed) {fuel : Nat} {r : Ran Machine Unit}
    (hr : run fuel m = some r) : r.state.WellFormed :=
  keeps_run keeps_step keeps_finish h hr

end Machine

end WordMachine
