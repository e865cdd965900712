/-
  The faults of a step: when there is one, and which one it is.

  * `Machine.Faults m f`: the conditions under which the machine `m`, which has not stopped,
    faults with `f`;
  * `Stops.faults`, `Faults.stops`: what stops an instruction, said of the machine before it was
    taken;
  * `step_faults_exactly`: these are the conditions under which a step faults, and no others.
-/
import WordMachine.Proofs.Perform

namespace WordMachine

namespace Machine

variable {m : Machine} {i : Instruction} {fault : Fault}

/-! ## When a step faults -/

/-- When a machine that has not stopped faults, and with what. -/
def Faults (m : Machine) : Fault → Prop
  -- The program counter is at the end of ordinary memory, or an operand is beyond it.
  | .addressRange a => a = valueCount ∧ (m.store.pc.toNat = valueCount ∨
      m.store.pc.toNat < valueCount ∧ ∃ op,
        Opcode.ofCode? (m.store.word m.store.pc.toNat) = some op ∧
          valueCount < m.store.pc.toNat + 1 + op.operands.length)
  | .invalidOpcode w pc => m.store.pc.toNat < valueCount ∧ 22 ≤ w.toNat ∧
      w = m.store.word m.store.pc.toNat ∧ pc = m.store.pc
  | .stackUnderflow => m.stack.toList = [] ∧ ∃ i, m.store.Holds i ∧
      (i.opcode = .pop ∨ i.opcode = .ret ∧ m.onEmptyReturn = .faults)
  | .divisionByZero => ∃ i, m.store.Holds i ∧ i.opcode = .mod ∧ i.c = 0
  -- A cell names a register, or there is no cell to return to, or a character is no value.
  | .valueRange v => ∃ i, m.store.Holds i ∧
      (i.opcode = .rmem ∧ i.b.IsValue ∧ (m.store.word i.b.toNat).IsRegister ∧
          v = (m.store.word i.b.toNat).toNat ∨
        i.opcode = .call ∧ m.store.pc.toNat + 2 = valueCount ∧ v = valueCount ∨
        i.opcode = .inp ∧ m.console.FaultsReading (.valueRange v))
  | .inputExhausted => m.console.Exhausted ∧ ∃ i, m.store.Holds i ∧ i.opcode = .inp
  | .device e => ∃ i, m.store.Holds i ∧
      (i.opcode = .inp ∧ m.console.FaultsReading (.device e) ∨
        i.opcode = .out ∧ e = .full ∧
          ¬ m.console.sink.Fits (String.utf8EncodeChar (Char.ofNat i.a.toNat)))
  | .load _ => False

/-- Reading faults as the console does. -/
theorem faults_of_reading (h : m.store.Holds i) (hop : i.opcode = .inp)
    (hr : m.console.FaultsReading fault) : m.Faults fault := by
  cases fault with
  | valueRange v => exact ⟨i, h, Or.inr (Or.inr ⟨hop, hr⟩)⟩
  | inputExhausted => exact ⟨hr, i, h, hop⟩
  | device e => exact ⟨i, h, Or.inl ⟨hop, hr⟩⟩
  | addressRange | invalidOpcode | stackUnderflow | divisionByZero | load => exact hr.elim

theorem Stops.faults (hm : m.WellFormed) (h : m.store.Holds i) (hs : Stops (m.past i) i fault) :
    m.Faults fault := by
  have hp := h.proper hm.store
  cases hs with
  | pop hs => exact ⟨hs, _, h, Or.inl rfl⟩
  | mod => exact ⟨_, h, rfl, rfl⟩
  | rmem ha hb hv =>
    rw [Instruction.proper_iff] at hp
    have hreg := ((Word.isAddress_iff _).mp (hm.store.memory _ hp.2)).resolve_left hv
    exact ⟨_, h, Or.inl ⟨rfl, hp.2, hreg, rfl⟩⟩
  | call hv =>
    have hend : (m.store.past _).pc.toNat = valueCount :=
      Nat.le_antisymm (h.toNat_pc_past ▸ h.whole) (Nat.not_lt.mp hv)
    exact ⟨_, h, Or.inr (Or.inl ⟨rfl, h.toNat_pc_past.symm.trans hend, hend⟩)⟩
  | ret hs hr => exact ⟨hs, _, h, Or.inr ⟨rfl, hr⟩⟩
  | out hw =>
    rw [Instruction.proper_iff] at hp
    obtain ⟨hfits, rfl⟩ := (Console.outcome_writeChar_error_iff hp).mp hw
    exact ⟨_, h, Or.inr ⟨rfl, rfl, hfits⟩⟩
  | inp hr => exact faults_of_reading h rfl (Console.outcome_readChar_error_iff.mp hr)

theorem not_faults_addressRange {a : Nat} (h : m.store.Holds i) :
    ¬ m.Faults (.addressRange a) := by
  have hwhole := h.whole
  rintro ⟨-, hend | ⟨-, op, hop, hlt⟩⟩
  · omega
  · cases h.code.symm.trans hop
    omega

theorem not_faults_invalidOpcode {w pc : Word} (h : m.store.Holds i) :
    ¬ m.Faults (.invalidOpcode w pc) := by
  rintro ⟨-, hw, rfl, -⟩
  cases h.code.symm.trans (Opcode.ofCode?_eq_none_iff.mpr hw)

theorem Faults.stops (hm : m.WellFormed) (h : m.store.Holds i) (hf : m.Faults fault) :
    Stops (m.past i) i fault := by
  have hp := h.proper hm.store
  cases fault with
  | addressRange a => exact absurd hf (not_faults_addressRange h)
  | invalidOpcode w pc => exact absurd hf (not_faults_invalidOpcode h)
  | stackUnderflow =>
    obtain ⟨hs, j, hj, hop⟩ := hf
    obtain rfl := h.unique hj
    obtain ⟨op, a, b, c⟩ := i
    rcases hop with hop | ⟨hop, hr⟩
    · obtain rfl : op = .pop := hop
      exact .pop hs
    · obtain rfl : op = .ret := hop
      exact .ret hs hr
  | divisionByZero =>
    obtain ⟨j, hj, hop, hc⟩ := hf
    obtain rfl := h.unique hj
    obtain ⟨op, a, b, c⟩ := i
    obtain rfl : op = .mod := hop
    obtain rfl : c = 0 := hc
    exact .mod
  | valueRange v =>
    obtain ⟨j, hj, ⟨hop, hb, hreg, rfl⟩ | ⟨hop, hend, rfl⟩ | ⟨hop, hr⟩⟩ := hf
    all_goals
      obtain rfl := h.unique hj
      obtain ⟨op, a, b, c⟩ := i
    · obtain rfl : op = .rmem := hop
      rw [Instruction.proper_iff] at hp
      exact .rmem hp.1 hb.isAddress (Nat.not_lt.mpr hreg.1)
    · obtain rfl : op = .call := hop
      have hpc : (m.past ⟨.call, a, b, c⟩).store.pc.toNat = valueCount :=
        h.toNat_pc_past.trans hend
      rw [← hpc]
      exact .call (by rw [Word.IsValue, hpc]; exact Nat.lt_irrefl _)
    · obtain rfl : op = .inp := hop
      exact .inp (Console.outcome_readChar_error_iff.mpr hr)
  | load => exact hf.elim
  | inputExhausted =>
    obtain ⟨hr, j, hj, hop⟩ := hf
    obtain rfl := h.unique hj
    obtain ⟨op, a, b, c⟩ := i
    obtain rfl : op = .inp := hop
    exact .inp (Console.outcome_readChar_error_iff.mpr hr)
  | device e =>
    obtain ⟨j, hj, ⟨hop, hr⟩ | ⟨hop, rfl, hfits⟩⟩ := hf
    all_goals
      obtain rfl := h.unique hj
      obtain ⟨op, a, b, c⟩ := i
    · obtain rfl : op = .inp := hop
      exact .inp (Console.outcome_readChar_error_iff.mpr hr)
    · obtain rfl : op = .out := hop
      rw [Instruction.proper_iff] at hp
      exact .out ((Console.outcome_writeChar_error_iff hp).mpr ⟨hfits, rfl⟩)

theorem faults_of_lacks {p : Nat} (hl : m.store.Lacks fault p) : m.Faults fault := by
  cases hl with
  | atEnd hend => exact ⟨rfl, Or.inl hend⟩
  | invalid hlt hcode => exact ⟨hlt, Opcode.ofCode?_eq_none_iff.mp hcode, rfl, rfl⟩
  | truncated hlt hcode hop => exact ⟨rfl, Or.inr ⟨hlt, _, hcode, hop⟩⟩

/-- Without an instruction there is no other fault. -/
theorem Faults.eq_of_lacks {fault' : Fault} {p : Nat} (hf : m.Faults fault)
    (hl : m.store.Lacks fault' p) : fault' = fault := by
  cases fault with
  | addressRange a =>
    obtain ⟨rfl, h⟩ := hf
    cases hl with
    | atEnd | truncated => rfl
    | invalid hlt hcode =>
      rcases h with hend | ⟨-, op, hop, -⟩
      · exact absurd hend (Nat.ne_of_lt hlt)
      · cases hcode.symm.trans hop
  | invalidOpcode w pc =>
    obtain ⟨hlt, hw, rfl, rfl⟩ := hf
    cases hl with
    | atEnd hend => exact absurd hend (Nat.ne_of_lt hlt)
    | invalid => rfl
    | truncated _ hcode _ => cases hcode.symm.trans (Opcode.ofCode?_eq_none_iff.mpr hw)
  | stackUnderflow => obtain ⟨-, i, hi, -⟩ := hf; exact absurd hi hl.not_holds
  | divisionByZero => obtain ⟨i, hi, -⟩ := hf; exact absurd hi hl.not_holds
  | valueRange v => obtain ⟨i, hi, -⟩ := hf; exact absurd hi hl.not_holds
  | load => exact hf.elim
  | inputExhausted => obtain ⟨-, i, hi, -⟩ := hf; exact absurd hi hl.not_holds
  | device e => obtain ⟨i, hi, -⟩ := hf; exact absurd hi hl.not_holds

theorem step_error_iff (hm : m.WellFormed) (hr : m.halted = false) :
    (step m).outcome = .error fault ↔ m.Faults fault := by
  constructor
  · intro h
    obtain ⟨-, ⟨p, hl, -⟩ | ⟨i, hi, hs, -⟩⟩ := step_error_cases hm h
    · exact faults_of_lacks hl
    · exact hs.faults hm hi
  · intro hf
    rcases Store.holds_or_lacks hm.store.pc with ⟨i, hi⟩ | ⟨fault', p, hl⟩
    · rw [step_of_holds hr hi]
      exact (hf.stops hm hi).perform.1
    · rw [step_of_lacks hr hl, hf.eq_of_lacks hl]

/-- An instruction that nothing stops succeeds. -/
theorem step_ok_of_holds (hm : m.WellFormed) (hr : m.halted = false) (h : m.store.Holds i)
    (hs : ∀ fault, ¬ Stops (m.past i) i fault) : (step m).outcome = .ok () := by
  rw [step_of_holds hr h]
  exact (perform_ok_or_stops (hm.past h) (h.proper hm.store)).resolve_right
    (not_exists.mpr hs)

/-- **When a step faults, exactly.**  An instruction that was taken has proper operands, so the
    jumps, calls and returns go to values, and what is pushed, written to a cell or written to the
    output is one; an instruction that is in none of the lists of `Faults` succeeds. -/
theorem step_faults_exactly (hm : m.WellFormed) (hr : m.halted = false) :
    (∀ fault, (step m).outcome = .error fault ↔ m.Faults fault) ∧
      ∀ i, m.store.Holds i → i.Proper ∧
        (i.opcode ∉ [.pop, .mod, .rmem, .call, .ret, .out, .inp] → (step m).outcome = .ok ()) ∧
        (i.opcode = .ret → m.stack.toList ≠ [] → (step m).outcome = .ok ()) ∧
        (i.opcode = .out → Console.char? i.a = some (Char.ofNat i.a.toNat)) := by
  refine ⟨fun fault => step_error_iff hm hr, fun i h => ⟨h.proper hm.store, ?_, ?_, ?_⟩⟩
  · intro hop
    refine step_ok_of_holds hm hr h fun fault hs => ?_
    cases hs <;> simp at hop
  · intro hop hne
    refine step_ok_of_holds hm hr h fun fault hs => ?_
    cases hs with
    | ret hs => exact hne hs
    | pop | mod | rmem | call | out | inp => cases hop
  · intro hop
    have hp := h.proper hm.store
    obtain ⟨op, a, b, c⟩ := i
    obtain rfl : op = .out := hop
    rw [Instruction.proper_iff] at hp
    exact Console.char?_of_isValue hp

/-! ## A machine with a fault -/

/-- A new machine that is to pop into cell 0, with nothing on its stack. -/
def popping : Machine :=
  { new .empty ⟨[], none⟩ .unlimited with store := Store.empty.write 0 3 }

theorem wellFormed_popping : popping.WellFormed :=
  ⟨Store.wellFormed_empty.write (by decide) (by decide), CallStack.wellFormed_empty⟩

theorem holds_popping : popping.store.Holds ⟨.pop, 0, 0, 0⟩ := by
  have hword (i : Nat) : popping.store.word i = if 0 = i then 3 else 0 := by
    rw [popping, Store.word_write (by decide), Store.word_empty]
    rfl
  have hcode : Opcode.ofCode? (popping.store.word popping.store.pc.toNat) = some .pop := by
    rw [hword]
    rfl
  have hpc : popping.store.pc.toNat = 0 := rfl
  refine ⟨hcode, by rw [hpc]; decide, ?_⟩
  rw [hpc]
  simp only [Opcode.operands, Store.operandsAt, Store.resolve_destination, hword]
  rfl

theorem step_faults_exactly_popping :
    popping.WellFormed ∧ popping.halted = false ∧
      (step popping).outcome = .error .stackUnderflow :=
  ⟨wellFormed_popping, rfl, ((step_faults_exactly wellFormed_popping rfl).1 _).mpr
    ⟨rfl, _, holds_popping, Or.inl rfl⟩⟩

end Machine

end WordMachine
