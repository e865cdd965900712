/-
  After a fault: an instruction is not half done.

  * `Machine.StopsAt f p`: where the program counter is after the fault `f`, behind what was
    taken;
  * `step_of_end`: at the end of ordinary memory a step faults and changes nothing;
  * `step_error_leaves`: a step that faults leaves the cells, the stack and the rest as they were,
    but for the program counter, and for the console where the instruction uses it.
-/
import WordMachine.Proofs.Faults
import Mathlib.Logic.Function.Iterate

namespace WordMachine

namespace Machine

variable {m : Machine} {i : Instruction} {fault : Fault}

/-- Where the program counter is after a fault. -/
def StopsAt (m : Machine) : Fault → Nat → Prop
  | .addressRange _, p => p = valueCount
  | .invalidOpcode _ _, p => p = m.store.pc.toNat + 1
  | _, p => ∃ i, m.store.Holds i ∧ p = m.store.pc.toNat + 1 + i.opcode.operands.length

theorem stopsAt_of_lacks {p : Nat} (h : m.store.Lacks fault p) : m.StopsAt fault p := by
  cases h with
  | atEnd | invalid | truncated => rfl

theorem stopsAt_of_holds (h : m.store.Holds i) (hf : m.Faults fault) :
    m.StopsAt fault (m.store.pc.toNat + 1 + i.opcode.operands.length) := by
  cases fault with
  | addressRange a => exact absurd hf (not_faults_addressRange h)
  | invalidOpcode w pc => exact absurd hf (not_faults_invalidOpcode h)
  | valueRange | stackUnderflow | divisionByZero | load | inputExhausted | device =>
    exact ⟨i, h, rfl⟩

/-- At the end of ordinary memory a step faults and changes nothing. -/
theorem step_of_end (hr : m.halted = false) (h : m.store.pc.toNat = valueCount) :
    step m = ⟨.error (.addressRange valueCount), m, []⟩ := by
  have hstore : m.store.goTo valueCount = m.store := by rw [← h, Store.goTo_pc]
  rw [step_of_lacks hr (.atEnd h), hstore]

/-- **A fault never leaves a half-done instruction.**  Of the store only the program counter has
    moved, and of the rest only the console can have changed, if the instruction uses it.  At the
    end of ordinary memory every further step faults in the same way. -/
theorem step_error_leaves :
    (∀ (m : Machine) (fault : Fault), m.WellFormed → (step m).outcome = .error fault →
      (step m).state.store.cells = m.store.cells ∧ (step m).state.stack = m.stack ∧
        (step m).state.halted = m.halted ∧ (step m).state.onEmptyReturn = m.onEmptyReturn ∧
        ((∀ i, m.store.Holds i → i.opcode ≠ .out ∧ i.opcode ≠ .inp) →
          (step m).state.console = m.console) ∧
        m.StopsAt fault (step m).state.store.pc.toNat) ∧
      ∀ m : Machine, m.halted = false → m.store.pc.toNat = valueCount →
        ∀ n, step ((fun m => (step m).state)^[n] m) =
          ⟨.error (.addressRange valueCount), m, []⟩ := by
  refine ⟨fun m fault hm h => ?_, fun m hr hend n => ?_⟩
  · obtain ⟨hr, ⟨p, hl, hstate⟩ | ⟨i, hi, hs, hstate, hconsole⟩⟩ := step_error_cases hm h
    · have hp : p ≤ valueCount := by
        cases hl with
        | atEnd | truncated => exact Nat.le_refl _
        | invalid hlt => exact hlt
      rw [hstate]
      refine ⟨rfl, rfl, rfl, rfl, fun _ => rfl, ?_⟩
      rw [Store.toNat_pc_goTo hp]
      exact stopsAt_of_lacks hl
    · rw [hstate]
      refine ⟨rfl, rfl, rfl, rfl, fun hno => hconsole (hno i hi).1 (hno i hi).2, ?_⟩
      exact hi.toNat_pc_past ▸ stopsAt_of_holds hi (hs.faults hm hi)
  · have hfix : (step m).state = m := by rw [step_of_end hr hend]
    rw [Function.iterate_fixed hfix, step_of_end hr hend]

/-- To pop from an empty stack leaves the destination as it was. -/
theorem step_error_leaves_popping :
    popping.WellFormed ∧ (step popping).outcome = .error .stackUnderflow ∧
      (step popping).state.store.cells = popping.store.cells := by
  have h : (step popping).outcome = .error .stackUnderflow :=
    (step_error_iff wellFormed_popping rfl).mpr ⟨rfl, _, holds_popping, Or.inl rfl⟩
  exact ⟨wellFormed_popping, h, (step_error_leaves.1 _ _ wellFormed_popping h).1⟩

end Machine

end WordMachine
