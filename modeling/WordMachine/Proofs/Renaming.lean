/-
  Renaming the registers: no register is special.

  A register is named by the words of instructions only.  Arithmetic, the stack and the registers
  produce and keep values, and no instruction copies a name from one cell to another.  So a
  machine whose registers have other names does the same.

  * `Renaming`: other names for the registers.  `address`, `word`, `store` and `machine` put them
    in the place of the old ones: a cell of ordinary memory that names a register names it anew,
    and a register's contents are found under its new name;
  * `dereference_store`: what a word stands for has not changed, so an instruction is taken with
    the same values, and with the new name of its destination (`holds_store`);
  * `store_moves`: a write under the new name is the write under the old one;
  * `step_rename`: a step, and `after_rename`: many steps.
-/
import WordMachine.Proofs.InputLines
import WordMachine.Proofs.Perform
import WordMachine.Proofs.Symmetry
import Mathlib.Logic.Equiv.Basic

namespace WordMachine

open WordMachine.Action WordMachine.Machine

/-- Other names for the registers. -/
abbrev Renaming : Type := Equiv.Perm (Fin registerCount)

namespace Renaming

variable (σ : Renaming) {s : Store} {m : Machine} {i : Instruction} {a b c v w : Word}

/-! ## Names -/

/-- The old names for the new ones. -/
def undo : Renaming := σ.symm

/-- The number of a cell, with the registers renamed. -/
def address (a : Nat) : Nat :=
  if h : valueCount ≤ a ∧ a < addressCount then
    valueCount + σ ⟨a - valueCount, Nat.sub_lt_left_of_lt_add h.1 h.2⟩
  else a

/-- The word with another name for the register that it names, if it does. -/
def word (w : Word) : Word := .ofNat (σ.address w.toNat)

theorem address_of_not {n : Nat} (h : ¬ (valueCount ≤ n ∧ n < addressCount)) :
    σ.address n = n :=
  dif_neg h

@[simp] theorem address_register (i : Fin registerCount) :
    σ.address (valueCount + i) = valueCount + σ i := by
  have hi : valueCount ≤ valueCount + i.val ∧ valueCount + i.val < addressCount :=
    ⟨Nat.le_add_right _ _, Nat.add_lt_add_left i.isLt valueCount⟩
  rw [address, dif_pos hi]
  simp only [Nat.add_sub_cancel_left]

/-- A number is the address of a register, or its name does not change. -/
theorem register_or_fixed (n : Nat) :
    (∃ i : Fin registerCount, n = valueCount + i) ∨
      ¬ (valueCount ≤ n ∧ n < addressCount) := by
  by_cases h : valueCount ≤ n ∧ n < addressCount
  · exact Or.inl ⟨⟨n - valueCount, Nat.sub_lt_left_of_lt_add h.1 h.2⟩,
      (Nat.add_sub_cancel' h.1).symm⟩
  · exact Or.inr h

@[simp] theorem address_undo_address (n : Nat) : σ.undo.address (σ.address n) = n := by
  rcases register_or_fixed n with ⟨i, rfl⟩ | h
  · rw [address_register, address_register, undo, Equiv.symm_apply_apply]
  · rw [σ.address_of_not h, address_of_not _ h]

@[simp] theorem address_address_undo (n : Nat) : σ.address (σ.undo.address n) = n :=
  σ.undo.address_undo_address n

theorem address_eq_iff {n k : Nat} : σ.address n = k ↔ n = σ.undo.address k := by
  constructor
  · rintro rfl
    rw [address_undo_address]
  · rintro rfl
    rw [address_address_undo]

/-- The registers stay together. -/
theorem isRegister_address {n : Nat} :
    (valueCount ≤ σ.address n ∧ σ.address n < addressCount) ↔
      valueCount ≤ n ∧ n < addressCount := by
  rcases register_or_fixed n with ⟨i, rfl⟩ | h
  · have hi := i.isLt
    have hi' := (σ i).isLt
    rw [address_register]
    simp only [valueCount, addressCount, registerCount] at *
    omega
  · rw [σ.address_of_not h]

theorem toNat_word (w : Word) : (σ.word w).toNat = σ.address w.toNat := by
  have hw := w.toNat_lt
  refine UInt16.toNat_ofNat_of_lt' ?_
  by_cases h : valueCount ≤ w.toNat ∧ w.toNat < addressCount
  · exact Nat.lt_trans (σ.isRegister_address.mpr h).2 (by decide)
  · rwa [σ.address_of_not h]

theorem word_of_not_isRegister (h : ¬ w.IsRegister) : σ.word w = w := by
  rw [word, σ.address_of_not h, UInt16.ofNat_toNat]

@[simp] theorem isRegister_word : (σ.word w).IsRegister ↔ w.IsRegister := by
  rw [Word.IsRegister, toNat_word, isRegister_address, Word.IsRegister]

theorem not_isRegister_of_isValue (h : v.IsValue) : ¬ v.IsRegister :=
  fun hr => Nat.lt_irrefl _ (Nat.lt_of_lt_of_le h hr.1)

theorem word_of_isValue (h : v.IsValue) : σ.word v = v :=
  σ.word_of_not_isRegister (not_isRegister_of_isValue h)

@[simp] theorem isValue_word : (σ.word w).IsValue ↔ w.IsValue := by
  by_cases hw : w.IsRegister
  · exact iff_of_false (fun h => not_isRegister_of_isValue h ((isRegister_word σ).mpr hw))
      fun h => not_isRegister_of_isValue h hw
  · rw [σ.word_of_not_isRegister hw]

@[simp] theorem isAddress_word : (σ.word w).IsAddress ↔ w.IsAddress := by
  by_cases hw : w.IsRegister
  · exact iff_of_true ((isRegister_word σ).mpr hw).2 hw.2
  · rw [σ.word_of_not_isRegister hw]

/-- The opcodes are below the registers. -/
@[simp] theorem ofCode?_word (w : Word) : Opcode.ofCode? (σ.word w) = Opcode.ofCode? w := by
  by_cases hw : w.IsRegister
  · have hcode {u : Word} (hu : u.IsRegister) : Opcode.ofCode? u = none :=
      Opcode.ofCode?_eq_none_iff.mpr (Nat.le_trans (by decide) hu.1)
    rw [hcode hw, hcode ((isRegister_word σ).mpr hw)]
  · rw [σ.word_of_not_isRegister hw]

/-! ## Stores -/

/-- The store with its registers renamed: in ordinary memory by their names, and among
    themselves by their places. -/
def store (s : Store) : Store where
  cells := s.cells.mapIdx fun n w =>
    if n < valueCount then σ.word w else s.word (σ.undo.address n)
  pc := s.pc

/-- The machine with its registers renamed. -/
def machine (m : Machine) : Machine := { m with store := σ.store m.store }

theorem machine_eq_recast : σ.machine = Machine.recast σ.store id := rfl

@[simp] theorem pc_store (s : Store) : (σ.store s).pc = s.pc := rfl

theorem word_store {n : Nat} (hn : n < addressCount) : (σ.store s).word n =
    if n < valueCount then σ.word (s.word n) else s.word (σ.undo.address n) := by
  rw [Store.word_eq hn, Store.word_eq hn, store, Vector.getElem_mapIdx]

theorem word_store_memory {n : Nat} (hn : n < valueCount) :
    (σ.store s).word n = σ.word (s.word n) := by
  rw [word_store σ (Nat.lt_trans hn (by decide)), if_pos hn]

/-- What register `n` holds, the register of that name holds. -/
theorem word_store_address {n : Nat} (hn : valueCount ≤ n) (hn' : n < addressCount) :
    (σ.store s).word (σ.address n) = s.word n := by
  have h := σ.isRegister_address.mpr ⟨hn, hn'⟩
  rw [word_store σ h.2, if_neg (Nat.not_lt.mpr h.1), address_undo_address]

/-- A word stands for the same. -/
theorem dereference_store (s : Store) (w : Word) :
    (σ.store s).dereference (σ.word w) = s.dereference w := by
  rw [Store.dereference_eq, Store.dereference_eq]
  by_cases hw : w.IsRegister
  · rw [if_pos ((isRegister_word σ).mpr hw), if_pos hw, toNat_word, σ.word_store_address hw.1 hw.2]
  · rw [if_neg (mt (isRegister_word σ).mp hw), if_neg hw, σ.word_of_not_isRegister hw]

/-- A write under the new name is the write under the old one. -/
theorem write_store (ha : a.IsAddress) (hv : v.IsValue) :
    (σ.store s).write (σ.word a) v = σ.store (s.write a v) := by
  have ha' := (isAddress_word σ).mpr ha
  refine Store.ext_word rfl fun n hn => ?_
  rw [Store.word_write ha', word_store σ hn, word_store σ hn, Store.word_write ha,
    Store.word_write ha, toNat_word]
  by_cases hmem : n < valueCount
  · have hfix : σ.undo.address n = n :=
      address_of_not _ fun h => Nat.not_lt.mpr h.1 hmem
    simp only [if_pos hmem, address_eq_iff, hfix]
    split
    · exact (σ.word_of_isValue hv).symm
    · rfl
  · simp only [if_neg hmem, address_eq_iff]

theorem commutes_set (a v : Word) :
    Commutes σ.store σ.word (Store.set a v) (Store.set (σ.word a) v) := by
  intro s
  by_cases ha : a.IsAddress
  · have ha' := (isAddress_word σ).mpr ha
    by_cases hv : v.IsValue
    · rw [Store.set_eq ha hv, Store.set_eq ha' hv, σ.write_store ha hv]
      rfl
    · rw [Store.set_of_not_isValue ha hv, Store.set_of_not_isValue ha' hv]
      rfl
  · rw [σ.word_of_not_isRegister fun h => ha h.2, Store.set_of_not_isAddress ha,
      Store.set_of_not_isAddress ha]
    rfl

theorem commutes_jump (a : Word) :
    Commutes σ.store σ.word (Store.jump a) (Store.jump a) := by
  intro s
  by_cases ha : a.IsValue
  · rw [Store.jump_of_isValue ha, Store.jump_of_isValue ha]
    rfl
  · rw [Store.jump_of_not_isValue ha, Store.jump_of_not_isValue ha]
    rfl

theorem store_moves : Store.Moves σ.store σ.word := ⟨σ.pc_store, σ.commutes_set, σ.commutes_jump⟩

/-! ## Taking an instruction -/

/-- A fault with the registers renamed in it.  A word that is no opcode is reported as it is
    stored, and so is a word that was to be copied. -/
def fault : Option Opcode → Fault → Fault
  | none, .invalidOpcode opcode pc => .invalidOpcode (σ.word opcode) pc
  | some .rmem, .valueRange value => .valueRange (σ.address value)
  | _, fault => fault

/-- Values are read as before. -/
theorem operandsAt_store_values (operands : List Operand) (hall : ∀ j ∈ operands, j = .value) :
    ∀ p, p + operands.length ≤ valueCount →
      (σ.store s).operandsAt p operands = s.operandsAt p operands := by
  induction operands with
  | nil => exact fun p _ => rfl
  | cons j operands ih =>
    intro p hp
    rw [List.length_cons] at hp
    obtain rfl := hall j List.mem_cons_self
    rw [Store.operandsAt, Store.operandsAt, ih (fun k hk => hall k (List.mem_cons_of_mem _ hk)) _
      (by omega), σ.word_store_memory (by omega), Store.resolve_value, Store.resolve_value,
      dereference_store]

/-- Only the first operand may be a destination. -/
theorem operands_cases (op : Opcode) :
    (∀ j ∈ op.operands, j = .value) ∧ op.hasDestination = false ∨
      ∃ rest, op.operands = .destination :: rest ∧ (∀ j ∈ rest, j = .value) ∧
        op.hasDestination = true := by
  cases op <;> simp [Opcode.operands, Opcode.hasDestination]

/-- The same instruction is stored, its destination under the new name. -/
theorem holds_store (h : s.Holds i) : (σ.store s).Holds (i.moved σ.word) := by
  obtain ⟨hcode, hwhole, heq⟩ := h
  have hpc : s.pc.toNat < valueCount := by omega
  refine ⟨?_, ?_, ?_⟩
  · rw [pc_store, σ.word_store_memory hpc, ofCode?_word, Instruction.opcode_moved, hcode]
  · rwa [pc_store, Instruction.opcode_moved]
  · rw [Instruction.opcode_moved, pc_store]
    rcases operands_cases i.opcode with ⟨hall, hdest⟩ | ⟨rest, hrest, hall, hdest⟩
    · rw [Instruction.moved, hdest, σ.operandsAt_store_values _ hall _ hwhole]
      exact heq
    · rw [hrest, List.length_cons] at hwhole
      rw [hrest] at heq ⊢
      rw [Instruction.moved, if_pos hdest, Store.operandsAt, Store.resolve_destination,
        σ.operandsAt_store_values rest hall _ (by omega), σ.word_store_memory (by omega)]
      rw [heq]
      rfl

/-- Or there is none, for the same reason: it is the stored word that is no opcode. -/
theorem lacks_store {fault : Fault} {p : Nat} (h : s.Lacks fault p) :
    (σ.store s).Lacks (σ.fault none fault) p := by
  cases h with
  | atEnd h => exact .atEnd h
  | invalid h hcode =>
    rw [← σ.ofCode?_word, ← σ.word_store_memory h] at hcode
    have hl := Store.Lacks.invalid (s := σ.store s) h hcode
    rwa [pc_store, σ.word_store_memory h] at hl
  | truncated h hcode hop =>
    rw [← σ.ofCode?_word, ← σ.word_store_memory h] at hcode
    exact .truncated h hcode hop

theorem past_machine (m : Machine) (i : Instruction) :
    (σ.machine m).past (i.moved σ.word) = σ.machine (m.past i) := by
  rw [Machine.past, Store.past, Instruction.opcode_moved]
  rfl

/-! ## Carrying it out -/

/-- What an action leaves, the machine after it with the registers renamed. -/
def ran (op : Option Opcode) (r : Ran Machine Unit) : Ran Machine Unit :=
  ⟨r.outcome.mapError (σ.fault op), σ.machine r.state, r.log.map (Event.moved σ.word)⟩

/-- Only two kinds of fault can report the name of a register. -/
theorem mapError_fault {op : Opcode} (hop : op ≠ .rmem) (outcome : Except Fault Unit) :
    outcome.mapError (σ.fault (some op)) = outcome := by
  have hfault (f : Fault) : σ.fault (some op) f = f := by
    unfold fault
    split
    · contradiction
    · simp_all
    · rfl
  cases outcome with
  | ok => rfl
  | error f => rw [Except.mapError, hfault]

theorem ran_of_commutes {x y : Action Machine Unit} {op : Opcode} (hop : op ≠ .rmem)
    (h : Commutes σ.machine σ.word x y) (m : Machine) :
    y (σ.machine m) = σ.ran (some op) (x m) := by
  rw [h m, ran, σ.mapError_fault hop]

/-- A word that is copied is a value, and the same.  Otherwise it names a register, and the fault
    reports its new name. -/
theorem perform_rename_rmem (ha : a.IsAddress) (hb : b.IsValue) :
    perform ⟨.rmem, σ.word a, b, c⟩ (σ.machine m) =
      σ.ran (some .rmem) (perform ⟨.rmem, a, b, c⟩ m) := by
  have hword : (σ.machine m).store.word b.toNat = σ.word (m.store.word b.toNat) :=
    σ.word_store_memory hb
  rw [perform_rmem hb.isAddress, perform_rmem hb.isAddress, hword]
  by_cases hv : (m.store.word b.toNat).IsValue
  · have hdest : Opcode.hasDestination .rmem = true := rfl
    have hput := commutes_put (g := id) σ.store_moves.set hdest a (m.store.word b.toNat) [b] m
    rw [σ.word_of_isValue hv, machine_eq_recast, hput, ran, outcome_put ha hv]
    rfl
  · have ha' := (isAddress_word σ).mpr ha
    have hv' := mt (isValue_word σ).mp hv
    have hfault : σ.fault (some .rmem) (.valueRange (m.store.word b.toNat).toNat) =
        .valueRange (σ.word (m.store.word b.toNat)).toNat := by
      rw [fault, toNat_word]
    rw [put, put, bind_error (by rw [onStore_apply, Store.set_of_not_isValue ha' hv']),
      bind_error (by rw [onStore_apply, Store.set_of_not_isValue ha hv]), ran, Except.mapError,
      hfault]
    rfl

/-- **An instruction does the same**, with its destination under the new name. -/
theorem perform_rename (hi : i.Proper) (m : Machine) :
    perform (i.moved σ.word) (σ.machine m) = σ.ran (some i.opcode) (perform i m) := by
  obtain ⟨op, a, b, c⟩ := i
  rw [Instruction.proper_iff] at hi
  by_cases hop : op = .rmem
  · obtain rfl := hop
    exact σ.perform_rename_rmem hi.1 hi.2
  · have hwmem : op = .wmem → σ.word a = a := by
      rintro rfl
      exact σ.word_of_isValue hi.1
    exact σ.ran_of_commutes hop
      (commutes_perform σ.store_moves hwmem (fun h => absurd h hop) fun _ => rfl) m

/-! ## Steps -/

/-- **A step does the same.** -/
theorem step_rename (hm : m.WellFormed) : step (σ.machine m) = σ.ran m.upcoming (step m) := by
  rcases hr : m.halted with _ | _
  · rcases Store.holds_or_lacks hm.store.pc with ⟨i, hi⟩ | ⟨fault, p, hl⟩
    · have hop : m.upcoming = some i.opcode := by
        rw [upcoming, Store.takeInstruction_of_holds hi]
        rfl
      rw [step_of_holds (m := σ.machine m) hr (σ.holds_store hi), past_machine,
        σ.perform_rename (hi.proper hm.store), hop, step_of_holds hr hi]
    · have hop : m.upcoming = none := by
        rw [upcoming, hl.takeInstruction]
        rfl
      rw [step_of_lacks (m := σ.machine m) hr (σ.lacks_store hl), hop, step_of_lacks hr hl]
      rfl
  · rw [step_of_halted hr, step_of_halted (m := σ.machine m) hr]
    rfl

theorem after_rename (hm : m.WellFormed) (k : Nat) :
    (m.after k).WellFormed ∧ (σ.machine m).after k = σ.machine (m.after k) := by
  induction k generalizing m with
  | zero => exact ⟨hm, rfl⟩
  | succ k ih =>
    rw [after_succ, after_succ, σ.step_rename hm]
    exact ih (keeps_step m hm)

end Renaming

namespace Machine

/-- **No register is special.**  After any number of steps, faults or not, a well-formed machine
    whose registers were renamed is the machine without the renaming, renamed: it has the same
    output, stack and program counter, and has halted if the other has.  Its next step has the same
    outcome and reports the same, with the new names where a register is named.  Every machine that
    can be reached is well-formed (`Reachable.wellFormed`). -/
theorem registers_interchangeable (σ : Renaming) {m : Machine} (hm : m.WellFormed) (k : Nat) :
    (σ.machine m).after k = σ.machine (m.after k) ∧
      (step ((σ.machine m).after k)).outcome =
        (step (m.after k)).outcome.mapError (σ.fault (m.after k).upcoming) ∧
      (step ((σ.machine m).after k)).log = (step (m.after k)).log.map (Event.moved σ.word) := by
  obtain ⟨hk, hafter⟩ := σ.after_rename hm k
  have hstep := σ.step_rename hk
  rw [hafter]
  exact ⟨rfl, congrArg Ran.outcome hstep, congrArg Ran.log hstep⟩

/-- A program that writes 5 to the first register, and then copies the name of that register from
    its own text. -/
def copying : Store := (Store.writeBlock 0 [1, 32768, 5, 15, 32769, 1] .empty).state

/-- With its first two registers exchanged, it faults with the name of the second one. -/
theorem registers_interchangeable_copying :
    let m := new copying ⟨[], none⟩ .unlimited
    let σ : Renaming := Equiv.swap 0 1
    m.WellFormed ∧ (step (m.after 1)).outcome = .error (.valueRange 32768) ∧
      (step ((σ.machine m).after 1)).outcome = .error (.valueRange 32769) := by
  intro m σ
  have hm : m.WellFormed :=
    ⟨Store.keeps_writeBlock _ _ _ Store.wellFormed_empty, CallStack.wellFormed_empty⟩
  have hfault : (step (m.after 1)).outcome = .error (.valueRange 32768) := by decide +kernel
  have hop : (m.after 1).upcoming = some .rmem := by decide +kernel
  have hname : σ.address 32768 = 32769 := by decide
  refine ⟨hm, hfault, ?_⟩
  rw [(registers_interchangeable σ hm 1).2.1, hfault, hop, Except.mapError, Renaming.fault, hname]

end Machine

end WordMachine
