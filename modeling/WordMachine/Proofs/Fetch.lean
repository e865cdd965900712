/-
  Fetching: which instruction a store holds at its program counter, and how taking it ends.

  * `Store.Holds s i`: the instruction `i` is stored at the program counter, all of it in
    ordinary memory.  Its operands are what the stored words stand for (`operandsAt`);
  * `Store.Lacks s f p`: there is none, for the reason `f`;
  * `takeInstruction_of_holds`, `Lacks.takeInstruction`: what taking the instruction comes to, and
    where the program counter ends; `holds_or_lacks`: one of the two is the case;
  * `Holds.proper`: in a well-formed store every destination is an address and every other
    operand is a value.
-/
import WordMachine.Proofs.WellFormed
import Mathlib.Data.List.Forall2

namespace WordMachine

/-! ## Proper instructions -/

/-- What an operand may be: a place to write to is an address, anything else a value. -/
def Operand.Admits : Operand → Word → Prop
  | destination, w => w.IsAddress
  | value, w => w.IsValue

/-- Every operand of the instruction is what it may be. -/
def Instruction.Proper (i : Instruction) : Prop :=
  List.Forall₂ Operand.Admits i.opcode.operands i.operands

namespace Store

variable {s : Store} {i j : Instruction} {op : Opcode} {p : Nat}

/-! ## The program counter as a number -/

/-- The store with its program counter at a position. -/
def goTo (s : Store) (p : Nat) : Store := { s with pc := .ofNat p }

@[simp] theorem word_goTo (s : Store) (p k : Nat) : (s.goTo p).word k = s.word k := rfl

@[simp] theorem goTo_pc (s : Store) : s.goTo s.pc.toNat = s := by
  simp [goTo]

theorem toNat_pc_goTo (h : p ≤ valueCount) : (s.goTo p).pc.toNat = p :=
  UInt16.toNat_ofNat_of_lt' (Nat.lt_of_le_of_lt h (by decide))

theorem takeWord_goTo (operand : Operand) (h : p < valueCount) :
    takeWord operand (s.goTo p) =
      ⟨.ok (s.resolve operand (s.word p)), s.goTo (p + 1), []⟩ := by
  have hpc := toNat_pc_goTo (s := s) (Nat.le_of_lt h)
  have hv : (s.goTo p).pc.IsValue := by rw [Word.IsValue, hpc]; exact h
  have hnext : (s.goTo p).pc + 1 = .ofNat (p + 1) := (UInt16.ofNat_add p 1).symm
  have hword : s.word p = (s.goTo p).word (s.goTo p).pc.toNat := by rw [hpc, word_goTo]
  rw [takeWord, dif_pos hv, hnext, hword, word_eq (Nat.lt_trans hv (by decide))]
  rfl

theorem takeWord_end (operand : Operand) :
    takeWord operand (s.goTo valueCount) =
      ⟨.error (.addressRange valueCount), s.goTo valueCount, []⟩ := by
  have hpc := toNat_pc_goTo (s := s) (Nat.le_refl valueCount)
  have hv : ¬ (s.goTo valueCount).pc.IsValue := by rw [Word.IsValue, hpc]; exact Nat.lt_irrefl _
  rw [takeWord, dif_neg hv, hpc]

/-! ## Operands -/

/-- What the words from a position on stand for, one for each operand. -/
def operandsAt (s : Store) : Nat → List Operand → List Word
  | _, [] => []
  | p, operand :: operands => s.resolve operand (s.word p) :: s.operandsAt (p + 1) operands

theorem length_operandsAt (s : Store) (operands : List Operand) :
    ∀ p, (s.operandsAt p operands).length = operands.length := by
  induction operands with
  | nil => exact fun _ => rfl
  | cons operand operands ih => exact fun p => congrArg (· + 1) (ih (p + 1))

theorem getElem?_operandsAt (s : Store) (operands : List Operand) (k : Nat) :
    ∀ p, (s.operandsAt p operands)[k]? =
      operands[k]?.map fun operand => s.resolve operand (s.word (p + k)) := by
  induction operands generalizing k with
  | nil => exact fun _ => rfl
  | cons operand operands ih =>
    intro p
    cases k with
    | zero => rfl
    | succ k =>
      rw [← Nat.add_assoc, Nat.add_right_comm]
      exact ih k (p + 1)

/-- Operands within ordinary memory are taken one after the other. -/
theorem takeOperands_goTo (operands : List Operand) (h : p + operands.length ≤ valueCount) :
    takeOperands operands (s.goTo p) =
      ⟨.ok (s.operandsAt p operands), s.goTo (p + operands.length), []⟩ := by
  induction operands generalizing p with
  | nil => rfl
  | cons operand operands ih =>
    simp only [List.length_cons] at h
    rw [takeOperands, Action.bind_ok (takeWord_goTo operand (by omega)),
      Action.bind_ok (ih (p := p + 1) (by omega)), List.length_cons, Nat.add_right_comm p]
    rfl

/-- Operands beyond ordinary memory are not taken, but those before them are. -/
theorem takeOperands_truncated (operands : List Operand) (hp : p ≤ valueCount)
    (h : valueCount < p + operands.length) :
    takeOperands operands (s.goTo p) =
      ⟨.error (.addressRange valueCount), s.goTo valueCount, []⟩ := by
  induction operands generalizing p with
  | nil => exact absurd h (by simp only [List.length_nil]; omega)
  | cons operand operands ih =>
    simp only [List.length_cons] at h
    rcases Nat.lt_or_eq_of_le hp with hlt | rfl
    · rw [takeOperands, Action.bind_ok (takeWord_goTo operand hlt),
        Action.bind_error (ih hlt (by omega))]
      rfl
    · rw [takeOperands, Action.bind_error (takeWord_end operand)]

/-! ## Instructions -/

/-- The instruction `i` is stored at the program counter, all of it in ordinary memory. -/
structure Holds (s : Store) (i : Instruction) : Prop where
  code : Opcode.ofCode? (s.word s.pc.toNat) = some i.opcode
  whole : s.pc.toNat + 1 + i.opcode.operands.length ≤ valueCount
  eq : i = .ofOperands i.opcode (s.operandsAt (s.pc.toNat + 1) i.opcode.operands)

/-- The store after the instruction at its program counter was taken. -/
def past (s : Store) (i : Instruction) : Store :=
  s.goTo (s.pc.toNat + 1 + i.opcode.operands.length)

theorem Holds.toNat_pc_past (h : s.Holds i) :
    (s.past i).pc.toNat = s.pc.toNat + 1 + i.opcode.operands.length :=
  toNat_pc_goTo h.whole

theorem Holds.operands_eq (h : s.Holds i) :
    i.operands = s.operandsAt (s.pc.toNat + 1) i.opcode.operands := by
  rw [h.eq]
  exact Instruction.operands_ofOperands (length_operandsAt _ _ _)

theorem Holds.unique (hi : s.Holds i) (hj : s.Holds j) : i = j := by
  have hop : i.opcode = j.opcode := Option.some.inj (hi.code.symm.trans hj.code)
  rw [hi.eq, hj.eq, hop]

theorem holds_of_code (hcode : Opcode.ofCode? (s.word s.pc.toNat) = some op)
    (h : s.pc.toNat + 1 + op.operands.length ≤ valueCount) :
    s.Holds (.ofOperands op (s.operandsAt (s.pc.toNat + 1) op.operands)) :=
  ⟨hcode, h, rfl⟩

theorem takeInstruction_of_lt (h : s.pc.toNat < valueCount) :
    takeInstruction s =
      match Opcode.ofCode? (s.word s.pc.toNat) with
      | none => ⟨.error (.invalidOpcode (s.word s.pc.toNat) s.pc), s.goTo (s.pc.toNat + 1), []⟩
      | some op => (do
          let words ← takeOperands op.operands
          pure (.ofOperands op words) : Action Store Instruction) (s.goTo (s.pc.toNat + 1)) := by
  have hword := takeWord_goTo (s := s) .destination h
  rw [goTo_pc] at hword
  rw [takeInstruction, Action.bind_ok (Action.view_apply _ _), Action.bind_ok hword]
  simp only [resolve_destination, List.nil_append]
  rcases Opcode.ofCode? (s.word s.pc.toNat) with _ | op
  · rfl
  · rfl

/-- Why there is no instruction to take, and where the program counter ends. -/
inductive Lacks (s : Store) : Fault → Nat → Prop
  | atEnd : s.pc.toNat = valueCount → Lacks s (.addressRange valueCount) valueCount
  | invalid : s.pc.toNat < valueCount → Opcode.ofCode? (s.word s.pc.toNat) = none →
      Lacks s (.invalidOpcode (s.word s.pc.toNat) s.pc) (s.pc.toNat + 1)
  | truncated {op : Opcode} : s.pc.toNat < valueCount →
      Opcode.ofCode? (s.word s.pc.toNat) = some op →
      valueCount < s.pc.toNat + 1 + op.operands.length →
      Lacks s (.addressRange valueCount) valueCount

theorem Lacks.takeInstruction {fault : Fault} (h : s.Lacks fault p) :
    takeInstruction s = ⟨.error fault, s.goTo p, []⟩ := by
  cases h with
  | atEnd h =>
    have hs : s = s.goTo valueCount := by rw [← h, goTo_pc]
    rw [Store.takeInstruction, Action.bind_ok (Action.view_apply _ _), hs,
      Action.bind_error (takeWord_end _)]
    rfl
  | invalid h hcode => rw [takeInstruction_of_lt h, hcode]
  | truncated h hcode hop =>
    rw [takeInstruction_of_lt h, hcode]
    exact Action.bind_error (takeOperands_truncated _ h hop)

theorem takeInstruction_of_holds (h : s.Holds i) :
    takeInstruction s = ⟨.ok i, s.past i, []⟩ := by
  have hlt : s.pc.toNat < valueCount := Nat.lt_of_lt_of_le (by omega) h.whole
  rw [takeInstruction_of_lt hlt, h.code]
  simp only
  rw [Action.bind_ok (takeOperands_goTo i.opcode.operands h.whole), ← h.eq]
  rfl

/-- **An instruction is taken whole, or there is none.** -/
theorem holds_or_lacks (hpc : s.pc.toNat ≤ valueCount) :
    (∃ i, s.Holds i) ∨ ∃ fault p, s.Lacks fault p := by
  rcases Nat.lt_or_eq_of_le hpc with hlt | hend
  · rcases hcode : Opcode.ofCode? (s.word s.pc.toNat) with _ | op
    · exact Or.inr ⟨_, _, .invalid hlt hcode⟩
    · rcases Nat.lt_or_ge valueCount (s.pc.toNat + 1 + op.operands.length) with hop | hop
      · exact Or.inr ⟨_, _, .truncated hlt hcode hop⟩
      · exact Or.inl ⟨_, holds_of_code hcode hop⟩
  · exact Or.inr ⟨_, _, .atEnd hend⟩

/-- Never both. -/
theorem Lacks.not_holds {fault : Fault} (h : s.Lacks fault p) : ¬ s.Holds i := by
  intro hi
  have hwhole := hi.whole
  cases h with
  | atEnd h => omega
  | invalid h hcode => cases hi.code.symm.trans hcode
  | truncated h hcode hop =>
    cases hi.code.symm.trans hcode
    omega

/-! ## Well-formed stores hold proper instructions -/

theorem WellFormed.resolve (hs : s.WellFormed) (operand : Operand) {w : Word}
    (hw : w.IsAddress) : operand.Admits (s.resolve operand w) := by
  cases operand with
  | destination => exact hw
  | value => exact hs.isValue_dereference hw

theorem WellFormed.operandsAt (hs : s.WellFormed) (operands : List Operand)
    (h : p + operands.length ≤ valueCount) :
    List.Forall₂ Operand.Admits operands (s.operandsAt p operands) := by
  induction operands generalizing p with
  | nil => exact .nil
  | cons operand operands ih =>
    simp only [List.length_cons] at h
    exact .cons (hs.resolve operand (hs.memory p (by omega))) (ih (by omega))

theorem Holds.proper (hs : s.WellFormed) (h : s.Holds i) : i.Proper := by
  have hops := hs.operandsAt i.opcode.operands h.whole
  rwa [Instruction.Proper, h.operands_eq]

theorem WellFormed.past (hs : s.WellFormed) (h : s.Holds i) : (s.past i).WellFormed :=
  hs.withPc (Nat.le_trans (Nat.le_of_eq h.toNat_pc_past) h.whole)

end Store

end WordMachine
