/-
  The machine refines the reference machine.

  * `does_instruction`: the instruction that is taken is the one that the reference machine takes;
  * `does_perform`: a proper instruction does what the table of the reference machine says;
  * `does_step`, `does_steps`: so does a step, and any number of them;
  * `step_refines`: a step succeeds with a machine exactly if the reference machine steps to its
    projection, and faults exactly if it does, with the same fault.
-/
import WordMachine.Proofs.Perform
import WordMachine.Proofs.Projection

namespace WordMachine

open WordMachine.Action

/-! ## Taking an instruction -/

namespace Store

variable {s : Store} {words : List Word}

/-- A value is resolved once it was taken. -/
theorem takeWord_value : takeWord .value = (do
    let w ← takeWord .destination
    view (·.dereference w)) := by
  funext s
  by_cases hpc : s.pc.IsValue
  · have htake : takeWord .destination s = ⟨.ok _, _, []⟩ := dif_pos hpc
    rw [bind_ok htake, takeWord, dif_pos hpc]
    rfl
  · have htake : takeWord .destination s = ⟨.error _, s, []⟩ := dif_neg hpc
    rw [bind_error htake, takeWord, dif_neg hpc]

theorem length_of_takeOperands (operands : List Operand)
    (h : (takeOperands operands s).outcome = .ok words) : words.length = operands.length := by
  induction operands generalizing s words with
  | nil => cases h; rfl
  | cons operand operands ih =>
    rw [takeOperands, bind_apply] at h
    rcases hw : (takeWord operand s).outcome with fault | w
    · rw [hw] at h; cases h
    · rw [hw] at h
      simp only at h
      rw [bind_apply] at h
      rcases hws : (takeOperands operands (takeWord operand s).state).outcome with fault | words'
      · rw [hws] at h; cases h
      · rw [hws] at h
        cases h
        exact congrArg (· + 1) (ih hws)

end Store

namespace Opcode

theorem kinds_code (op : Opcode) : Reference.kinds op.code.toNat = some op.operands := by
  cases op <;> rfl

theorem kinds_toNat (w : Word) : Reference.kinds w.toNat = (ofCode? w).map operands := by
  rcases hop : ofCode? w with _ | op
  · have hw := ofCode?_eq_none_iff.mp hop
    unfold Reference.kinds
    split <;> first | omega | rfl
  · rw [← code_of_ofCode? hop, kinds_code]
    rfl

end Opcode

namespace Machine

variable {m : Machine} {i : Instruction} {op : Opcode} {a b c v : Word} {sources : List Word}

theorem onStore_bind {α β : Type} (x : Action Store α) (f : α → Action Store β) :
    onStore (x >>= f) = onStore x >>= fun a => onStore (f a) := by
  funext m
  rw [onStore_apply]
  rcases h : x m.store with ⟨fault | a, s, log⟩
  · rw [bind_error h, bind_error (by rw [onStore_apply, h])]
  · rw [bind_ok h, bind_ok (by rw [onStore_apply, h])]
    rfl

theorem does_fetch : Does UInt16.toNat (onStore (Store.takeWord .destination)) Reference.fetch := by
  intro m hm
  rcases Nat.lt_or_eq_of_le hm.store.pc with hlt | hend
  · have htake := Store.takeWord_goTo (s := m.store) .destination hlt
    have hpc : (m.store.goTo (m.store.pc.toNat + 1)).pc.toNat = m.store.pc.toNat + 1 :=
      Store.toNat_pc_goTo hlt
    have hlt' : m.project.pc < 32768 := hlt
    rw [Store.goTo_pc] at htake
    rw [onStore_apply, htake, Reference.fetch, dif_pos hlt']
    simp only [Except.map, project, hpc]
    rfl
  · have htake := Store.takeWord_end (s := m.store) .destination
    have hge : ¬ m.project.pc < 32768 := Nat.not_lt.mpr (Nat.le_of_eq hend.symm)
    rw [← hend, Store.goTo_pc] at htake
    rw [onStore_apply, htake, Reference.fetch, dif_neg hge]
    rfl

theorem does_operands (operands : List Operand) :
    Does (List.map UInt16.toNat) (onStore (Store.takeOperands operands))
      (Reference.operands operands) := by
  induction operands with
  | nil => exact .pure _
  | cons operand operands ih =>
    have hrest (w : Word) : Does (List.map UInt16.toNat)
        (onStore (Store.takeOperands operands >>= fun words => pure (w :: words)))
        (Reference.operands operands >>= fun words => pure (w.toNat :: words)) := by
      rw [onStore_bind]
      exact ih.bind (keeps_onStore (Store.keeps_takeOperands _)) fun words => .pure (w :: words)
    have hkeep (operand : Operand) : Action.Keeps WellFormed (onStore (Store.takeWord operand)) :=
      keeps_onStore (Store.keeps_takeWord operand)
    cases operand with
    | destination =>
      rw [Store.takeOperands, onStore_bind]
      exact does_fetch.bind (hkeep _) hrest
    | value =>
      -- The registers do not see that the program counter has moved on already.
      rw [Store.takeOperands, Store.takeWord_value, bind_assoc, onStore_bind]
      refine does_fetch.bind (hkeep _) fun w => ?_
      rw [onStore_bind]
      exact (does_dereference w).bind (keeps_onStore (.view _)) hrest

/-- **The instruction that is taken is the one that the reference machine takes.** -/
theorem does_instruction :
    Does (fun i => (i.opcode.code.toNat, i.operands.map UInt16.toNat))
      (onStore Store.takeInstruction) Reference.instruction := by
  rw [Store.takeInstruction, onStore_bind]
  refine .bind_view fun m hm => ?_
  rw [onStore_bind]
  refine does_fetch.bind (keeps_onStore (Store.keeps_takeWord _)) fun w => ?_
  rw [Opcode.kinds_toNat]
  rcases hop : Opcode.ofCode? w with _ | op
  · have hpc : UInt16.ofNat m.project.pc = m.store.pc := UInt16.ofNat_toNat
    have hw : UInt16.ofNat w.toNat = w := UInt16.ofNat_toNat
    simp only [Option.map_none, hpc, hw]
    exact .fail _
  · simp only [Option.map_some]
    rw [onStore_bind]
    refine (does_operands op.operands).bind_of (Q := fun words => words.length = op.operands.length)
      (fun s hs words h => ⟨keeps_onStore (Store.keeps_takeOperands _) s hs,
        Store.length_of_takeOperands _ h⟩) fun words hlen => ?_
    have hcode : (op.code.toNat, (Instruction.ofOperands op words).operands.map UInt16.toNat) =
        (w.toNat, words.map UInt16.toNat) := by
      rw [Opcode.code_of_ofCode? hop, Instruction.operands_ofOperands hlen]
    rw [← hcode]
    exact .pure (Instruction.ofOperands op words)

/-! ## Carrying it out -/

theorem toNat_ofBool {p : Bool} {q : Prop} [Decidable q] (h : p = true ↔ q) :
    (Word.ofBool p).toNat = if q then 1 else 0 := by
  rw [Word.ofBool, apply_ite UInt16.toNat]
  exact if_congr h rfl rfl

theorem does_put {n : Nat} (h : v.toNat = n) :
    Does (fun _ => ()) (put op a sources v) (Reference.write a.toNat n) := by
  rw [← h]
  exact (does_set a v).bind_note

theorem does_enter (a : Word) : Does (fun _ => ()) (enter a)
    (do Reference.push (← get).pc; Reference.jump a.toNat) := by
  refine .bind_view fun m hm => ?_
  refine (does_push m.store.pc).bind (keeps_onStack (CallStack.keeps_push _)) fun _ => ?_
  exact (does_jump a).bind_note

/-- A report is not seen. -/
theorem does_done (op : Opcode) (operands : List Word) :
    Does (fun _ => ()) (done op operands) (pure ()) := fun _ _ => rfl

theorem does_stop : Does (fun _ => ()) stop Reference.halt := fun _ _ => rfl

theorem does_leave : Does (fun _ => ()) leave (do
    let s ← get
    if s.stack.isEmpty && s.emptyReturn = .halts then Reference.halt
    else Reference.jump (← Reference.pop)) := by
  refine .bind_view fun m hm => .ite ?_ does_stop.bind_note ?_
  · have hempty : m.project.stack.isEmpty = m.stack.isEmpty := by
      simp [project, CallStack.toList, CallStack.isEmpty]
    rw [hempty]
    rfl
  · refine does_pop.bind (keeps_onStack CallStack.keeps_pop) fun back => ?_
    exact (does_jump back).bind_note

theorem does_perform (hi : i.Proper) : Does (fun _ => ()) (perform i)
    (Reference.effect i.opcode.code.toNat (i.operands.map UInt16.toNat)) := by
  obtain ⟨op, a, b, c⟩ := i
  rw [Instruction.proper_iff] at hi
  have hzero (w : Word) : w = 0 ↔ w.toNat = 0 := UInt16.toNat_inj.symm
  cases op with
  | halt => exact does_stop.bind_note
  | set => exact (does_set a b).bind_note
  | push => exact (does_push a).bind_note
  | pop =>
    exact does_pop.bind (keeps_onStack CallStack.keeps_pop) fun v => does_put rfl
  | eq => exact does_put (toNat_ofBool (by rw [beq_iff_eq, UInt16.toNat_inj]))
  | gt => exact does_put (toNat_ofBool (by rw [decide_eq_true_iff]; exact UInt16.lt_iff_toNat_lt))
  | jmp => exact (does_jump a).bind_note
  | jt => exact .ite (hzero a).not (does_jump b).bind_note (does_done _ _)
  | jf => exact .ite (hzero a) (does_jump b).bind_note (does_done _ _)
  | add => exact does_put (Word.toNat_add b c)
  | mult => exact does_put (Word.toNat_mul b c)
  | mod => exact .ite (hzero c) (.fail _) (does_put (UInt16.toNat_mod b c))
  | and => exact does_put (UInt16.toNat_and b c)
  | or => exact does_put (UInt16.toNat_or b c)
  | not => exact does_put (Word.toNat_complement hi.2)
  | rmem => exact (does_get b).bind (keeps_onStore (.inspect _)) fun v => does_put rfl
  | wmem => exact (does_set a b).bind_note
  | call => exact does_enter a
  | ret => exact does_leave
  | out => exact (does_onConsole (Console.simulates_writeChar hi)).bind_note
  | inp =>
    exact (does_onConsole Console.simulates_readChar).bind (keeps_onConsole _) fun v => does_put rfl
  | noop => exact does_done _ _

/-! ## Steps -/

/-- A machine that has stopped does nothing, and neither does its projection. -/
theorem does_step : Does (fun _ => ()) step Reference.step := by
  refine .bind_view fun m hm => .ite Iff.rfl (.pure ()) ?_
  -- The table holds of proper instructions only, and no others are taken.
  refine does_instruction.bind_of (Q := Instruction.Proper) (fun s hs i h => ?_)
    fun i hi => does_perform hi
  refine ⟨keeps_onStore Store.keeps_takeInstruction s hs, ?_⟩
  rcases Store.holds_or_lacks hs.store.pc with ⟨j, hj⟩ | ⟨fault, p, hl⟩
  · rw [onStore_apply, Store.takeInstruction_of_holds hj] at h
    cases h
    exact hj.proper hs.store
  · rw [onStore_apply, hl.takeInstruction] at h
    cases h

theorem does_steps (n : Nat) : Does (fun _ => ()) (steps n) (Reference.steps n) := by
  induction n with
  | zero => exact .pure ()
  | succ n ih => exact does_step.bind keeps_step fun _ => ih

/-- **The machine refines the reference machine**, whatever it does on an empty return.  It steps
    to `m'` exactly if its projection steps to that of `m'`, and it faults exactly if its
    projection does.  The same holds of any number of steps. -/
theorem step_refines (hm : m.WellFormed) :
    (∀ m', (step m).outcome = .ok () ∧ (step m).state = m' ↔
        Reference.step m.project = .ok ((), m'.project)) ∧
      (∀ fault, (step m).outcome = .error fault ↔ Reference.step m.project = .error fault) ∧
      ∀ n, Reference.steps n m.project =
        (steps n m).outcome.map fun _ => ((), (steps n m).state.project) := by
  have hstep := does_step m hm
  refine ⟨fun m' => ?_, fun fault => ?_, fun n => does_steps n m hm⟩
  · rw [hstep]
    rcases (step m).outcome with fault | ⟨⟨⟩⟩
    · exact ⟨fun h => (by cases h.1), fun h => (by cases h)⟩
    · constructor
      · rintro ⟨-, rfl⟩
        rfl
      · intro h
        exact ⟨rfl, project_injective (Prod.mk.inj (Except.ok.inj h)).2⟩
  · rw [hstep]
    rcases (step m).outcome with fault' | ⟨⟨⟩⟩
    · exact ⟨fun h => by cases h; rfl, fun h => by cases h; rfl⟩
    · exact ⟨fun h => (by cases h), fun h => (by cases h)⟩

/-- Reads a character, takes the code behind its own, keeps the character under that code as an
    address, and writes the character of the code. -/
def succession : List Word := [20, 32768, 9, 32769, 32768, 1, 16, 32769, 32768, 19, 32769, 0]

/-- Its run is that of the reference machine, which is where it is worked out. -/
theorem step_refines_succession :
    let m := new (Store.writeBlock 0 succession .empty).state ⟨[120, 10], none⟩ .unlimited
    m.WellFormed ∧ Reference.step m.project = .ok ((), (step m).state.project) ∧
      Reference.steps 5 m.project = .ok ((), (steps 5 m).state.project) ∧
      (steps 5 m).state.halted = true ∧ (steps 5 m).state.output = #[121] ∧
      ((steps 5 m).state.store.word 121).toNat = 120 := by
  intro m
  have hm : m.WellFormed :=
    ⟨Store.keeps_writeBlock _ _ _ Store.wellFormed_empty, CallStack.wellFormed_empty⟩
  obtain ⟨hstep, -, hsteps⟩ := step_refines hm
  have hfirst : (step m).outcome = .ok () := by decide +kernel
  have hrun : (Reference.steps 5 m.project).map
      (fun r => (r.2.halted, r.2.terminal.output.written, r.2.memory 121)) =
        .ok (true, #[121], 120) := by decide +kernel
  have hproject := hsteps 5
  rcases hout : (steps 5 m).outcome with fault | ⟨⟩
  · rw [hproject, hout] at hrun
    cases hrun
  · rw [hout] at hproject
    rw [hproject] at hrun
    have hview (n : Machine) : n.project.halted = n.halted ∧
        n.project.terminal.output.written = n.output ∧
        n.project.memory 121 = (n.store.word 121).toNat := ⟨rfl, rfl, rfl⟩
    obtain ⟨hhalted, houtput, hcell⟩ := hview (steps 5 m).state
    obtain ⟨hhalted', hrest⟩ := Prod.mk.inj (Except.ok.inj hrun)
    obtain ⟨houtput', hcell'⟩ := Prod.mk.inj hrest
    exact ⟨hm, (hstep _).mp ⟨hfirst, rfl⟩, hproject, hhalted.symm.trans hhalted',
      houtput.symm.trans houtput', hcell.symm.trans hcell'⟩

end Machine

end WordMachine
