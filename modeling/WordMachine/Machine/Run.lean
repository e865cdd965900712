/-
  Running a program.

  * `step` takes the instruction under the program counter and carries it out, unless the
    machine has stopped;
  * `run` steps until the machine stops or faults, and flushes the output in either case.
    A program may run for ever, so `run` is told for how many steps at most: without an
    end within them there is no result;
  * `runKeeping` is a run that gathers only some of the events (`runKeeping_eq`);
  * `upcoming` is the opcode of the next instruction: `Reads` where it reads a character, and
    `WantsLine` where it needs a line from the source for that;
  * `run_zero`, `run_of_halted`, `run_of_fault`, `run_of_ok`: a run read step by step.
-/
import WordMachine.Machine.Perform

namespace WordMachine

namespace Machine

/-- One step of the machine.  A machine that has stopped does nothing. -/
def step : Action Machine Unit := do
  if ← Action.view Machine.halted then pure ()
  else
    let instruction ← onStore Store.takeInstruction
    perform instruction

/-- Steps until the machine stops or faults.  The log so far comes first, and what is
    added to it are the events to keep. -/
def stepsUntilHalt (keep : Event → Bool) : Nat → Array Event → Machine → Option (Ran Machine Unit)
  | 0, _, _ => none
  | fuel + 1, log, m =>
    if m.halted then some ⟨.ok (), m, log.toList⟩
    else
      match step m with
      | ⟨.ok (), m', log'⟩ => stepsUntilHalt keep fuel (log ++ log'.filter keep) m'
      | ⟨.error fault, m', log'⟩ =>
        some ⟨.error fault, m', (log ++ log'.filter keep).toList⟩

/-- Ends a run: flushes the output, whatever the outcome.  A fault of the run comes before
    one of the flush, and only an end without either is reported. -/
def finish (outcome : Except Fault Unit) : Action Machine Unit := fun m =>
  match onConsole Console.flush m with
  | ⟨flushed, m', log⟩ =>
    match outcome, flushed with
    | .ok (), .ok () => ⟨.ok (), m', log ++ [.halted m'.store.pc]⟩
    | .error fault, _ => ⟨.error fault, m', log⟩
    | .ok (), .error fault => ⟨.error fault, m', log⟩

/-- Runs the machine until it stops or faults, if it does so in fewer than `fuel` steps.
    Only the events to keep are gathered on the way. -/
def runKeeping (keep : Event → Bool) (fuel : Nat) (m : Machine) : Option (Ran Machine Unit) :=
  (stepsUntilHalt keep fuel #[] m).map fun r =>
    let ended := finish r.outcome r.state
    ⟨ended.outcome, ended.state, r.log ++ ended.log.filter keep⟩

/-- Runs the machine until it stops or faults, if it does so in fewer than `fuel` steps. -/
def run : Nat → Machine → Option (Ran Machine Unit) := runKeeping fun _ => true

/-! ## Input on demand -/

/-- The opcode of the instruction under the program counter, if there is one. -/
def upcoming (m : Machine) : Option Opcode :=
  (Store.takeInstruction m.store).outcome.toOption.map Instruction.opcode

/-- The next step reads a character. -/
def Reads (m : Machine) : Prop := m.halted = false ∧ m.upcoming = some .inp

instance (m : Machine) : Decidable m.Reads := inferInstanceAs (Decidable (_ ∧ _))

/-- The next step asks the source for a line. -/
def WantsLine (m : Machine) : Prop := m.Reads ∧ m.console.pending = [] ∧ m.console.queue = []

instance (m : Machine) : Decidable m.WantsLine := inferInstanceAs (Decidable (_ ∧ _))

/-- The machine with more bytes to read. -/
def feed (bytes : List UInt8) : Machine → Machine
  | ⟨store, stack, ⟨source, sink, pending, queue, transcript⟩, halted, rule⟩ =>
    ⟨store, stack, ⟨{ source with bytes := source.bytes ++ bytes }, sink, pending, queue,
      transcript⟩, halted, rule⟩

/-! ## A run, step by step -/

/-- Some number of steps, or as many of them as there are before a fault. -/
def steps : Nat → Action Machine Unit
  | 0 => pure ()
  | n + 1 => do
    step
    steps n

theorem step_of_halted {m : Machine} (h : m.halted = true) : step m = ⟨.ok (), m, []⟩ := by
  unfold step
  rw [Action.bind_ok (Action.view_apply _ m)]
  simp [h]

theorem step_of_running {m : Machine} (h : m.halted = false) :
    step m = (onStore Store.takeInstruction >>= perform) m := by
  unfold step
  rw [Action.bind_ok (Action.view_apply _ m)]
  simp [h]

/-- What the log so far was does not matter to the steps; it only comes first. -/
theorem stepsUntilHalt_log (keep : Event → Bool) (fuel : Nat) (log : Array Event)
    (m : Machine) :
    stepsUntilHalt keep fuel log m =
      (stepsUntilHalt keep fuel #[] m).map fun r =>
        ⟨r.outcome, r.state, log.toList ++ r.log⟩ := by
  induction fuel generalizing log m with
  | zero => rfl
  | succ fuel ih =>
    unfold stepsUntilHalt
    split
    · simp
    · rcases step m with ⟨fault | ⟨⟨⟩⟩, m', log'⟩
      · simp
      · simp only
        rw [ih (log ++ log'.filter keep), ih (#[] ++ log'.filter keep)]
        simp [Function.comp_def]

/-- Events that are not kept on the way could as well be dropped at the end. -/
theorem stepsUntilHalt_filter (keep : Event → Bool) (fuel : Nat) (m : Machine) :
    stepsUntilHalt keep fuel #[] m =
      (stepsUntilHalt (fun _ => true) fuel #[] m).map fun r =>
        ⟨r.outcome, r.state, r.log.filter keep⟩ := by
  induction fuel generalizing m with
  | zero => rfl
  | succ fuel ih =>
    unfold stepsUntilHalt
    split
    · simp
    · rcases step m with ⟨fault | ⟨⟨⟩⟩, m', log'⟩
      · simp
      · simp only
        rw [stepsUntilHalt_log, stepsUntilHalt_log (fun _ => true), ih]
        simp [Function.comp_def]

theorem runKeeping_eq (keep : Event → Bool) (fuel : Nat) (m : Machine) :
    runKeeping keep fuel m =
      (run fuel m).map fun r => ⟨r.outcome, r.state, r.log.filter keep⟩ := by
  simp only [runKeeping, run, stepsUntilHalt_filter keep]
  simp [Function.comp_def]

theorem run_zero (m : Machine) : run 0 m = none := rfl

/-- A machine that has stopped only flushes. -/
theorem run_of_halted {fuel : Nat} {m : Machine} (h : m.halted = true) :
    run (fuel + 1) m = some (finish (.ok ()) m) := by
  simp [run, runKeeping, stepsUntilHalt, h, List.filter_eq_self.mpr fun _ _ => rfl]

/-- A step that faults ends the run with its fault. -/
theorem run_of_fault {fuel : Nat} {m m' : Machine} {fault : Fault} {log : List Event}
    (h : m.halted = false) (hs : step m = ⟨.error fault, m', log⟩) :
    run (fuel + 1) m =
      some ⟨.error fault, (finish (.error fault) m').state,
        log ++ (finish (.error fault) m').log⟩ := by
  have hf : (finish (.error fault) m').outcome = .error fault := by
    unfold finish; rcases onConsole Console.flush m' with ⟨_ | _, _, _⟩ <;> rfl
  simp [run, runKeeping, stepsUntilHalt, h, hs, hf, List.filter_eq_self.mpr fun _ _ => rfl]

/-- A step that succeeds is followed by the run of what it left. -/
theorem run_of_ok {fuel : Nat} {m m' : Machine} {log : List Event}
    (h : m.halted = false) (hs : step m = ⟨.ok (), m', log⟩) :
    run (fuel + 1) m =
      (run fuel m').map fun r => ⟨r.outcome, r.state, log ++ r.log⟩ := by
  simp only [run, runKeeping, stepsUntilHalt, h, hs, Bool.false_eq_true, if_false]
  rw [stepsUntilHalt_log]
  simp [Function.comp_def, List.filter_eq_self.mpr fun _ _ => rfl]

end Machine

end WordMachine
