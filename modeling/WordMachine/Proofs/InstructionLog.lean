/-
  The log as a trace of the instructions.

  An instruction reports itself last, and only where it succeeds.  What stands before its message is
  the line of input that it took, if it took one.

  * `Describes i m m' e`: what the message `e` of the instruction `i`, taken in the machine `m`,
    says of the machine `m'` that it leaves;
  * `Told i m r`: behind the line that was taken, the log of `r` is one message of the instruction;
  * `told_perform`, `Stops.log`: so it is for an instruction that nothing stops, and one that is
    stopped reports the line alone;
  * `Traces m events m'`: the messages are those of the instructions that lead from `m` to `m'`, one
    for each step;
  * `traces_steps`, `Ends.traces`: the log of some steps and of a whole run, without the lines, is
    such a trace;
  * `log_is_trace`: all of it, for the steps and runs of a well-formed machine.
-/
import WordMachine.Proofs.CallReturn

namespace WordMachine

open WordMachine.Action

/-! ## Messages -/

/-- The operation reports the word that it writes to its destination.  `set` reports the two words
    alone. -/
def Opcode.yields (op : Opcode) : Bool := op.hasDestination && op != .set

/-- The event is the message of an instruction. -/
def Event.isInstruction : Event → Bool
  | executed _ _ _ | returnedOnEmpty => true
  | _ => false

namespace Console

variable {code : Word}

/-- The line that reading takes, less its end: the next one, if nothing is left of the current
    one. -/
def lineTaken? (console : Console) : Option String :=
  if console.pending = [] then console.nextLine?.toOption.map chomp else none

theorem log_refill (console : Console) : (refill console).log =
    (console.nextLine?.toOption.map chomp).toList.map Event.inputLine := by
  have htake : (flushThenTake console).log = [] :=
    (reports_flush.bind fun _ => reports_takeLine).log_eq_nil console
  rw [refill_eq, bind_apply, outcome_flushThenTake, htake]
  rcases console.nextLine? with fault | line
  · rfl
  · rfl

/-- **Reading reports the line that it takes**, whatever becomes of its first character. -/
theorem log_readChar (console : Console) :
    (readChar console).log = console.lineTaken?.toList.map Event.inputLine := by
  unfold lineTaken?
  split
  · next hp =>
    rw [readChar_of_nil hp, bind_apply, ← log_refill]
    split
    · exact (congrArg _ (reports_takeCode.log_eq_nil _)).trans (List.append_nil _)
    · rfl
  · next hp =>
    rw [readChar_of_ne_nil hp]
    exact reports_takeCode.log_eq_nil console

theorem log_writeChar (console : Console) (h : code.IsValue) :
    (writeChar code console).log = [] := by
  rw [writeChar_of_isValue h]
  exact ((reports_write _).bind fun _ => .change _).log_eq_nil console

end Console

namespace Machine

variable {m m' : Machine} {i : Instruction} {fault : Fault} {event : Event}
  {r : Ran Machine Unit} {op : Opcode} {a b c v : Word}

/-- What the message of an instruction that was taken in `m` says of the machine that it leaves. -/
inductive Describes (i : Instruction) (m m' : Machine) : Event → Prop
  /-- The word written to the destination stands there. -/
  | result {v : Word} : i.opcode.yields = true → m'.store.get i.a = .ok v →
      Describes i m m' (.executed i.opcode i.operands (some v))
  /-- A jump and a call have gone to their operand. -/
  | plain : i.opcode.yields = false → i.opcode ≠ .ret →
      (i.opcode = .jmp ∨ i.opcode = .call → m'.store.pc = i.a) →
      Describes i m m' (.executed i.opcode i.operands none)
  /-- A return has gone to the address it names. -/
  | returned : i.opcode = .ret → m.stack.toList ≠ [] →
      Describes i m m' (.executed .ret [m'.store.pc] none)
  /-- A return with nothing to return to has ended the program. -/
  | ended : i.opcode = .ret → m.stack.toList = [] → m.onEmptyReturn = .halts → m'.halted = true →
      Describes i m m' .returnedOnEmpty

namespace Describes

theorem isInstruction (h : Describes i m m' event) : event.isInstruction = true := by
  cases h <;> rfl

/-- The message begins with the name of the operation. -/
theorem mnemonic (h : Describes i m m' event) :
    ∃ text, event.message = i.opcode.mnemonic ++ text := by
  cases h with
  | @result v =>
    refine ⟨Event.spaced i.operands ++ (": " ++ toString v), ?_⟩
    unfold Event.message
    simp only [String.append_assoc]
    rfl
  | plain => exact ⟨Event.spaced i.operands, rfl⟩
  | returned hop => exact ⟨Event.spaced [m'.store.pc], by rw [hop]; rfl⟩
  | ended hop => exact ⟨": empty stack, halting", by rw [hop]; rfl⟩

/-- The words of the instruction are of no matter to what is said. -/
theorem of_past (h : Describes i (m.past i) m' event) : Describes i m m' event := by
  cases h with
  | result hop hget => exact .result hop hget
  | plain hop hret hpc => exact .plain hop hret hpc
  | returned hop hs => exact .returned hop hs
  | ended hop hs hrule hhalted => exact .ended hop hs hrule hhalted

end Describes

/-! ## One instruction -/

/-- The line that the instruction takes, as it is reported. -/
def linesTaken (i : Instruction) (m : Machine) : List Event :=
  if i.opcode = .inp then m.console.lineTaken?.toList.map Event.inputLine else []

theorem linesTaken_of_ne (h : i.opcode ≠ .inp) (m : Machine) : m.linesTaken i = [] := if_neg h

theorem filter_linesTaken (i : Instruction) (m : Machine) :
    (m.linesTaken i).filter Event.isInstruction = [] := by
  unfold linesTaken
  split
  · rcases m.console.lineTaken? with _ | line
    · rfl
    · rfl
  · rfl

/-- Behind the line that was taken, there is one message of the instruction. -/
def Told (i : Instruction) (m : Machine) (r : Ran Machine Unit) : Prop :=
  ∃ event, Describes i m r.state event ∧ r.log = m.linesTaken i ++ [event]

theorem told_plain (hop : op.yields = false ∧ op ≠ .ret)
    (hpc : op = .jmp ∨ op = .call → r.state.store.pc = a)
    (hlog : r.log = [.executed op (Instruction.mk op a b c).operands none]) :
    Told ⟨op, a, b, c⟩ m r := by
  have hinp : op ≠ .inp := by
    rintro rfl
    exact absurd hop.1 (by decide)
  refine ⟨_, .plain hop.1 hop.2 hpc, ?_⟩
  rw [hlog, linesTaken_of_ne hinp]
  rfl

theorem told_done {x : Action Machine Unit} (hx : x m = ⟨.ok (), m', []⟩)
    (hop : op.yields = false ∧ op ≠ .ret ∧ op ≠ .jmp ∧ op ≠ .call) :
    Told ⟨op, a, b, c⟩ m ((x >>= fun _ => done op (Instruction.mk op a b c).operands) m) := by
  refine told_plain ⟨hop.1, hop.2.1⟩ (fun h => ?_) (by rw [bind_ok hx]; rfl)
  exact (h.elim hop.2.2.1 hop.2.2.2).elim

theorem told_put {sources : List Word} (hop : op.yields = true ∧ op ≠ .inp)
    (hops : (Instruction.mk op a b c).operands = a :: sources) (ha : a.IsAddress)
    (hv : v.IsValue) : Told ⟨op, a, b, c⟩ m (put op a sources v m') := by
  rw [put_of_isValue ha hv, ← hops]
  refine ⟨_, .result hop.1 (Store.get_write ha v), ?_⟩
  rw [linesTaken_of_ne hop.2]
  rfl

/-- **An instruction that nothing stops reports itself**, and before that the line it took. -/
theorem told_perform (hm : m.WellFormed) (hi : i.Proper) (hs : ∀ fault, ¬ Stops m i fault) :
    Told i m (perform i m) := by
  obtain ⟨op, a, b, c⟩ := i
  rw [Instruction.proper_iff] at hi
  cases op with
  | halt => exact told_done (stop_apply m) (by decide)
  | noop => exact told_done (pure_apply () m) (by decide)
  | set => exact told_done (onStore_set hi.1 hi.2) (by decide)
  | wmem => exact told_done (onStore_set hi.1.isAddress hi.2) (by decide)
  | push => exact told_done (onStack_push hi) (by decide)
  | pop =>
    rcases m.stack.eq_nil_or_append with hnil | ⟨below, v, hv⟩
    · exact absurd (.pop hnil) (hs _)
    · rw [perform, bind_ok (onStack_pop_of_append hv)]
      exact told_put (by decide) rfl hi (hm.stack.top hv)
  | eq | gt => exact told_put (by decide) rfl hi.1 (Word.isValue_ofBool _)
  | jmp =>
    refine told_plain (by decide) (fun _ => ?_) ?_
    · rw [perform, bind_ok (onStore_jump hi)]
      rfl
    · rw [perform, bind_ok (onStore_jump hi)]
      rfl
  | jt | jf =>
    rw [perform]
    split
    · exact told_done (onStore_jump hi.2) (by decide)
    · exact told_done (pure_apply () m) (by decide)
  | add => exact told_put (by decide) rfl hi.1 (Word.isValue_add b c)
  | mult => exact told_put (by decide) rfl hi.1 (Word.isValue_mul b c)
  | mod =>
    have hc : c ≠ 0 := by
      rintro rfl
      exact hs _ .mod
    rw [perform, if_neg hc]
    exact told_put (by decide) rfl hi.1 (Word.isValue_mod hi.2.1)
  | and => exact told_put (by decide) rfl hi.1 (Word.isValue_and hi.2.1)
  | or => exact told_put (by decide) rfl hi.1 (Word.isValue_or hi.2.1 hi.2.2)
  | not => exact told_put (by decide) rfl hi.1 (Word.isValue_complement hi.2)
  | rmem =>
    have hb : b.IsAddress := hi.2.isAddress
    have hv : (m.store.word b.toNat).IsValue :=
      Decidable.byContradiction fun hv => hs _ (.rmem hi.1 hb hv)
    rw [perform_rmem hb]
    exact told_put (by decide) rfl hi.1 hv
  | call =>
    have hpc : m.store.pc.IsValue := Decidable.byContradiction fun hpc => hs _ (.call hpc)
    rw [perform, enter_eq hpc hi]
    exact told_plain (by decide) (fun _ => rfl) rfl
  | ret =>
    rw [perform]
    rcases m.stack.eq_nil_or_append with hnil | ⟨below, back, hback⟩
    · rcases hrule : m.onEmptyReturn with _ | _
      · rw [leave_of_halts hnil hrule]
        exact ⟨_, .ended rfl hnil hrule rfl, rfl⟩
      · exact absurd (.ret hnil hrule) (hs _)
    · have hne : m.stack.toList ≠ [] := by
        rw [hback]
        exact List.append_ne_nil_of_right_ne_nil below (List.cons_ne_nil back [])
      rw [leave_eq hback (hm.stack.top hback)]
      exact ⟨_, .returned rfl hne, rfl⟩
  | out =>
    have hlog := Console.log_writeChar m.console hi
    rcases hwrite : Console.writeChar a m.console with ⟨fault | ⟨⟩, console, log⟩
    · exact absurd (.out (congrArg Ran.outcome hwrite)) (hs fault)
    · rw [hwrite] at hlog
      obtain rfl : log = [] := hlog
      have hconsole : onConsole (Console.writeChar a) m = ⟨.ok (), { m with console }, []⟩ := by
        rw [onConsole_apply, hwrite]
      exact told_done hconsole (by decide)
  | inp =>
    have hlog := Console.log_readChar m.console
    rcases hread : Console.readChar m.console with ⟨fault | v, console, log⟩
    · exact absurd (.inp (congrArg Ran.outcome hread)) (hs fault)
    · have hv : v.IsValue := Console.isValue_readChar (congrArg Ran.outcome hread)
      rw [hread] at hlog
      obtain rfl : log = m.linesTaken ⟨.inp, a, b, c⟩ := hlog
      rw [perform_inp_of_ok hread hi hv]
      exact ⟨_, .result rfl (Store.get_write hi v), rfl⟩

/-- An instruction that is stopped reports the line it took, and not itself. -/
theorem Stops.log (h : Stops m i fault) (hi : i.Proper) :
    (Machine.perform i m).log = m.linesTaken i := by
  obtain ⟨console, log, hran, hsilent⟩ := h.ran
  cases h with
  | pop | mod | rmem | call | ret =>
    rw [hran]
    exact (hsilent nofun nofun).2
  | @out a b c fault hw =>
    rw [Instruction.proper_iff] at hi
    have hlog := Console.log_writeChar m.console hi
    rcases hwrite : Console.writeChar a m.console with ⟨outcome, console, log⟩
    rw [hwrite] at hw hlog
    obtain rfl : outcome = .error fault := hw
    rw [perform_out_of_error hwrite]
    exact hlog
  | @inp a b c fault hr =>
    have hlog := Console.log_readChar m.console
    rcases hread : Console.readChar m.console with ⟨outcome, console, log⟩
    rw [hread] at hr hlog
    obtain rfl : outcome = .error fault := hr
    rw [perform_inp_of_error hread]
    exact hlog

/-! ## One step -/

theorem Told.of_past (h : Told i (m.past i) r) : Told i m r := by
  obtain ⟨event, hdescribes, hlog⟩ := h
  exact ⟨event, hdescribes.of_past, hlog⟩

theorem told_step (hm : m.WellFormed) (hr : m.halted = false) (hok : (step m).outcome = .ok ()) :
    ∃ i, m.store.Holds i ∧ Told i m (step m) := by
  rcases Store.holds_or_lacks hm.store.pc with ⟨i, hi⟩ | ⟨fault, p, hl⟩
  · refine ⟨i, hi, ?_⟩
    rw [step_of_holds hr hi] at hok ⊢
    refine (told_perform (hm.past hi) (hi.proper hm.store) fun fault hs => ?_).of_past
    cases hok.symm.trans hs.perform.1
  · rw [step_of_lacks hr hl] at hok
    cases hok

theorem log_step_of_error (hm : m.WellFormed) (h : (step m).outcome = .error fault) :
    (∃ i, m.store.Holds i ∧ (step m).log = m.linesTaken i) ∨
      (∀ i, ¬ m.store.Holds i) ∧ (step m).log = [] := by
  obtain ⟨hr, ⟨p, hl, -⟩ | ⟨i, hi, hs, -⟩⟩ := step_error_cases hm h
  · exact Or.inr ⟨fun i => hl.not_holds, by rw [step_of_lacks hr hl]⟩
  · refine Or.inl ⟨i, hi, ?_⟩
    rw [step_of_holds hr hi]
    exact hs.log (hi.proper hm.store)

/-- The operands of an instruction are what the words behind its code stand for. -/
theorem operand_of_holds {k : Nat} {operand : Operand} (hi : m.store.Holds i)
    (hk : i.opcode.operands[k]? = some operand) : i.operands[k]? =
      some (m.store.resolve operand (m.store.word (m.store.pc.toNat + 1 + k))) := by
  rw [hi.operands_eq, Store.getElem?_operandsAt, hk]
  rfl

/-! ## Many steps -/

/-- The messages of the instructions that lead from one machine to another, one for each step. -/
inductive Traces : Machine → List Event → Machine → Prop
  | nil {m : Machine} : Traces m [] m
  | cons {m m' : Machine} {i : Instruction} {event : Event} {events : List Event} :
      m.halted = false → m.store.Holds i → (step m).outcome = .ok () →
      Describes i m (step m).state event → Traces (step m).state events m' →
      Traces m (event :: events) m'

/-- Nothing else in the log is the message of an instruction. -/
theorem filter_told (hevent : event.isInstruction = true) (i : Instruction) (m : Machine)
    (log : List Event) : (m.linesTaken i ++ [event] ++ log).filter Event.isInstruction =
      event :: log.filter Event.isInstruction := by
  rw [List.append_assoc, List.filter_append, filter_linesTaken, List.nil_append,
    List.singleton_append, List.filter_cons_of_pos hevent]

theorem filter_log_of_error (hm : m.WellFormed) (h : (step m).outcome = .error fault) :
    (step m).log.filter Event.isInstruction = [] := by
  rcases log_step_of_error hm h with ⟨i, -, hlog⟩ | ⟨-, hlog⟩
  · rw [hlog]
    exact filter_linesTaken i m
  · rw [hlog]
    rfl

/-- **Steps are traced by their messages**, up to the first one that faults. -/
theorem traces_steps (hm : m.WellFormed) (n : Nat) :
    ∃ m', Traces m ((steps n m).log.filter Event.isInstruction) m' ∧
      ((steps n m).outcome = .ok () ∧ (steps n m).state = m' ∧
          (m'.halted = true ∨ ((steps n m).log.filter Event.isInstruction).length = n) ∨
        ∃ fault, (steps n m).outcome = .error fault ∧ (step m').outcome = .error fault ∧
          (steps n m).state = (step m').state) := by
  induction n generalizing m with
  | zero => exact ⟨m, .nil, Or.inl ⟨rfl, rfl, Or.inr rfl⟩⟩
  | succ n ih =>
    rcases hr : m.halted with _ | _
    · rcases hs : step m with ⟨fault | ⟨⟩, m₁, log⟩
      · have hfault : (step m).outcome = .error fault := by rw [hs]
        have hlog := filter_log_of_error hm hfault
        rw [hs] at hlog
        rw [steps_of_fault hs, hlog]
        exact ⟨m, .nil, Or.inr ⟨fault, rfl, hfault, by rw [hs]⟩⟩
      · have hok : (step m).outcome = .ok () := by rw [hs]
        obtain ⟨i, hi, event, hdescribes, hlog⟩ := told_step hm hr hok
        have hm₁ : m₁.WellFormed := by
          have hkeep := keeps_step m hm
          rwa [hs] at hkeep
        obtain ⟨m', htraces, hleft⟩ := ih hm₁
        have hnow : Traces m (event :: (steps n m₁).log.filter Event.isInstruction) m' :=
          .cons hr hi hok hdescribes (by rw [hs]; exact htraces)
        have hfilter : (steps (n + 1) m).log.filter Event.isInstruction =
            event :: (steps n m₁).log.filter Event.isInstruction := by
          rw [steps_of_ok hs, ← filter_told hdescribes.isInstruction i m, ← hlog, hs]
          rfl
        rw [hfilter, steps_of_ok hs]
        refine ⟨m', hnow, hleft.imp_left fun ⟨hout, hstate, hcount⟩ => ⟨hout, hstate, ?_⟩⟩
        exact hcount.imp_right (congrArg (· + 1))
    · rw [steps_of_halted hr]
      exact ⟨m, .nil, Or.inl ⟨rfl, rfl, Or.inl hr⟩⟩

theorem filter_endReport (m : Machine) : m.endReport.filter Event.isInstruction = [] := by
  unfold endReport
  rcases (Console.flush m.console).outcome with fault | ⟨⟩
  · rfl
  · rfl

/-- **A run is traced by its messages**, up to where the machine has halted or the next step
    faults. -/
theorem Ends.traces (hm : m.WellFormed) (h : m.Ends r) :
    ∃ m', Traces m (r.log.filter Event.isInstruction) m' ∧
      (m'.halted = true ∧ r.state = m'.flushed ∨
        ∃ fault, r.outcome = .error fault ∧ (step m').outcome = .error fault ∧
          r.state = (step m').state.flushed) := by
  obtain ⟨k, ⟨fault, hfault, rfl⟩ | ⟨hok, hhalted, rfl⟩⟩ := h.cases
  all_goals
    obtain ⟨m', htraces, ⟨hout, hstate, -⟩ | ⟨fault', hout, hstep, hstate⟩⟩ := traces_steps hm k
  · cases hfault.symm.trans hout
  · cases hfault.symm.trans hout
    exact ⟨m', htraces, Or.inr ⟨fault, rfl, hstep, congrArg flushed hstate⟩⟩
  · refine ⟨m', ?_, Or.inl ⟨hstate ▸ hhalted, congrArg flushed hstate⟩⟩
    rw [List.filter_append, filter_endReport, List.append_nil]
    exact htraces
  · cases hok.symm.trans hout

/-- **The log is a trace of the instructions.**  A machine that has halted reports nothing.  A step
    that succeeds reports its instruction last, under the name of its operation, and before that the
    line that an input took, if it took one; a step that faults reports at most that line.  The
    message says what has become of the machine: the word reported stands in the destination, and
    the program counter is at the address that a jump, a call or a return names.  Destinations are
    reported as they are stored, other operands as what they stood for before the step.  So the
    messages of some steps, and of a whole run, are those of the steps that have succeeded, in order
    and one for each.  Every machine that can be reached is well-formed (`Reachable.wellFormed`). -/
theorem log_is_trace (hm : m.WellFormed) :
    (m.halted = true → (step m).log = []) ∧
    (m.halted = false → (step m).outcome = .ok () → ∃ i, m.store.Holds i ∧ Told i m (step m)) ∧
    (∀ fault, (step m).outcome = .error fault →
      (∃ i, m.store.Holds i ∧ (step m).log = m.linesTaken i) ∨
        (∀ i, ¬ m.store.Holds i) ∧ (step m).log = []) ∧
    (∀ i m' event, Describes i m m' event →
      event.isInstruction = true ∧ ∃ text, event.message = i.opcode.mnemonic ++ text) ∧
    (∀ i, m.store.Holds i → ∀ k,
      (i.opcode.operands[k]? = some .destination →
        i.operands[k]? = some (m.store.word (m.store.pc.toNat + 1 + k))) ∧
      (i.opcode.operands[k]? = some .value → i.operands[k]? =
        some (m.store.dereference (m.store.word (m.store.pc.toNat + 1 + k))))) ∧
    (∀ n, ∃ m', Traces m ((steps n m).log.filter Event.isInstruction) m' ∧
      ((steps n m).outcome = .ok () ∧ (steps n m).state = m' ∧
          (m'.halted = true ∨ ((steps n m).log.filter Event.isInstruction).length = n) ∨
        ∃ fault, (steps n m).outcome = .error fault ∧ (step m').outcome = .error fault ∧
          (steps n m).state = (step m').state)) ∧
    ∀ r, m.Ends r → ∃ m', Traces m (r.log.filter Event.isInstruction) m' ∧
      (m'.halted = true ∧ r.state = m'.flushed ∨
        ∃ fault, r.outcome = .error fault ∧ (step m').outcome = .error fault ∧
          r.state = (step m').state.flushed) := by
  refine ⟨fun hr => ?_, told_step hm, fun fault => log_step_of_error hm,
    fun i m' event h => ⟨h.isInstruction, h.mnemonic⟩,
    fun i hi k => ⟨operand_of_holds hi, operand_of_holds hi⟩, traces_steps hm,
    fun r => Ends.traces hm⟩
  rw [step_of_halted hr]

/-- A program that reads a character into the destination of the addition behind it, adds, and pops
    from an empty stack. -/
def redirecting : Store := (Store.writeBlock 0 [20, 3, 9, 0, 2, 5, 3, 0] .empty).state

/-- The line it takes, the character and the sum are reported, and the pop is not. -/
theorem log_is_trace_redirecting :
    let m := new redirecting ⟨[33, 10], none⟩ .unlimited
    m.WellFormed ∧
      (steps 3 m).log = [.inputLine "!", .executed .inp [3] (some 33),
        .executed .add [33, 2, 5] (some 7)] ∧
      ∃ m', Traces m [.executed .inp [3] (some 33), .executed .add [33, 2, 5] (some 7)] m' ∧
        (step m').outcome = .error .stackUnderflow := by
  intro m
  have hm : m.WellFormed :=
    ⟨Store.keeps_writeBlock _ _ _ Store.wellFormed_empty, CallStack.wellFormed_empty⟩
  have hlog : (steps 3 m).log = [.inputLine "!", .executed .inp [3] (some 33),
      .executed .add [33, 2, 5] (some 7)] := by decide +kernel
  have hfault : (steps 3 m).outcome = .error .stackUnderflow := by decide +kernel
  obtain ⟨m', htraces, ⟨hok, -⟩ | ⟨fault, hout, hstep, -⟩⟩ :=
    (log_is_trace hm).2.2.2.2.2.1 3
  · cases hfault.symm.trans hok
  · cases hfault.symm.trans hout
    rw [hlog] at htraces
    exact ⟨hm, hlog, m', htraces, hstep⟩

end Machine

end WordMachine
