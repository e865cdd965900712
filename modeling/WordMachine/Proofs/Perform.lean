/-
  Carrying out a proper instruction: it succeeds, or one of seven things stops it.

  * `Stops m i f`: in the machine `m` the instruction `i` is stopped by the fault `f`;
  * `Stops.ran`, `Stops.perform`: it faults so, and of the machine only the console can have
    changed;
  * `perform_ok_or_stops`: in a well-formed machine nothing else stops a proper instruction.
    Where an instruction has a second thing to do that can fail, the first one, if it was done,
    has made sure that it does not: a word that was popped is a value, and so is a code that
    was read;
  * `step_of_holds`, `step_of_lacks`: a step in terms of what the store holds, and
    `step_error_cases`: how it faults.
-/
import WordMachine.Proofs.Fetch
import WordMachine.Proofs.Upcoming

namespace WordMachine

open WordMachine.Action

namespace Instruction

variable {op : Opcode} {a b c : Word}

/-- The operands of a proper instruction, one by one. -/
theorem proper_iff : (Instruction.mk op a b c).Proper ↔
    match op.operands with
    | [] => True
    | [j] => j.Admits a
    | [j, k] => j.Admits a ∧ k.Admits b
    | j :: k :: l :: _ => j.Admits a ∧ k.Admits b ∧ l.Admits c := by
  cases op <;> simp [Proper, operands, Opcode.operands]

end Instruction

namespace Machine

variable {m : Machine} {i : Instruction} {fault : Fault} {op : Opcode} {a v : Word}

/-! ## What stops an instruction -/

/-- What stops an instruction once it was taken. -/
inductive Stops (m : Machine) : Instruction → Fault → Prop
  | pop {a b c} : m.stack.toList = [] → Stops m ⟨.pop, a, b, c⟩ .stackUnderflow
  | mod {a b} : Stops m ⟨.mod, a, b, 0⟩ .divisionByZero
  | rmem {a b c} : a.IsAddress → b.IsAddress → ¬ (m.store.word b.toNat).IsValue →
      Stops m ⟨.rmem, a, b, c⟩ (.valueRange (m.store.word b.toNat).toNat)
  | call {a b c} : ¬ m.store.pc.IsValue →
      Stops m ⟨.call, a, b, c⟩ (.valueRange m.store.pc.toNat)
  | ret {a b c} : m.stack.toList = [] → m.onEmptyReturn = .faults →
      Stops m ⟨.ret, a, b, c⟩ .stackUnderflow
  | out {a b c fault} : (Console.writeChar a m.console).outcome = .error fault →
      Stops m ⟨.out, a, b, c⟩ fault
  | inp {a b c fault} : (Console.readChar m.console).outcome = .error fault →
      Stops m ⟨.inp, a, b, c⟩ fault

variable {b c : Word} {console : Console} {log : List Event}

/-- The machine is as before, but for the console if the instruction uses it. -/
def SameBut (i : Instruction) (m m' : Machine) : Prop :=
  m' = { m with console := m'.console } ∧
    (i.opcode ≠ .out → i.opcode ≠ .inp → m'.console = m.console)

theorem onStack_pop_of_nil (hs : m.stack.toList = []) :
    onStack CallStack.pop m = ⟨.error .stackUnderflow, m, []⟩ := by
  rw [onStack_apply, CallStack.pop_of_nil hs]

theorem onStack_pop_of_append {below : List Word} (hs : m.stack.toList = below ++ [v]) :
    onStack CallStack.pop m = ⟨.ok v, { m with stack := ⟨below.toArray⟩ }, []⟩ := by
  rw [onStack_apply, CallStack.pop_of_append hs]

/-- The word in a cell is the result of `rmem`. -/
theorem perform_rmem (hb : b.IsAddress) :
    perform ⟨.rmem, a, b, c⟩ m = put .rmem a [b] (m.store.word b.toNat) m := by
  have hget : onStore (Action.inspect (·.get b)) m = ⟨.ok (m.store.word b.toNat), m, []⟩ := by
    rw [onStore_apply, inspect_apply, Store.get_eq hb]
  rw [perform, bind_ok hget]
  rfl

theorem perform_inp_of_error (hread : Console.readChar m.console = ⟨.error fault, console, log⟩) :
    perform ⟨.inp, a, b, c⟩ m = ⟨.error fault, { m with console }, log⟩ := by
  have hconsole : onConsole Console.readChar m = ⟨.error fault, { m with console }, log⟩ := by
    rw [onConsole_apply, hread]
  rw [perform, bind_error hconsole]

theorem perform_out_of_error
    (hwrite : Console.writeChar a m.console = ⟨.error fault, console, log⟩) :
    perform ⟨.out, a, b, c⟩ m = ⟨.error fault, { m with console }, log⟩ := by
  have hconsole : onConsole (Console.writeChar a) m = ⟨.error fault, { m with console }, log⟩ := by
    rw [onConsole_apply, hwrite]
  rw [perform, bind_error hconsole]

/-- The fault is the outcome, and nothing is changed or reported but by the console. -/
theorem Stops.ran (h : Stops m i fault) :
    ∃ console log, perform i m = ⟨.error fault, { m with console }, log⟩ ∧
      (i.opcode ≠ .out → i.opcode ≠ .inp → console = m.console ∧ log = []) := by
  cases h with
  | pop hs =>
    rw [Machine.perform, bind_error (onStack_pop_of_nil hs)]
    exact ⟨_, _, rfl, fun _ _ => ⟨rfl, rfl⟩⟩
  | mod => exact ⟨_, _, rfl, fun _ _ => ⟨rfl, rfl⟩⟩
  | @rmem a b c ha hb hv =>
    have hset : onStore (Store.set a (m.store.word b.toNat)) m =
        ⟨.error (.valueRange (m.store.word b.toNat).toNat), m, []⟩ := by
      rw [onStore_apply, Store.set_of_not_isValue ha hv]
    rw [perform_rmem hb, put, bind_error hset]
    exact ⟨_, _, rfl, fun _ _ => ⟨rfl, rfl⟩⟩
  | @call a b c hpc =>
    have hpush : onStack (CallStack.push m.store.pc) m =
        ⟨.error (.valueRange m.store.pc.toNat), m, []⟩ := by
      rw [onStack_apply, CallStack.push_of_not_isValue hpc]
    rw [Machine.perform, enter, bind_ok (view_apply _ m), bind_error hpush]
    exact ⟨_, _, rfl, fun _ _ => ⟨rfl, rfl⟩⟩
  | ret hs hr =>
    have hleave : leave m = ⟨.error .stackUnderflow, m, []⟩ := by
      rw [leave, bind_ok (view_apply _ m)]
      simp only [hr, reduceCtorEq, decide_false, Bool.and_false, Bool.false_eq_true, if_false]
      rw [bind_error (onStack_pop_of_nil hs)]
      rfl
    rw [Machine.perform, hleave]
    exact ⟨_, _, rfl, fun _ _ => ⟨rfl, rfl⟩⟩
  | @out a b c fault hw =>
    rcases hwrite : Console.writeChar a m.console with ⟨outcome, console, log⟩
    obtain rfl : outcome = .error fault := by rw [hwrite] at hw; exact hw
    exact ⟨console, log, perform_out_of_error hwrite, fun h => absurd rfl h⟩
  | @inp a b c fault hr =>
    rcases hread : Console.readChar m.console with ⟨outcome, console, log⟩
    obtain rfl : outcome = .error fault := by rw [hread] at hr; exact hr
    exact ⟨console, log, perform_inp_of_error hread, fun _ h => absurd rfl h⟩

theorem Stops.perform (h : Stops m i fault) :
    (perform i m).outcome = .error fault ∧ SameBut i m (perform i m).state := by
  obtain ⟨console, log, hran, hsame⟩ := h.ran
  rw [hran]
  exact ⟨rfl, rfl, fun hout hinp => (hsame hout hinp).1⟩

/-! ## What does not -/

theorem outcome_bind {α β : Type} {x : Action Machine α} {f : α → Action Machine β} {r : α}
    (h : (x m).outcome = .ok r) : ((x >>= f) m).outcome = (f r (x m).state).outcome := by
  rw [bind_apply, h]

theorem outcome_bind_done {x : Action Machine Unit} {operands : List Word}
    (h : (x m).outcome = .ok ()) : ((x >>= fun _ => done op operands) m).outcome = .ok () :=
  (outcome_bind h).trans rfl

theorem outcome_ite {c : Prop} [Decidable c] {x y : Action Machine Unit}
    (hx : (x m).outcome = .ok ()) (hy : (y m).outcome = .ok ()) :
    ((if c then x else y) m).outcome = .ok () := by
  split
  · exact hx
  · exact hy

theorem onStore_set (ha : a.IsAddress) (hv : v.IsValue) :
    onStore (Store.set a v) m = ⟨.ok (), { m with store := m.store.write a v }, []⟩ := by
  rw [onStore_apply, Store.set_eq ha hv]

theorem outcome_set (ha : a.IsAddress) (hv : v.IsValue) :
    (onStore (Store.set a v) m).outcome = .ok () := by
  rw [onStore_set ha hv]

theorem onStore_jump (ha : a.IsValue) :
    onStore (Store.jump a) m = ⟨.ok (), { m with store := { m.store with pc := a } }, []⟩ := by
  rw [onStore_apply, Store.jump_of_isValue ha]

theorem outcome_jump (ha : a.IsValue) : (onStore (Store.jump a) m).outcome = .ok () := by
  rw [onStore_jump ha]

theorem onStack_push (hv : v.IsValue) : onStack (CallStack.push v) m =
    ⟨.ok (), { m with stack := ⟨(m.stack.toList ++ [v]).toArray⟩ }, []⟩ := by
  rw [onStack_apply, CallStack.push_of_isValue hv]

theorem outcome_push (hv : v.IsValue) : (onStack (CallStack.push v) m).outcome = .ok () := by
  rw [onStack_push hv]

theorem put_of_isValue (ha : a.IsAddress) (hv : v.IsValue) (op : Opcode) (sources : List Word) :
    put op a sources v m =
      ⟨.ok (), { m with store := m.store.write a v }, [.executed op (a :: sources) (some v)]⟩ := by
  rw [put, bind_ok (onStore_set ha hv)]
  rfl

theorem outcome_put {sources : List Word} (ha : a.IsAddress) (hv : v.IsValue) :
    (put op a sources v m).outcome = .ok () := by
  rw [put_of_isValue ha hv]

theorem perform_inp_of_ok (hread : Console.readChar m.console = ⟨.ok v, console, log⟩)
    (ha : a.IsAddress) (hv : v.IsValue) :
    perform ⟨.inp, a, b, c⟩ m = ⟨.ok (), { m with store := m.store.write a v, console },
      log ++ [.executed .inp [a] (some v)]⟩ := by
  have hconsole : onConsole Console.readChar m = ⟨.ok v, { m with console }, log⟩ := by
    rw [onConsole_apply, hread]
  rw [perform, bind_ok hconsole, put_of_isValue ha hv]

theorem perform_out_of_ok (hwrite : Console.writeChar a m.console = ⟨.ok (), console, log⟩) :
    perform ⟨.out, a, b, c⟩ m =
      ⟨.ok (), { m with console }, log ++ [.executed .out [a] none]⟩ := by
  have hconsole : onConsole (Console.writeChar a) m = ⟨.ok (), { m with console }, log⟩ := by
    rw [onConsole_apply, hwrite]
  rw [perform, bind_ok hconsole]
  rfl

/-- A word from the stack is a value. -/
theorem outcome_pop (hm : m.WellFormed) (hs : m.stack.toList ≠ []) :
    ∃ v, v.IsValue ∧ (onStack CallStack.pop m).outcome = .ok v := by
  obtain ⟨below, v, hv⟩ := m.stack.eq_nil_or_append.resolve_left hs
  exact ⟨v, hm.stack.top hv, congrArg Ran.outcome (onStack_pop_of_append hv)⟩

theorem outcome_enter (hpc : m.store.pc.IsValue) (ha : a.IsValue) :
    (enter a m).outcome = .ok () := by
  rw [enter, bind_ok (view_apply _ m)]
  refine (outcome_bind (outcome_push hpc)).trans ?_
  exact outcome_bind_done (outcome_jump ha)

theorem outcome_leave (hm : m.WellFormed)
    (h : m.stack.toList ≠ [] ∨ m.onEmptyReturn = .halts) : (leave m).outcome = .ok () := by
  rw [leave, bind_ok (view_apply _ m)]
  by_cases hs : m.stack.toList = []
  · have hr := h.resolve_left (not_not_intro hs)
    simp only [CallStack.isEmpty_iff.mpr hs, hr]
    rfl
  · obtain ⟨v, hv, hpop⟩ := outcome_pop hm hs
    have hne : m.stack.isEmpty = false :=
      Bool.eq_false_iff.mpr fun he => hs (CallStack.isEmpty_iff.mp he)
    simp only [hne, Bool.false_and, Bool.false_eq_true, if_false]
    exact (outcome_bind hpop).trans (outcome_bind_done (outcome_jump hv))

/-- **Nothing else stops a proper instruction.** -/
theorem perform_ok_or_stops (hm : m.WellFormed) (hi : i.Proper) :
    (perform i m).outcome = .ok () ∨ ∃ fault, Stops m i fault := by
  obtain ⟨op, a, b, c⟩ := i
  rw [Instruction.proper_iff] at hi
  cases op with
  | halt | noop => exact Or.inl rfl
  | set => exact Or.inl (outcome_bind_done (outcome_set hi.1 hi.2))
  | push => exact Or.inl (outcome_bind_done (outcome_push hi))
  | pop =>
    by_cases hs : m.stack.toList = []
    · exact Or.inr ⟨_, .pop hs⟩
    · -- The word is off the stack now, so writing it must not fail.
      obtain ⟨v, hv, hpop⟩ := outcome_pop hm hs
      exact Or.inl ((outcome_bind hpop).trans (outcome_put hi hv))
  | eq | gt => exact Or.inl (outcome_put hi.1 (Word.isValue_ofBool _))
  | jmp => exact Or.inl (outcome_bind_done (outcome_jump hi))
  | jt | jf => exact Or.inl (outcome_ite (outcome_bind_done (outcome_jump hi.2)) rfl)
  | add => exact Or.inl (outcome_put hi.1 (Word.isValue_add b c))
  | mult => exact Or.inl (outcome_put hi.1 (Word.isValue_mul b c))
  | mod =>
    by_cases hc : c = 0
    · obtain rfl := hc
      exact Or.inr ⟨_, .mod⟩
    · rw [perform, if_neg hc]
      exact Or.inl (outcome_put hi.1 (Word.isValue_mod hi.2.1))
  | and => exact Or.inl (outcome_put hi.1 (Word.isValue_and hi.2.1))
  | or => exact Or.inl (outcome_put hi.1 (Word.isValue_or hi.2.1 hi.2.2))
  | not => exact Or.inl (outcome_put hi.1 (Word.isValue_complement hi.2))
  | rmem =>
    have hb : b.IsAddress := hi.2.isAddress
    by_cases hv : (m.store.word b.toNat).IsValue
    · rw [perform_rmem hb]
      exact Or.inl (outcome_put hi.1 hv)
    · exact Or.inr ⟨_, .rmem hi.1 hb hv⟩
  | wmem => exact Or.inl (outcome_bind_done (outcome_set hi.1.isAddress hi.2))
  | call =>
    by_cases hpc : m.store.pc.IsValue
    · exact Or.inl (outcome_enter hpc hi)
    · exact Or.inr ⟨_, .call hpc⟩
  | ret =>
    rcases hr : m.onEmptyReturn with _ | _
    · exact Or.inl (outcome_leave hm (Or.inr hr))
    · by_cases hs : m.stack.toList = []
      · exact Or.inr ⟨_, .ret hs hr⟩
      · exact Or.inl (outcome_leave hm (Or.inl hs))
  | out =>
    rcases hw : (Console.writeChar a m.console).outcome with fault | ⟨⟨⟩⟩
    · exact Or.inr ⟨_, .out hw⟩
    · exact Or.inl (outcome_bind_done hw)
  | inp =>
    rcases hr : (Console.readChar m.console).outcome with fault | code
    · exact Or.inr ⟨_, .inp hr⟩
    · -- The code is used up, but it is a value and the destination an address.
      refine Or.inl ((outcome_bind (x := onConsole Console.readChar) hr).trans ?_)
      exact outcome_put hi (Console.isValue_readChar hr)

/-! ## Steps -/

/-- The machine after the instruction at its program counter was taken. -/
def past (m : Machine) (i : Instruction) : Machine := { m with store := m.store.past i }

theorem WellFormed.past (hm : m.WellFormed) (h : m.store.Holds i) : (m.past i).WellFormed :=
  ⟨hm.store.past h, hm.stack⟩

theorem step_of_holds (hr : m.halted = false) (h : m.store.Holds i) :
    step m = perform i (m.past i) := by
  have htake : onStore Store.takeInstruction m = ⟨.ok i, m.past i, []⟩ := by
    rw [onStore_apply, Store.takeInstruction_of_holds h, past]
  rw [step_of_running hr, bind_ok htake]
  rfl

theorem step_of_lacks {p : Nat} (hr : m.halted = false) (h : m.store.Lacks fault p) :
    step m = ⟨.error fault, { m with store := m.store.goTo p }, []⟩ := by
  rw [step_of_running hr]
  exact bind_error (by rw [onStore_apply, h.takeInstruction])

/-- **How a step faults**: no instruction can be taken, or one is stopped. -/
theorem step_error_cases (hm : m.WellFormed) (h : (step m).outcome = .error fault) :
    m.halted = false ∧
      ((∃ p, m.store.Lacks fault p ∧ (step m).state = { m with store := m.store.goTo p }) ∨
        ∃ i, m.store.Holds i ∧ Stops (m.past i) i fault ∧
          SameBut i (m.past i) (step m).state) := by
  have hr : m.halted = false := by
    rw [← Bool.not_eq_true]
    intro hr
    rw [step_of_halted hr] at h
    cases h
  refine ⟨hr, ?_⟩
  rcases Store.holds_or_lacks hm.store.pc with ⟨i, hi⟩ | ⟨fault', p, hl⟩
  · rw [step_of_holds hr hi] at h ⊢
    rcases perform_ok_or_stops (hm.past hi) (hi.proper hm.store) with hok | ⟨fault', hs⟩
    · cases hok.symm.trans h
    · obtain ⟨hout, hsame⟩ := hs.perform
      cases hout.symm.trans h
      exact Or.inr ⟨i, hi, hs, hsame⟩
  · rw [step_of_lacks hr hl] at h ⊢
    cases h
    exact Or.inl ⟨p, hl, rfl⟩

end Machine

end WordMachine
