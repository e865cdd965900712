/-
  The rule for returns from nothing: when it matters, and what to.

  Two machines that are the same but for the rule run alike up to the first return from nothing.
  There the one halts and the other faults, and both are left the same but for that.

  * `Machine.ReturnsFromNothing`: the next step is a return with nothing on the stack;
  * `step_withEmptyReturn`: no other step asks for the rule;
  * `ReturnsFromNothing.step_of_halts`, `step_of_faults`: what that step comes to under each rule;
  * `run_withEmptyReturn`: a run under the strict rule is the run under the other one, or it faults
    where that one halts.
-/
import WordMachine.Proofs.Ending
import WordMachine.Proofs.InputLines
import WordMachine.Proofs.Symmetry

namespace WordMachine

open WordMachine.Action

/-- The same, in a machine with another rule for returns from nothing. -/
def Ran.withEmptyReturn (rule : EmptyReturn) (r : Ran Machine Unit) : Ran Machine Unit :=
  ⟨r.outcome, r.state.withEmptyReturn rule, r.log⟩

namespace Machine

variable {m : Machine} {rule : EmptyReturn} {r : Ran Machine Unit} {fuel k : Nat}

/-- The next step is a return, and there is nothing to return to. -/
def ReturnsFromNothing (m : Machine) : Prop :=
  m.halted = false ∧ m.upcoming = some .ret ∧ m.stack.toList = []

instance (m : Machine) : Decidable m.ReturnsFromNothing := inferInstanceAs (Decidable (_ ∧ _))

/-- After so many steps the machine returns from nothing for the first time. -/
def FirstReturnsFromNothing (m : Machine) (k : Nat) : Prop :=
  (∀ j < k, ¬ (m.after j).ReturnsFromNothing) ∧ (m.after k).ReturnsFromNothing

/-! ## A step that does not ask for the rule -/

theorem leave_of_ne_nil (h : m.stack.toList ≠ []) :
    leave m = (onStack CallStack.pop >>= fun back =>
      onStore (Store.jump back) >>= fun _ => done .ret [back]) m := by
  have hne : m.stack.isEmpty = false :=
    Bool.eq_false_iff.mpr fun he => h (CallStack.isEmpty_iff.mp he)
  rw [leave, bind_ok (view_apply _ m)]
  simp only [hne, Bool.false_and, Bool.false_eq_true, if_false]
  rfl

theorem withEmptyReturn_of_commutes {x y : Action Machine Unit}
    (h : Commutes (recast id fun _ => rule) id x y) (m : Machine) :
    y (m.withEmptyReturn rule) = (x m).withEmptyReturn rule := by
  have hm := h m
  rw [Event.moved_id, List.map_id] at hm
  exact hm

theorem perform_withEmptyReturn {i : Instruction} (h : i.opcode = .ret → m.stack.toList ≠ []) :
    perform i (m.withEmptyReturn rule) = (perform i m).withEmptyReturn rule := by
  by_cases hop : i.opcode = .ret
  · obtain ⟨op, a, b, c⟩ := i
    obtain rfl : op = .ret := hop
    have hne := h rfl
    rw [perform, leave_of_ne_nil hne, leave_of_ne_nil (m := m.withEmptyReturn rule) hne]
    refine withEmptyReturn_of_commutes (.bind (commutes_onStack CallStack.reports_pop) ?_) m
    exact fun back => .bind (commutes_onStore (Store.moves_id.jump back)) fun _ => .note _
  · have hperform := commutes_perform (g := fun _ => rule) Store.moves_id (i := i) (fun _ => rfl)
      (fun _ _ => rfl) fun h => absurd h hop
    rw [Instruction.moved_id] at hperform
    exact withEmptyReturn_of_commutes hperform m

theorem step_of_taken {i : Instruction} {store : Store} {log : List Event}
    (hr : m.halted = false) (htake : Store.takeInstruction m.store = ⟨.ok i, store, log⟩) :
    step m = (perform i { m with store }).behind log := by
  have hlift : onStore Store.takeInstruction m = ⟨.ok i, { m with store }, log⟩ := by
    rw [onStore_apply, htake]
  rw [step_of_running hr]
  exact bind_ok hlift

theorem step_of_not_taken {fault : Fault} {store : Store} {log : List Event}
    (hr : m.halted = false) (htake : Store.takeInstruction m.store = ⟨.error fault, store, log⟩) :
    step m = ⟨.error fault, { m with store }, log⟩ := by
  have hlift : onStore Store.takeInstruction m = ⟨.error fault, { m with store }, log⟩ := by
    rw [onStore_apply, htake]
  rw [step_of_running hr]
  exact bind_error hlift

/-- **No other step asks for the rule.** -/
theorem step_withEmptyReturn (h : ¬ m.ReturnsFromNothing) (rule : EmptyReturn) :
    step (m.withEmptyReturn rule) = (step m).withEmptyReturn rule := by
  rcases hr : m.halted with _ | _
  · rcases htake : Store.takeInstruction m.store with ⟨fault | i, store, log⟩
    · rw [step_of_not_taken hr htake, step_of_not_taken (m := m.withEmptyReturn rule) hr htake]
      rfl
    · have hne : i.opcode = .ret → m.stack.toList ≠ [] := by
        intro hop hs
        refine h ⟨hr, ?_, hs⟩
        rw [upcoming, htake, ← hop]
        rfl
      have hperform : perform i ({ m with store }.withEmptyReturn rule) =
          (perform i { m with store }).withEmptyReturn rule := perform_withEmptyReturn hne
      rw [step_of_taken hr htake, step_of_taken (m := m.withEmptyReturn rule) hr htake]
      exact congrArg (Ran.behind log) hperform
  · rw [step_of_halted hr, step_of_halted (m := m.withEmptyReturn rule) hr]
    rfl

/-! ## A step that does -/

/-- The machine that has taken the instruction under its program counter. -/
def taken (m : Machine) : Machine := { m with store := (Store.takeInstruction m.store).state }

theorem leave_of_halts (hs : m.stack.toList = []) (hrule : m.onEmptyReturn = .halts) :
    leave m = ⟨.ok (), { m with halted := true }, [.returnedOnEmpty]⟩ := by
  have hends : (m.stack.isEmpty && decide (m.onEmptyReturn = .halts)) = true := by
    rw [CallStack.isEmpty_iff.mpr hs, hrule]
    rfl
  rw [leave, bind_ok (view_apply _ m)]
  simp only [hends, if_true]
  rfl

theorem leave_of_faults (hs : m.stack.toList = []) (hrule : m.onEmptyReturn = .faults) :
    leave m = ⟨.error .stackUnderflow, m, []⟩ := by
  have hpop : onStack CallStack.pop m = ⟨.error .stackUnderflow, m, []⟩ := by
    rw [onStack_apply, CallStack.pop_of_nil hs]
  have hends : (m.stack.isEmpty && decide (m.onEmptyReturn = .halts)) = false := by
    rw [hrule]
    simp
  rw [leave, bind_ok (view_apply _ m)]
  simp only [hends, Bool.false_eq_true, if_false]
  rw [bind_error hpop]
  rfl

theorem ReturnsFromNothing.step (h : m.ReturnsFromNothing) : step m = leave m.taken := by
  obtain ⟨hr, hop, -⟩ := h
  have hlog : (Store.takeInstruction m.store).log = [] :=
    Store.reports_takeInstruction.log_eq_nil m.store
  rcases htake : Store.takeInstruction m.store with ⟨fault | ⟨op, a, b, c⟩, store, log⟩
  · rw [upcoming, htake] at hop
    cases hop
  · rw [htake] at hlog
    rw [upcoming, htake] at hop
    obtain rfl : op = .ret := Option.some.inj hop
    obtain rfl : log = [] := hlog
    rw [step_of_taken hr htake, Ran.behind_nil, taken, htake]
    rfl

theorem ReturnsFromNothing.step_of_halts (h : m.ReturnsFromNothing)
    (hrule : m.onEmptyReturn = .halts) :
    Machine.step m = ⟨.ok (), { m.taken with halted := true }, [.returnedOnEmpty]⟩ :=
  h.step.trans (leave_of_halts (m := m.taken) h.2.2 hrule)

theorem ReturnsFromNothing.step_of_faults (h : m.ReturnsFromNothing)
    (hrule : m.onEmptyReturn = .faults) :
    Machine.step m = ⟨.error .stackUnderflow, m.taken, []⟩ :=
  h.step.trans (leave_of_faults (m := m.taken) h.2.2 hrule)

/-- No step changes the rule. -/
theorem keeps_onEmptyReturn : Keeps (fun m => m.onEmptyReturn = rule) step := by
  rintro m rfl
  by_cases h : m.ReturnsFromNothing
  · rcases hrule : m.onEmptyReturn with _ | _
    · rw [h.step_of_halts hrule]
      exact hrule
    · rw [h.step_of_faults hrule]
      exact hrule
  · have hstep := step_withEmptyReturn h m.onEmptyReturn
    exact congrArg (fun r => r.state.onEmptyReturn) hstep

/-! ## Many steps -/

theorem after_withEmptyReturn (h : ∀ j < k, ¬ (m.after j).ReturnsFromNothing)
    (rule : EmptyReturn) : (m.withEmptyReturn rule).after k = (m.after k).withEmptyReturn rule := by
  induction k generalizing m with
  | zero => rfl
  | succ k ih =>
    have hnow : ¬ m.ReturnsFromNothing := h 0 (Nat.succ_pos k)
    rw [after_succ, after_succ, step_withEmptyReturn hnow]
    exact ih fun j hj => h (j + 1) (Nat.succ_lt_succ hj)

theorem onEmptyReturn_after (k : Nat) (m : Machine) :
    (m.after k).onEmptyReturn = m.onEmptyReturn :=
  keeps_after keeps_onEmptyReturn rfl k

theorem FirstReturnsFromNothing.succ (hnow : ¬ m.ReturnsFromNothing)
    (h : (step m).state.FirstReturnsFromNothing k) : m.FirstReturnsFromNothing (k + 1) := by
  refine ⟨fun j hj => ?_, h.2⟩
  cases j with
  | zero => exact hnow
  | succ j => exact h.1 j (Nat.lt_of_succ_lt_succ hj)

/-! ## Runs -/

theorem Ends.onEmptyReturn (h : m.Ends r) : r.state.onEmptyReturn = m.onEmptyReturn := by
  obtain ⟨fuel, hrun⟩ := h
  refine keeps_run keeps_onEmptyReturn (fun outcome m' hm' => ?_) rfl hrun
  rcases outcome with fault | ⟨⟩
  · rw [finish_error]
    exact hm'
  · rw [finish_ok]
    exact hm'

/-- A run that does not halt faults. -/
theorem Ends.fault_of_not_halted (h : m.Ends r) (hr : r.state.halted = false) :
    ∃ fault, r.outcome = .error fault := by
  obtain ⟨k, ⟨fault, -, rfl⟩ | ⟨-, hhalted, rfl⟩⟩ := h.cases
  · exact ⟨fault, rfl⟩
  · exact absurd (hhalted.symm.trans hr) nofun

/-- The machine under the strict rule, by which a return from nothing is a fault. -/
def strict (m : Machine) : Machine := m.withEmptyReturn .faults

/-- The machine that a return from nothing has stopped, as the strict rule leaves it. -/
def unstopped (m : Machine) : Machine := { m with halted := false, onEmptyReturn := .faults }

theorem unstopped_of_running (h : m.halted = false) :
    m.unstopped = m.withEmptyReturn .faults := by
  rw [unstopped, ← h]
  rfl

/-- How a run of at most `fuel` steps ends under the strict rule, where under the other one the
    machine halts on a return from nothing. -/
structure UnderflowsIn (m : Machine) (fuel k : Nat) (m' : Machine) : Prop where
  first : m.FirstReturnsFromNothing k
  running : m'.halted = false
  strict : run fuel (m.withEmptyReturn .faults) =
    some ⟨.error .stackUnderflow, m', (steps k m).log⟩
  other : ∀ r, run fuel m = some r → r.state.halted = true ∧ m' = r.state.unstopped

theorem ReturnsFromNothing.underflowsIn (h : m.ReturnsFromNothing)
    (hrule : m.onEmptyReturn = .halts) (fuel : Nat) :
    m.UnderflowsIn (fuel + 1) 0 m.taken.flushed.unstopped where
  first := ⟨nofun, h⟩
  running := rfl
  strict := by
    have hr : (m.withEmptyReturn .faults).halted = false := h.1
    have hstrict : (m.withEmptyReturn .faults).ReturnsFromNothing := h
    rw [run_of_fault hr (hstrict.step_of_faults rfl), finish_error,
      unstopped_of_running (m := m.taken.flushed) h.1]
    rfl
  other := by
    intro r hrun
    rw [run_of_ok h.1 (h.step_of_halts hrule)] at hrun
    obtain ⟨r', hr', rfl⟩ := Option.map_eq_some_iff.mp hrun
    cases fuel with
    | zero => cases hr'
    | succ fuel =>
      rw [run_of_halted rfl, finish_ok] at hr'
      cases hr'
      exact ⟨rfl, rfl⟩

theorem UnderflowsIn.succ {m₁ m' : Machine} {log : List Event} (h : m₁.UnderflowsIn fuel k m')
    (hr : m.halted = false) (hnow : ¬ m.ReturnsFromNothing) (hs : step m = ⟨.ok (), m₁, log⟩) :
    m.UnderflowsIn (fuel + 1) (k + 1) m' where
  first := .succ hnow (by rw [hs]; exact h.first)
  running := h.running
  strict := by
    have hstrict := step_withEmptyReturn hnow .faults
    rw [hs] at hstrict
    rw [run_of_ok (m := m.withEmptyReturn .faults) hr hstrict, h.strict, steps_of_ok hs]
    rfl
  other := by
    intro r hrun
    rw [run_of_ok hr hs] at hrun
    obtain ⟨r', hr', rfl⟩ := Option.map_eq_some_iff.mp hrun
    exact h.other r' hr'

/-- **A run under the strict rule** is the run under the other one, or it faults with the first
    return from nothing, where that one halts. -/
theorem run_withEmptyReturn (hrule : m.onEmptyReturn = .halts) (fuel : Nat) :
    run fuel (m.withEmptyReturn .faults) = (run fuel m).map (Ran.withEmptyReturn .faults) ∨
      ∃ k m', m.UnderflowsIn fuel k m' := by
  induction fuel generalizing m with
  | zero => exact Or.inl rfl
  | succ fuel ih =>
    rcases hr : m.halted with _ | _
    · by_cases hnow : m.ReturnsFromNothing
      · exact Or.inr ⟨0, _, hnow.underflowsIn hrule fuel⟩
      · have hr' : (m.withEmptyReturn .faults).halted = false := hr
        have hstrict := step_withEmptyReturn hnow .faults
        rcases hs : step m with ⟨fault | ⟨⟩, m₁, log⟩
        · rw [hs] at hstrict
          refine Or.inl ?_
          rw [run_of_fault hr hs, run_of_fault hr' hstrict, finish_error, finish_error]
          rfl
        · rw [hs] at hstrict
          have hrule₁ : m₁.onEmptyReturn = .halts := by
            have hkeep := keeps_onEmptyReturn m hrule
            rwa [hs] at hkeep
          rcases ih hrule₁ with hsame | ⟨k, m', hunder⟩
          · refine Or.inl ?_
            rw [run_of_ok hr hs, run_of_ok hr' hstrict, hsame, Option.map_map, Option.map_map]
            rfl
          · exact Or.inr ⟨k + 1, m', hunder.succ hr hnow hs⟩
    · refine Or.inl ?_
      rw [run_of_halted hr, run_of_halted (m := m.withEmptyReturn .faults) hr, finish_ok, finish_ok]
      rfl

/-- A strict run that halts is the other run. -/
theorem ends_of_strict (hrule : m.onEmptyReturn = .halts) (h : m.strict.Ends r)
    (hhalted : r.state.halted = true) : m.Ends (r.withEmptyReturn .halts) := by
  obtain ⟨fuel, hrun⟩ := h
  rcases run_withEmptyReturn hrule fuel with hsame | ⟨k, m', hunder⟩
  · obtain ⟨r', hr', rfl⟩ := Option.map_eq_some_iff.mp (hsame.symm.trans hrun)
    have hrule' : r'.state.onEmptyReturn = .halts := (Ends.onEmptyReturn ⟨fuel, hr'⟩).trans hrule
    have hback : (r'.withEmptyReturn .faults).withEmptyReturn .halts = r' := by
      rw [← hrule']
      rfl
    rw [hback]
    exact ⟨fuel, hr'⟩
  · cases hunder.strict.symm.trans hrun
    exact absurd (hhalted.symm.trans hunder.running) nofun

/-- Where a run ends, the strict run ends in the same way, or it faults where that one halts. -/
theorem strict_ends (hrule : m.onEmptyReturn = .halts) (h : m.Ends r) :
    m.strict.Ends (r.withEmptyReturn .faults) ∨
      r.state.halted = true ∧ ∃ k, m.FirstReturnsFromNothing k ∧
        m.strict.Ends ⟨.error .stackUnderflow, r.state.unstopped, (steps k m).log⟩ := by
  obtain ⟨fuel, hrun⟩ := h
  rcases run_withEmptyReturn hrule fuel with hsame | ⟨k, m', hunder⟩
  · exact Or.inl ⟨fuel, by rw [strict, hsame, hrun]; rfl⟩
  · obtain ⟨hhalted, rfl⟩ := hunder.other r hrun
    exact Or.inr ⟨hhalted, k, hunder.first, fuel, hunder.strict⟩

/-- **The rule for returns from nothing matters at the first one only.**  Up to it, machines that
    are the same but for the rule come to the same and are left the same but for the rule.  There
    the one halts and the strict one faults, and they differ in that as well.  So a strict run that
    halts is the other run; a run that faults is the strict run; and where a run halts, the strict
    run does, or it faults at the first return from nothing.  A run halts where the machine does and
    faults where a step does; its output is flushed either way. -/
theorem emptyReturn_matters_once (hrule : m.onEmptyReturn = .halts) :
    (∀ k, (∀ j < k, ¬ (m.after j).ReturnsFromNothing) →
      m.strict.after k = (m.after k).strict ∧
        ∀ j < k, step (m.strict.after j) = (step (m.after j)).withEmptyReturn .faults) ∧
    (∀ k, m.FirstReturnsFromNothing k →
      (step (m.after k)).outcome = .ok () ∧ (m.after (k + 1)).halted = true ∧
        (step (m.strict.after k)).outcome = .error .stackUnderflow ∧
        m.strict.after (k + 1) = (m.after (k + 1)).unstopped) ∧
    (∀ r, m.strict.Ends r → r.state.halted = true → m.Ends (r.withEmptyReturn .halts)) ∧
    (∀ r, m.Ends r → r.state.halted = false →
      (∃ fault, r.outcome = .error fault) ∧ m.strict.Ends (r.withEmptyReturn .faults)) ∧
    ∀ r, m.Ends r → r.state.halted = true →
      m.strict.Ends (r.withEmptyReturn .faults) ∨
        ∃ k, m.FirstReturnsFromNothing k ∧
          m.strict.Ends ⟨.error .stackUnderflow, r.state.unstopped, (steps k m).log⟩ := by
  refine ⟨fun k h => ⟨after_withEmptyReturn h _, fun j hj => ?_⟩, fun k h => ?_,
    fun r h => ends_of_strict hrule h, fun r h hr => ⟨h.fault_of_not_halted hr, ?_⟩,
    fun r h _ => (strict_ends hrule h).imp_right And.right⟩
  · rw [strict, after_withEmptyReturn fun i hi => h i (Nat.lt_trans hi hj),
      step_withEmptyReturn (h j hj)]
  · have hstep := h.2.step_of_halts ((onEmptyReturn_after k m).trans hrule)
    have hstrict : ((m.after k).withEmptyReturn .faults).ReturnsFromNothing := h.2
    rw [strict, after_succ', after_succ', after_withEmptyReturn h.1, hstep,
      hstrict.step_of_faults rfl]
    exact ⟨rfl, rfl, rfl, (unstopped_of_running (m := (m.after k).taken) h.2.1).symm⟩
  · rcases strict_ends hrule h with hsame | ⟨hhalted, -⟩
    · exact hsame
    · exact absurd (hhalted.symm.trans hr) nofun

/-- A program that does nothing and then returns. -/
def returning : Store := (Store.writeBlock 0 [21, 18] .empty).state

theorem emptyReturn_matters_once_returning :
    let m := new returning ⟨[], none⟩ .unlimited
    m.onEmptyReturn = .halts ∧ m.FirstReturnsFromNothing 1 ∧ (m.after 2).halted = true ∧
      (step (m.strict.after 1)).outcome = .error .stackUnderflow := by
  intro m
  have hbefore : ∀ j < 1, ¬ (m.after j).ReturnsFromNothing := by decide +kernel
  have hnow : (m.after 1).ReturnsFromNothing := by decide +kernel
  have hfirst := (emptyReturn_matters_once (m := m) rfl).2.1 1 ⟨hbefore, hnow⟩
  exact ⟨rfl, ⟨hbefore, hnow⟩, hfirst.2.1, hfirst.2.2.1⟩

end Machine

end WordMachine
