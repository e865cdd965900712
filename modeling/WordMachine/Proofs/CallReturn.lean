/-
  Calls and returns.

  An instruction uses the stack at its top only, and at most once: it leaves the stack alone, puts
  one word on it, or takes the word on top.  So the address that a call has pushed stays where it is
  as long as the stack does not become shorter, and the return that finds it on top goes back behind
  the call.

  * `CallStack.Touched s t`: the stack `t` is `s`, or `s` used once at its top;
  * `Machine.TouchesTop x`: so the action `x` uses the stack, as every instruction and every step
    does (`touchesTop_perform`, `touchesTop_step`);
  * `base_after`: the words at the bottom last for as many steps as leave at least that many words;
  * `step_of_call`, `step_of_returns`: what a call and a return come to;
  * `return_matches_call`: a return goes back behind its call.
-/
import WordMachine.Proofs.EmptyReturn
import WordMachine.Proofs.Perform

namespace WordMachine

open WordMachine.Action

/-! ## The top of the stack -/

namespace CallStack

/-- The stack was left alone, or one word was put on it, or the word on top was taken. -/
inductive Touched (stack : CallStack) : CallStack → Prop
  | kept : Touched stack stack
  | pushed (v : Word) : Touched stack ⟨(stack.toList ++ [v]).toArray⟩
  | popped {below : List Word} {v : Word} :
    stack.toList = below ++ [v] → Touched stack ⟨below.toArray⟩

variable {stack stack' : CallStack} {base : List Word}

theorem touched_push (v : Word) (stack : CallStack) : stack.Touched (push v stack).state := by
  by_cases hv : v.IsValue
  · rw [push_of_isValue hv]
    exact .pushed v
  · rw [push_of_not_isValue hv]
    exact .kept

theorem touched_pop (stack : CallStack) : stack.Touched (pop stack).state := by
  rcases eq_nil_or_append stack with hs | ⟨below, v, hs⟩
  · rw [pop_of_nil hs]
    exact .kept
  · rw [pop_of_append hs]
    exact .popped hs

/-- The words at the bottom are out of reach while there are at least as many words. -/
theorem Touched.keeps (h : stack.Touched stack') (hbase : base <+: stack.toList)
    (hsize : base.length ≤ stack'.size) : base <+: stack'.toList := by
  cases h with
  | kept => exact hbase
  | pushed v => exact hbase.trans (List.prefix_append _ [v])
  | popped hs =>
    rw [hs] at hbase
    exact List.prefix_of_prefix_length_le hbase (List.prefix_append _ _) hsize

end CallStack

namespace Machine

variable {α β : Type} {m : Machine} {k : Nat} {base : List Word}

/-! ## Actions and the stack -/

/-- The action leaves the stack alone. -/
abbrev SparesStack (x : Action Machine α) : Prop := ∀ stack, Keeps (fun m => m.stack = stack) x

/-- The action leaves the stack alone, or uses it once at its top. -/
def TouchesTop (x : Action Machine α) : Prop :=
  ∀ m : Machine, m.stack.Touched (x m).state.stack

namespace TouchesTop

variable {x y : Action Machine α} {f : α → Action Machine β}

theorem of_spares (h : SparesStack x) : TouchesTop x := by
  intro m
  rw [h m.stack m rfl]
  exact .kept

theorem bind_left (hx : SparesStack x) (hf : ∀ a, TouchesTop (f a)) : TouchesTop (x >>= f) := by
  intro m
  have hstack := hx m.stack m rfl
  rcases h : x m with ⟨fault | a, m', log⟩
  · rw [h] at hstack
    rw [bind_error h, ← hstack]
    exact .kept
  · rw [h] at hstack
    rw [bind_ok h, ← hstack]
    exact hf a m'

theorem bind_right (hx : TouchesTop x) (hf : ∀ a, SparesStack (f a)) : TouchesTop (x >>= f) := by
  intro m
  have hstack : ((x >>= f) m).state.stack = (x m).state.stack :=
    Keeps.state_bind (P := fun m' : Machine => m'.stack = (x m).state.stack) rfl fun a => hf a _
  rw [hstack]
  exact hx m

theorem ite {c : Prop} [Decidable c] (hx : TouchesTop x) (hy : TouchesTop y) :
    TouchesTop (if c then x else y) := by
  split
  · exact hx
  · exact hy

end TouchesTop

theorem sparesStack_onStore (x : Action Store α) : SparesStack (onStore x) := fun _ _ h => h

theorem sparesStack_onConsole (x : Action Console α) : SparesStack (onConsole x) := fun _ _ h => h

theorem sparesStack_stop : SparesStack stop := fun _ _ h => h

theorem sparesStack_put (op : Opcode) (destination : Word) (sources : List Word) (result : Word) :
    SparesStack (put op destination sources result) :=
  fun _ => .bind (sparesStack_onStore _ _) fun _ => .note _

theorem touchesTop_onStack {x : Action CallStack α}
    (h : ∀ stack : CallStack, stack.Touched (x stack).state) :
    TouchesTop (onStack x) :=
  fun m => h m.stack

/-! ## Instructions and the stack -/

theorem touchesTop_enter (target : Word) : TouchesTop (enter target) := by
  refine .bind_left (fun _ => .view _) fun back => ?_
  refine .bind_right (touchesTop_onStack (CallStack.touched_push back)) fun _ _ => ?_
  exact .bind (sparesStack_onStore _ _) fun _ => .note _

theorem touchesTop_leave : TouchesTop leave := by
  refine .bind_left (fun _ => .view _) fun _ => .ite ?_ ?_
  · exact .of_spares fun _ => .bind (sparesStack_stop _) fun _ => .note _
  · refine .bind_right (touchesTop_onStack CallStack.touched_pop) fun _ _ => ?_
    exact .bind (sparesStack_onStore _ _) fun _ => .note _

theorem touchesTop_perform (i : Instruction) : TouchesTop (perform i) := by
  have hstore (x : Action Store Unit) (op : Opcode) (operands : List Word) :
      SparesStack (onStore x >>= fun _ => done op operands) :=
    fun _ => .bind (sparesStack_onStore _ _) fun _ => .note _
  obtain ⟨op, a, b, c⟩ := i
  cases op with
  | halt => exact .of_spares fun _ => .bind (sparesStack_stop _) fun _ => .note _
  | set | wmem | jmp => exact .of_spares (hstore _ _ _)
  | push => exact .bind_right (touchesTop_onStack (CallStack.touched_push a)) fun _ _ => .note _
  | pop =>
    exact .bind_right (touchesTop_onStack CallStack.touched_pop) fun _ => sparesStack_put _ _ _ _
  | eq | gt | add | mult | and | or | not => exact .of_spares (sparesStack_put _ _ _ _)
  | jt | jf => exact .of_spares fun _ => .ite (hstore _ _ _ _) (.note _)
  | mod => exact .of_spares fun _ => .ite (.fail _) (sparesStack_put _ _ _ _ _)
  | rmem =>
    exact .of_spares fun _ => .bind (sparesStack_onStore _ _) fun _ => sparesStack_put _ _ _ _ _
  | call => exact touchesTop_enter a
  | ret => exact touchesTop_leave
  | out => exact .of_spares fun _ => .bind (sparesStack_onConsole _ _) fun _ => .note _
  | inp =>
    exact .of_spares fun _ => .bind (sparesStack_onConsole _ _) fun _ => sparesStack_put _ _ _ _ _
  | noop => exact .of_spares fun _ => .note _

/-- **A step uses the stack at its top only**, whether or not it faults. -/
theorem touchesTop_step : TouchesTop step := by
  refine .bind_left (fun _ => .view _) fun _ => .ite (.of_spares fun _ => .pure _) ?_
  exact .bind_left (sparesStack_onStore _) touchesTop_perform

/-- **The words at the bottom last** for as many steps as leave at least that many words. -/
theorem base_after (hbase : base <+: m.stack.toList)
    (h : ∀ j ≤ k, base.length ≤ (m.after j).stack.size) : base <+: (m.after k).stack.toList := by
  induction k with
  | zero => exact hbase
  | succ k ih =>
    have hnow := h (k + 1) (Nat.le_refl _)
    rw [after_succ'] at hnow ⊢
    exact (touchesTop_step (m.after k)).keeps (ih fun j hj => h j (Nat.le_succ_of_le hj)) hnow

/-! ## A call and a return -/

/-- The next step is a return. -/
def Returns (m : Machine) : Prop := m.halted = false ∧ m.upcoming = some .ret

instance (m : Machine) : Decidable m.Returns := inferInstanceAs (Decidable (_ ∧ _))

theorem enter_eq {target : Word} (hpc : m.store.pc.IsValue) (ht : target.IsValue) :
    enter target m = ⟨.ok (),
      { m with
        store := { m.store with pc := target }
        stack := ⟨(m.stack.toList ++ [m.store.pc]).toArray⟩ },
      [.executed .call [target] none]⟩ := by
  rw [enter, bind_ok (view_apply _ m), bind_ok (onStack_push hpc), bind_ok (onStore_jump ht)]
  rfl

theorem leave_eq {back : Word} (hs : m.stack.toList = base ++ [back]) (hv : back.IsValue) :
    leave m = ⟨.ok (),
      { m with store := { m.store with pc := back }, stack := ⟨base.toArray⟩ },
      [.executed .ret [back] none]⟩ := by
  have hne : m.stack.toList ≠ [] := by
    rw [hs]
    exact List.append_ne_nil_of_right_ne_nil base (List.cons_ne_nil back [])
  rw [leave_of_ne_nil hne, bind_ok (onStack_pop_of_append hs), bind_ok (onStore_jump hv)]
  rfl

/-- The instruction that a machine is about to execute is held by its store. -/
theorem exists_holds_of_upcoming {op : Opcode} (hpc : m.store.pc.toNat ≤ valueCount)
    (h : m.upcoming = some op) : ∃ i, m.store.Holds i ∧ i.opcode = op := by
  rcases Store.holds_or_lacks hpc with ⟨i, hi⟩ | ⟨fault, p, hl⟩
  · rw [upcoming, Store.takeInstruction_of_holds hi] at h
    exact ⟨i, hi, Option.some.inj h⟩
  · rw [upcoming, hl.takeInstruction] at h
    cases h

theorem step_of_call (hm : m.WellFormed) (hr : m.halted = false)
    (hpc : m.store.pc.toNat + 2 < valueCount)
    (hop : Opcode.ofCode? (m.store.word m.store.pc.toNat) = some .call) :
    ∃ target, step m = ⟨.ok (),
      { m with
        store := { m.store with pc := target }
        stack := ⟨(m.stack.toList ++ [m.store.pc + 2]).toArray⟩ },
      [.executed .call [target] none]⟩ := by
  have hi := Store.holds_of_code hop (Nat.le_of_lt hpc)
  have hpast : (m.store.goTo (m.store.pc.toNat + 2)).pc = m.store.pc + 2 := by
    rw [Store.goTo, UInt16.ofNat_add, UInt16.ofNat_toNat]
    rfl
  have hback : (m.store.goTo (m.store.pc.toNat + 2)).pc.IsValue := by
    rw [Word.IsValue, Store.toNat_pc_goTo (Nat.le_of_lt hpc)]
    exact hpc
  have ht : (m.store.dereference (m.store.word (m.store.pc.toNat + 1))).IsValue :=
    Instruction.proper_iff.mp (hi.proper hm.store)
  have henter := enter_eq (m := { m with store := m.store.goTo (m.store.pc.toNat + 2) }) hback ht
  rw [hpast] at henter
  exact ⟨_, (step_of_holds hr hi).trans henter⟩

/-- A return takes the word on top. -/
theorem step_of_returns {back : Word} (hm : m.WellFormed) (h : m.Returns)
    (hs : m.stack.toList = base ++ [back]) :
    step m = ⟨.ok (),
      { m with store := { m.store with pc := back }, stack := ⟨base.toArray⟩ },
      [.executed .ret [back] none]⟩ := by
  obtain ⟨⟨op, a, b, c⟩, hi, hop⟩ := exists_holds_of_upcoming hm.store.pc h.2
  obtain rfl : op = .ret := hop
  exact (step_of_holds h.1 hi).trans (leave_eq hs (hm.stack.top hs))

/-- **A return goes back behind its call.**  A call that has room behind it succeeds and puts the
    address behind it on the stack.  If from then on the stack never becomes as short as it was
    before the call, and the machine is about to return when that address is on top, then the return
    succeeds, goes there, and leaves the stack as it was before the call.  What the steps between
    them have done to the store, and whether they have faulted, does not matter.  Every machine that
    can be reached is well-formed (`Reachable.wellFormed`). -/
theorem return_matches_call (hm : m.WellFormed) (hr : m.halted = false)
    (hpc : m.store.pc.toNat + 2 < valueCount)
    (hop : Opcode.ofCode? (m.store.word m.store.pc.toNat) = some .call) :
    (∃ target, step m = ⟨.ok (),
      { m with
        store := { m.store with pc := target }
        stack := ⟨(m.stack.toList ++ [m.store.pc + 2]).toArray⟩ },
      [.executed .call [target] none]⟩) ∧
    ∀ k, (∀ j ≤ k, m.stack.size < (m.after (j + 1)).stack.size) →
      (m.after (k + 1)).stack.size = m.stack.size + 1 → (m.after (k + 1)).Returns →
      step (m.after (k + 1)) = ⟨.ok (),
        { m.after (k + 1) with
          store := { (m.after (k + 1)).store with pc := m.store.pc + 2 }
          stack := m.stack },
        [.executed .ret [m.store.pc + 2] none]⟩ := by
  obtain ⟨target, hcall⟩ := step_of_call hm hr hpc hop
  refine ⟨⟨target, hcall⟩, fun k habove hsize hret => ?_⟩
  have hpushed : (step m).state.stack.toList = m.stack.toList ++ [m.store.pc + 2] := by
    rw [hcall]
    rfl
  -- The address is part of the words at the bottom, one more than there were before the call.
  have hkept : m.stack.toList ++ [m.store.pc + 2] <+: (m.after (k + 1)).stack.toList := by
    rw [after_succ]
    refine base_after (hpushed ▸ List.prefix_refl _) fun j hj => ?_
    rw [List.length_append]
    exact habove j hj
  have hall : (m.after (k + 1)).stack.toList = m.stack.toList ++ [m.store.pc + 2] := by
    refine (hkept.eq_of_length ?_).symm
    rw [List.length_append]
    exact hsize.symm
  exact step_of_returns (keeps_after keeps_step hm _) hret hall

/-- A subroutine that overwrites the call it was entered by, calls another one with a word of its
    own on the stack, takes that word back and returns. -/
def overwritingCall : Store :=
  (Store.writeBlock 0
    [17, 6, 0, 0, 0, 0, 1, 0, 21, 2, 5, 17, 16, 3, 32768, 18, 18] .empty).state

/-- It returns behind that call. -/
theorem return_matches_call_overwritten :
    let m := new overwritingCall ⟨[], none⟩ .unlimited
    (m.after 6).store.word 0 = 21 ∧ (m.after 6).stack.toList = [2] ∧
      (step (m.after 6)).state.store.pc = 2 ∧ (step (m.after 6)).state.stack.toList = [] := by
  intro m
  have hm : m.WellFormed :=
    ⟨Store.keeps_writeBlock _ _ _ Store.wellFormed_empty, CallStack.wellFormed_empty⟩
  have habove : ∀ j ≤ 5, m.stack.size < (m.after (j + 1)).stack.size := by decide +kernel
  have hreturns : (m.after 6).Returns := by decide +kernel
  have hstep := (return_matches_call hm rfl (by decide +kernel) (by decide +kernel)).2 5 habove
    (by decide +kernel) hreturns
  rw [hstep]
  exact ⟨by decide +kernel, by decide +kernel, rfl, rfl⟩

end Machine

end WordMachine
