/-
  Two runs side by side.

  * `Action.Alike R x y R'`: from states that `R` relates, the actions `x` and `y` come to the same
    outcome, report the same and leave states that `R'` relates.  What does nothing is alike, and
    a sequence is alike if its parts are (`Alike.bind`);
  * `Machine.Beside R`: two machines that differ in their consoles only, which `R` relates;
  * `alike_perform`, `alike_step`: such machines take the same instruction and do the same with it,
    if their consoles read and write alike: a machine sees its console in no other way;
  * `console_step`, `console_step_of_reads`: what a step makes of the console of one machine.
-/
import WordMachine.Machine.Run

namespace WordMachine

namespace Action

variable {σ τ α β : Type} {R R' R'' : σ → τ → Prop}

/-- The actions do the same on related states, and leave related states. -/
def Alike (R : σ → τ → Prop) (x : Action σ α) (y : Action τ α) (R' : σ → τ → Prop) : Prop :=
  ∀ s t, R s t → (x s).outcome = (y t).outcome ∧ (x s).log = (y t).log ∧ R' (x s).state (y t).state

namespace Alike

theorem pure (a : α) : Alike R (Pure.pure a) (Pure.pure a) R := fun _ _ h => ⟨rfl, rfl, h⟩

theorem fail (fault : Fault) : Alike R (Action.fail fault : Action σ α) (Action.fail fault) R :=
  fun _ _ h => ⟨rfl, rfl, h⟩

theorem note (event : Event) : Alike R (Action.note event) (Action.note event) R :=
  fun _ _ h => ⟨rfl, rfl, h⟩

theorem view {f : σ → α} {g : τ → α} (hfg : ∀ s t, R s t → f s = g t) :
    Alike R (Action.view f) (Action.view g) R :=
  fun s t h => ⟨congrArg Except.ok (hfg s t h), rfl, h⟩

theorem change {f : σ → σ} {g : τ → τ} (hfg : ∀ s t, R s t → R' (f s) (g t)) :
    Alike R (Action.change f) (Action.change g) R' :=
  fun s t h => ⟨rfl, rfl, hfg s t h⟩

theorem weaken {x : Action σ α} {y : Action τ α} (h : Alike R x y R')
    (hR : ∀ s t, R' s t → R'' s t) : Alike R x y R'' := by
  intro s t hst
  obtain ⟨hout, hlog, hstate⟩ := h s t hst
  exact ⟨hout, hlog, hR _ _ hstate⟩

theorem bind {x : Action σ α} {y : Action τ α} {f : α → Action σ β} {g : α → Action τ β}
    (hxy : Alike R x y R') (hfg : ∀ a, Alike R' (f a) (g a) R') :
    Alike R (x >>= f) (y >>= g) R' := by
  intro s t hst
  obtain ⟨hout, hlog, hstate⟩ := hxy s t hst
  rcases hx : x s with ⟨fault | a, s', log⟩
  · rcases hy : y t with ⟨fault' | b, t', log'⟩
    · rw [hx, hy] at hout hlog hstate
      rw [bind_error hx, bind_error hy]
      exact ⟨congrArg Except.error (Except.error.inj hout), hlog, hstate⟩
    · rw [hx, hy] at hout
      cases hout
  · rcases hy : y t with ⟨fault' | b, t', log'⟩
    · rw [hx, hy] at hout
      cases hout
    · rw [hx, hy] at hout hlog hstate
      obtain rfl : a = b := Except.ok.inj hout
      obtain rfl : log = log' := hlog
      obtain ⟨hout', hlog', hstate'⟩ := hfg a s' t' hstate
      rw [bind_ok hx, bind_ok hy]
      exact ⟨hout', congrArg (log ++ ·) hlog', hstate'⟩

theorem ite {c : Prop} [Decidable c] {x x' : Action σ α} {y y' : Action τ α}
    (h : Alike R x y R') (h' : Alike R x' y' R') :
    Alike R (if c then x else x') (if c then y else y') R' := by
  split
  · exact h
  · exact h'

end Alike

end Action

namespace Machine

open WordMachine.Action

variable {α : Type} {R R' : Console → Console → Prop} {m m' : Machine} {i : Instruction}

/-- The machines differ in their consoles only, which the relation holds of. -/
structure Beside (R : Console → Console → Prop) (m m' : Machine) : Prop where
  store : m.store = m'.store
  stack : m.stack = m'.stack
  halted : m.halted = m'.halted
  onEmptyReturn : m.onEmptyReturn = m'.onEmptyReturn
  console : R m.console m'.console

theorem Beside.weaken (h : Beside R m m') (hR : ∀ c c', R c c' → R' c c') : Beside R' m m' :=
  ⟨h.store, h.stack, h.halted, h.onEmptyReturn, hR _ _ h.console⟩

theorem alike_onStore (x : Action Store α) : Alike (Beside R) (onStore x) (onStore x) (Beside R) := by
  intro m m' h
  rw [onStore_apply, onStore_apply, h.store]
  exact ⟨rfl, rfl, rfl, h.stack, h.halted, h.onEmptyReturn, h.console⟩

theorem alike_onStack (x : Action CallStack α) :
    Alike (Beside R) (onStack x) (onStack x) (Beside R) := by
  intro m m' h
  rw [onStack_apply, onStack_apply, h.stack]
  exact ⟨rfl, rfl, h.store, rfl, h.halted, h.onEmptyReturn, h.console⟩

theorem alike_onConsole {x y : Action Console α} (hxy : Alike R x y R') :
    Alike (Beside R) (onConsole x) (onConsole y) (Beside R') := by
  intro m m' h
  obtain ⟨hout, hlog, hconsole⟩ := hxy _ _ h.console
  exact ⟨hout, hlog, h.store, h.stack, h.halted, h.onEmptyReturn, hconsole⟩

theorem alike_stop : Alike (Beside R) stop stop (Beside R) :=
  .change fun _ _ h => ⟨h.store, h.stack, rfl, h.onEmptyReturn, h.console⟩

theorem alike_put (op : Opcode) (destination : Word) (sources : List Word) (result : Word) :
    Alike (Beside R) (put op destination sources result) (put op destination sources result)
      (Beside R) :=
  .bind (alike_onStore _) fun _ => .note _

theorem alike_enter (target : Word) :
    Alike (Beside R) (enter target) (enter target) (Beside R) :=
  .bind (.view fun _ _ h => by rw [h.store]) fun _ => .bind (alike_onStack _) fun _ =>
    .bind (alike_onStore _) fun _ => .note _

theorem alike_leave : Alike (Beside R) leave leave (Beside R) := by
  refine .bind (.view fun _ _ h => by rw [h.stack, h.onEmptyReturn]) fun _ => .ite ?_ ?_
  · exact .bind alike_stop fun _ => .note _
  · exact .bind (alike_onStack _) fun _ => .bind (alike_onStore _) fun _ => .note _

/-- An instruction that leaves the console alone does the same beside any console. -/
theorem alike_perform_of_ne (hinp : i.opcode ≠ .inp) (hout : i.opcode ≠ .out) :
    Alike (Beside R) (perform i) (perform i) (Beside R) := by
  have hset (a v : Word) (op : Opcode) (operands : List Word) :
      Alike (Beside R) (onStore (Store.set a v) >>= fun _ => done op operands)
        (onStore (Store.set a v) >>= fun _ => done op operands) (Beside R) :=
    .bind (alike_onStore _) fun _ => .note _
  have hjump (a : Word) (op : Opcode) (operands : List Word) :
      Alike (Beside R) (onStore (Store.jump a) >>= fun _ => done op operands)
        (onStore (Store.jump a) >>= fun _ => done op operands) (Beside R) :=
    .bind (alike_onStore _) fun _ => .note _
  obtain ⟨op, a, b, c⟩ := i
  cases op with
  | halt => exact .bind alike_stop fun _ => .note _
  | set | wmem => exact hset _ _ _ _
  | push => exact .bind (alike_onStack _) fun _ => .note _
  | pop => exact .bind (alike_onStack _) fun _ => alike_put _ _ _ _
  | jmp => exact hjump _ _ _
  | jt | jf => exact .ite (hjump _ _ _) (.note _)
  | eq | gt | add | mult | and | or | not => exact alike_put _ _ _ _
  | mod => exact .ite (.fail _) (alike_put _ _ _ _)
  | rmem => exact .bind (alike_onStore _) fun _ => alike_put _ _ _ _
  | call => exact alike_enter a
  | ret => exact alike_leave
  | noop => exact .note _
  | inp => exact absurd rfl hinp
  | out => exact absurd rfl hout

theorem alike_perform (hkeep : i.opcode ≠ .inp → ∀ c c', R c c' → R' c c')
    (hread : i.opcode = .inp → Alike R Console.readChar Console.readChar R')
    (hwrite : i.opcode ≠ .inp → ∀ code,
      Alike R (Console.writeChar code) (Console.writeChar code) R') :
    Alike (Beside R) (perform i) (perform i) (Beside R') := by
  by_cases hinp : i.opcode = .inp
  · obtain ⟨op, a, b, c⟩ := i
    obtain rfl : op = .inp := hinp
    exact .bind (alike_onConsole (hread rfl)) fun _ => alike_put _ _ _ _
  · by_cases hout : i.opcode = .out
    · obtain ⟨op, a, b, c⟩ := i
      obtain rfl : op = .out := hout
      exact .bind (alike_onConsole (hwrite hinp a)) fun _ => .note _
    · exact (alike_perform_of_ne hinp hout).weaken fun _ _ h => h.weaken (hkeep hinp)

/-- **A step sees the console only by reading and writing.**  Beside consoles that do so alike, it
    comes to the same. -/
theorem alike_step (h : Beside R m m') (hkeep : ¬ m.Reads → ∀ c c', R c c' → R' c c')
    (hread : m.Reads → Alike R Console.readChar Console.readChar R')
    (hwrite : ¬ m.Reads → ∀ code,
      Alike R (Console.writeChar code) (Console.writeChar code) R') :
    (step m).outcome = (step m').outcome ∧ (step m).log = (step m').log ∧
      Beside R' (step m).state (step m').state := by
  rcases hhalted : m.halted with _ | _
  · rw [step_of_running hhalted, step_of_running (h.halted ▸ hhalted)]
    -- The stores are equal, so both machines take the same instruction, or the same fault.
    rcases htake : Store.takeInstruction m.store with ⟨taken, store, log⟩
    have hm : onStore Store.takeInstruction m = ⟨taken, { m with store }, log⟩ := by
      rw [onStore_apply, htake]
    have hm' : onStore Store.takeInstruction m' = ⟨taken, { m' with store }, log⟩ := by
      rw [onStore_apply, ← h.store, htake]
    rcases taken with fault | i
    · have hno : ¬ m.Reads := fun hr => by
        have hnext := hr.2
        rw [upcoming, htake] at hnext
        cases hnext
      rw [bind_error hm, bind_error hm']
      exact ⟨rfl, rfl, rfl, h.stack, h.halted, h.onEmptyReturn, hkeep hno _ _ h.console⟩
    · have hreads : m.Reads ↔ i.opcode = .inp := by
        rw [Reads, upcoming, htake, and_iff_right hhalted]
        exact Option.some_inj
      obtain ⟨hout, hlog, hstate⟩ :=
        alike_perform (fun hne => hkeep (mt hreads.mp hne)) (fun heq => hread (hreads.mpr heq))
          (fun hne => hwrite (mt hreads.mp hne)) { m with store } { m' with store }
          ⟨rfl, h.stack, h.halted, h.onEmptyReturn, h.console⟩
      rw [bind_ok hm, bind_ok hm']
      exact ⟨hout, congrArg (log ++ ·) hlog, hstate⟩
  · have hno : ¬ m.Reads := fun hr => Bool.false_ne_true (hr.1.symm.trans hhalted)
    rw [step_of_halted hhalted, step_of_halted (h.halted ▸ hhalted)]
    exact ⟨rfl, rfl, h.weaken (hkeep hno)⟩

/-- A machine beside itself: what reading and writing do to the console, a step does to it. -/
theorem console_step {P Q : Console → Prop} (h : P m.console)
    (hkeep : ¬ m.Reads → ∀ c, P c → Q c)
    (hread : m.Reads → ∀ c, P c → Q (Console.readChar c).state)
    (hwrite : ¬ m.Reads → ∀ c code, P c → Q (Console.writeChar code c).state) :
    Q (step m).state.console := by
  have halike {β : Type} {x : Action Console β} (hx : ∀ c, P c → Q (x c).state) :
      Alike (fun c c' => c = c' ∧ P c) x x (fun c c' => c = c' ∧ Q c) := by
    rintro c _ ⟨rfl, hc⟩
    exact ⟨rfl, rfl, rfl, hx c hc⟩
  have hself : Beside (fun c c' => c = c' ∧ P c) m m := ⟨rfl, rfl, rfl, rfl, rfl, h⟩
  obtain ⟨-, -, hstep⟩ := alike_step hself (fun hno c _ hc => ⟨hc.1, hkeep hno c hc.2⟩)
    (fun hr => halike (hread hr)) (fun hno code => halike fun c => hwrite hno c code)
  exact hstep.console.2

theorem console_step_of_reads (h : m.Reads) :
    (step m).state.console = (Console.readChar m.console).state := by
  refine console_step (P := fun c => c = m.console)
    (Q := fun c => c = (Console.readChar m.console).state) rfl (fun hno => absurd h hno) ?_
    (fun hno => absurd h hno)
  rintro - _ rfl
  rfl

end Machine

end WordMachine
