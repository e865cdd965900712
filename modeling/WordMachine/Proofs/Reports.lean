/-
  What an action may report.

  * `Action.Reports P x`: whatever the action `x` reports, also before a fault, has the property
    `P`; a sequence reports what its parts do (`Reports.bind`);
  * the store and the stack report nothing; the console reports the lines it takes and the codes it
    replaces (`reports_readChar`, `reports_writeChar`);
  * `reports_perform`, `reports_step`: no step reports the end of a run, not even one that stops
    the machine.
-/
import WordMachine.Machine.Run
import WordMachine.Proofs.Refill

namespace WordMachine

open WordMachine.Action

namespace Action

variable {σ α β : Type} {P : Event → Prop}

/-- Whatever the action reports has the property. -/
def Reports (P : Event → Prop) (x : Action σ α) : Prop := ∀ s, ∀ e ∈ (x s).log, P e

namespace Reports

theorem of_log_eq_nil {x : Action σ α} (h : ∀ s, (x s).log = []) : Reports P x := by
  intro s e he
  rw [h s] at he
  cases he

/-- What has no property is not reported. -/
theorem log_eq_nil {x : Action σ α} (h : Reports (fun _ => False) x) (s : σ) : (x s).log = [] :=
  List.eq_nil_iff_forall_not_mem.mpr (h s)

theorem pure (a : α) : Reports P (Pure.pure a : Action σ α) := fun _ _ h => nomatch h

theorem fail (fault : Fault) : Reports P (Action.fail fault : Action σ α) := fun _ _ h => nomatch h

theorem view (f : σ → α) : Reports P (Action.view f) := fun _ _ h => nomatch h

theorem inspect (f : σ → Except Fault α) : Reports P (Action.inspect f) := fun _ _ h => nomatch h

theorem change (f : σ → σ) : Reports P (Action.change f) := fun _ _ h => nomatch h

theorem note {event : Event} (h : P event) : Reports P (Action.note event : Action σ Unit) := by
  intro s e he
  rw [note_apply, List.mem_singleton] at he
  exact he ▸ h

theorem bind {x : Action σ α} {f : α → Action σ β} (hx : Reports P x)
    (hf : ∀ a, Reports P (f a)) : Reports P (x >>= f) := by
  intro s e he
  have hx' := hx s
  rcases h : x s with ⟨fault | a, s', log⟩
  · rw [h] at hx'
    rw [bind_error h] at he
    exact hx' e he
  · rw [h] at hx'
    rw [bind_ok h, List.mem_append] at he
    rcases he with he | he
    · exact hx' e he
    · exact hf a s' e he

theorem ite {c : Prop} [Decidable c] {x y : Action σ α} (hx : Reports P x) (hy : Reports P y) :
    Reports P (if c then x else y) := by
  split
  · exact hx
  · exact hy

end Reports

end Action

/-- The event is not the end of a program. -/
def Event.OnTheWay (e : Event) : Prop := ∀ pc, e ≠ .halted pc

namespace Store

variable {P : Event → Prop}

theorem reports_set (address value : Word) : Reports P (set address value) := by
  refine .of_log_eq_nil fun s => ?_
  unfold set
  split
  · split
    · rfl
    · rfl
  · rfl

theorem reports_jump (address : Word) : Reports P (jump address) := by
  refine .of_log_eq_nil fun s => ?_
  unfold jump
  split
  · rfl
  · rfl

theorem reports_takeWord (operand : Operand) : Reports P (takeWord operand) := by
  refine .of_log_eq_nil fun s => ?_
  unfold takeWord
  split
  · rfl
  · rfl

theorem reports_takeOperands (operands : List Operand) : Reports P (takeOperands operands) := by
  induction operands with
  | nil => exact .pure _
  | cons operand operands ih =>
    exact .bind (reports_takeWord operand) fun _ => .bind ih fun _ => .pure _

theorem reports_takeInstruction : Reports P takeInstruction := by
  refine .bind (.view _) fun pc => .bind (reports_takeWord _) fun code => ?_
  split
  · exact .fail _
  · exact .bind (reports_takeOperands _) fun _ => .pure _

end Store

namespace CallStack

variable {P : Event → Prop}

theorem reports_push (value : Word) : Reports P (push value) := by
  refine .of_log_eq_nil fun s => ?_
  unfold push
  split
  · rfl
  · rfl

theorem reports_pop : Reports P pop := by
  refine .of_log_eq_nil fun s => ?_
  unfold pop
  split
  · rfl
  · rfl

end CallStack

namespace Console

variable {P : Event → Prop}

theorem reports_write (bytes : List UInt8) : Reports P (onSink (Sink.write bytes)) := by
  refine .of_log_eq_nil fun console => ?_
  rw [onSink_apply]
  simp only [Sink.write]
  split
  · rfl
  · rfl

theorem reports_flush : Reports P flush := .of_log_eq_nil fun console => by rw [flush_apply]

theorem reports_takeLine : Reports P takeLine := by
  refine .of_log_eq_nil fun console => ?_
  obtain ⟨_, _, -, hlog⟩ := takeLine_frame console
  exact hlog

theorem reports_takeCode : Reports P takeCode := by
  refine .of_log_eq_nil fun console => ?_
  obtain ⟨_, -, hlog⟩ := takeCode_frame console
  exact hlog

theorem reports_writeChar (code : Word) (h : P (.replacedCode code)) :
    Reports P (writeChar code) := by
  have hput : Reports P (do
      onSink (Sink.write (String.utf8EncodeChar (charOf code)))
      logged (Transcript.logOutput (String.singleton (charOf code)))) :=
    (reports_write _).bind fun _ => .change _
  exact Reports.ite (.bind (.note h) fun _ => hput) hput

theorem reports_readChar (h : ∀ line, P (.inputLine line)) : Reports P readChar := by
  have hrefill : Reports P refill :=
    .bind reports_flush fun _ => .bind reports_takeLine fun _ => .bind (.note (h _)) fun _ =>
      .bind (.change _) fun _ => .change _
  exact .bind (.view _) fun _ =>
    .ite (.bind hrefill fun _ => reports_takeCode) reports_takeCode

end Console

namespace Machine

section

variable {α : Type} {P : Event → Prop}

theorem reports_onStore {x : Action Store α} (hx : Reports P x) : Reports P (onStore x) :=
  fun m => hx m.store

theorem reports_onStack {x : Action CallStack α} (hx : Reports P x) : Reports P (onStack x) :=
  fun m => hx m.stack

theorem reports_onConsole {x : Action Console α} (hx : Reports P x) : Reports P (onConsole x) :=
  fun m => hx m.console

end

theorem reports_done (op : Opcode) (operands : List Word) :
    Reports Event.OnTheWay (done op operands) := .note fun _ => nofun

theorem reports_put (op : Opcode) (destination : Word) (sources : List Word) (result : Word) :
    Reports Event.OnTheWay (put op destination sources result) :=
  .bind (reports_onStore (Store.reports_set _ _)) fun _ => .note fun _ => nofun

/-- No instruction reports the end, not even those that stop the machine. -/
theorem reports_perform (i : Instruction) : Reports Event.OnTheWay (perform i) := by
  have hjump (a : Word) (op : Opcode) (operands : List Word) :
      Reports Event.OnTheWay (onStore (Store.jump a) >>= fun _ => done op operands) :=
    .bind (reports_onStore (Store.reports_jump a)) fun _ => reports_done _ _
  have hset (a v : Word) (op : Opcode) (operands : List Word) :
      Reports Event.OnTheWay (onStore (Store.set a v) >>= fun _ => done op operands) :=
    .bind (reports_onStore (Store.reports_set a v)) fun _ => reports_done _ _
  obtain ⟨op, a, b, c⟩ := i
  cases op with
  | halt => exact .bind (.change _) fun _ => reports_done _ _
  | set | wmem => exact hset _ _ _ _
  | push => exact .bind (reports_onStack (CallStack.reports_push a)) fun _ => reports_done _ _
  | pop => exact .bind (reports_onStack CallStack.reports_pop) fun _ => reports_put _ _ _ _
  | jmp => exact hjump _ _ _
  | jt | jf => exact .ite (hjump _ _ _) (reports_done _ _)
  | eq | gt | add | mult | and | or | not => exact reports_put _ _ _ _
  | mod => exact .ite (.fail _) (reports_put _ _ _ _)
  | rmem => exact .bind (reports_onStore (.inspect _)) fun _ => reports_put _ _ _ _
  | call =>
    exact .bind (.view _) fun back =>
      .bind (reports_onStack (CallStack.reports_push back)) fun _ => hjump _ _ _
  | ret =>
    refine .bind (.view _) fun _ => .ite (.bind (.change _) fun _ => .note fun _ => nofun) ?_
    exact .bind (reports_onStack CallStack.reports_pop) fun _ => hjump _ _ _
  | out =>
    exact .bind (reports_onConsole (Console.reports_writeChar a fun _ => nofun)) fun _ =>
      reports_done _ _
  | inp =>
    exact .bind (reports_onConsole (Console.reports_readChar fun _ _ => nofun)) fun _ =>
      reports_put _ _ _ _
  | noop => exact reports_done _ _

theorem reports_step : Reports Event.OnTheWay step :=
  .bind (.view _) fun _ => .ite (.pure _) <|
    .bind (reports_onStore Store.reports_takeInstruction) reports_perform

theorem reports_steps (n : Nat) : Reports Event.OnTheWay (steps n) := by
  induction n with
  | zero => exact .pure _
  | succ n ih => exact .bind reports_step fun _ => ih

end Machine

end WordMachine
