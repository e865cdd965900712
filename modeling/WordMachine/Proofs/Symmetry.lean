/-
  Changes of a machine that its instructions do not notice.

  An instruction with a destination names the place it writes to.  Where a change of the machine
  gives the places other names, the instruction is changed in its destination, and so is what it
  reports.

  * `Instruction.moved w`, `Event.moved w`: the same with the destination under another name;
  * `Action.Commutes ρ w x y`: behind the change `ρ` of the state, the action `y` comes to what `x`
    comes to, leaves what `x` leaves, changed in the same way, and reports the same with the
    destinations named by `w`.  A sequence commutes if its parts do (`Commutes.bind`);
  * `Machine.recast f g`: the machine with its store changed by `f` and its rule by `g`;
  * `Store.Moves f w`: the change `f` of a store keeps the program counter, and behind it the word
    at `a` is the one at `w a`;
  * `Opcode.goesStraight`: the operations that move no program counter; they commute with any change
    behind which writing is writing (`commutes_perform_of_goesStraight`);
  * `commutes_perform`: an instruction commutes with such a change, as long as a word that it copies
    is the same and a return goes by the same rule.
-/
import WordMachine.Proofs.Reports

namespace WordMachine

/-! ## Destinations -/

/-- The first operand of the instruction is the place it writes to. -/
def Opcode.hasDestination (op : Opcode) : Bool := op.operands.head? == some .destination

/-- The operation goes on with the next instruction, and writes to its destination at most. -/
def Opcode.goesStraight : Opcode → Bool
  | set | push | pop | eq | gt | add | mult | mod | and | or | not | rmem | out | inp | noop => true
  | halt | jmp | jt | jf | wmem | call | ret => false

/-- The instruction with its destination under another name. -/
def Instruction.moved (w : Word → Word) (i : Instruction) : Instruction :=
  if i.opcode.hasDestination then { i with a := w i.a } else i

/-- What was reported, with the destination under another name. -/
def Event.moved (w : Word → Word) : Event → Event
  | executed op (a :: sources) result =>
    executed op ((if op.hasDestination then w a else a) :: sources) result
  | event => event

@[simp] theorem Instruction.opcode_moved (w : Word → Word) (i : Instruction) :
    (i.moved w).opcode = i.opcode := by
  unfold Instruction.moved
  split <;> rfl

@[simp] theorem Instruction.moved_id (i : Instruction) : i.moved id = i := by
  simp [Instruction.moved]

@[simp] theorem Event.moved_id : Event.moved id = id := by
  funext event
  unfold Event.moved
  split <;> simp

namespace Action

variable {σ τ α β : Type} {ρ : σ → τ} {w : Word → Word}

/-! ## Actions that commute with a change -/

/-- The one action does behind the change what the other does before it. -/
def Commutes (ρ : σ → τ) (w : Word → Word) (x : Action σ α) (y : Action τ α) : Prop :=
  ∀ s, y (ρ s) = ⟨(x s).outcome, ρ (x s).state, (x s).log.map (Event.moved w)⟩

namespace Commutes

theorem pure (a : α) : Commutes ρ w (Pure.pure a) (Pure.pure a) := fun _ => rfl

theorem fail (fault : Fault) : Commutes ρ w (Action.fail fault : Action σ α) (Action.fail fault) :=
  fun _ => rfl

theorem note (event : Event) :
    Commutes ρ w (Action.note event) (Action.note (event.moved w)) := fun _ => rfl

theorem view {f : σ → α} {g : τ → α} (h : ∀ s, g (ρ s) = f s) :
    Commutes ρ w (Action.view f) (Action.view g) := by
  intro s
  rw [view_apply, h]
  rfl

theorem inspect {f : σ → Except Fault α} {g : τ → Except Fault α} (h : ∀ s, g (ρ s) = f s) :
    Commutes ρ w (Action.inspect f) (Action.inspect g) := by
  intro s
  rw [inspect_apply, h]
  rfl

theorem change {f : σ → σ} {g : τ → τ} (h : ∀ s, g (ρ s) = ρ (f s)) :
    Commutes ρ w (Action.change f) (Action.change g) := by
  intro s
  rw [change_apply, h]
  rfl

theorem bind {x : Action σ α} {y : Action τ α} {f : α → Action σ β} {g : α → Action τ β}
    (hxy : Commutes ρ w x y) (hfg : ∀ a, Commutes ρ w (f a) (g a)) :
    Commutes ρ w (x >>= f) (y >>= g) := by
  intro s
  have hy := hxy s
  rcases hx : x s with ⟨fault | a, s', log⟩
  · rw [hx] at hy
    rw [bind_error hx, bind_error hy]
  · rw [hx] at hy
    rw [bind_ok hx, bind_ok hy, hfg a s', List.map_append]

theorem ite {c : Prop} [Decidable c] {x x' : Action σ α} {y y' : Action τ α}
    (h : Commutes ρ w x y) (h' : Commutes ρ w x' y') :
    Commutes ρ w (if c then x else x') (if c then y else y') := by
  split
  · exact h
  · exact h'

end Commutes

end Action

open WordMachine.Action

/-! ## Changes of the store and of the rule -/

/-- Behind the change, a word is written under another name. -/
structure Store.Moves (f : Store → Store) (w : Word → Word) : Prop where
  pc : ∀ s, (f s).pc = s.pc
  set : ∀ a v, Commutes f w (Store.set a v) (Store.set (w a) v)
  jump : ∀ a, Commutes f w (Store.jump a) (Store.jump a)

theorem Store.moves_id : Store.Moves id id where
  pc _ := rfl
  set a v s := by simp
  jump a s := by simp

namespace Machine

/-- The machine with another store, and another rule for returns from nothing. -/
def recast (f : Store → Store) (g : EmptyReturn → EmptyReturn) (m : Machine) : Machine :=
  { m with store := f m.store, onEmptyReturn := g m.onEmptyReturn }

variable {α : Type} {f : Store → Store} {g : EmptyReturn → EmptyReturn} {w : Word → Word}

theorem commutes_onStore {x y : Action Store α} (h : Commutes f w x y) :
    Commutes (recast f g) w (onStore x) (onStore y) := by
  intro m
  have hstore : y (recast f g m).store = _ := h m.store
  rw [onStore_apply, hstore]
  rfl

theorem map_moved_of_forall {log : List Event} (h : ∀ e ∈ log, e.moved w = e) :
    log.map (Event.moved w) = log :=
  (List.map_congr_left h).trans (List.map_id log)

theorem commutes_onStack {x : Action CallStack α} (h : Reports (fun e => e.moved w = e) x) :
    Commutes (recast f g) w (onStack x) (onStack x) := by
  intro m
  rw [onStack_apply, onStack_apply, map_moved_of_forall (h m.stack)]
  rfl

theorem commutes_onConsole {x : Action Console α} (h : Reports (fun e => e.moved w = e) x) :
    Commutes (recast f g) w (onConsole x) (onConsole x) := by
  intro m
  rw [onConsole_apply, onConsole_apply, map_moved_of_forall (h m.console)]
  rfl

theorem commutes_stop : Commutes (recast f g) w stop stop := .change fun _ => rfl

section

variable (hset : ∀ a v, Commutes f w (Store.set a v) (Store.set (w a) v))

include hset

theorem commutes_put {op : Opcode} (hop : op.hasDestination = true) (a v : Word)
    (sources : List Word) :
    Commutes (recast f g) w (put op a sources v) (put op (w a) sources v) := by
  have hevent : Event.executed op (w a :: sources) (some v) =
      (Event.executed op (a :: sources) (some v)).moved w := by
    rw [Event.moved, if_pos hop]
  unfold put
  rw [hevent]
  exact .bind (commutes_onStore (hset a v)) fun _ => .note _

/-- **An instruction that goes straight on does the same behind a change** that is not noticed where
    it writes, and where it reads. -/
theorem commutes_perform_of_goesStraight {i : Instruction} (hi : i.opcode.goesStraight = true)
    (hget : i.opcode = .rmem → ∀ s, (f s).get i.b = s.get i.b) :
    Commutes (recast f g) w (perform i) (perform (i.moved w)) := by
  obtain ⟨op, a, b, c⟩ := i
  cases op with
  | set => exact .bind (commutes_onStore (hset a b)) fun _ => .note _
  | push => exact .bind (commutes_onStack (CallStack.reports_push a)) fun _ => .note _
  | pop => exact .bind (commutes_onStack CallStack.reports_pop) fun v => commutes_put hset rfl a v []
  | eq | gt | add | mult | and | or | not => exact commutes_put hset rfl a _ _
  | mod => exact .ite (.fail _) (commutes_put hset rfl a _ _)
  | rmem =>
    exact .bind (commutes_onStore (.inspect (hget rfl))) fun v => commutes_put hset rfl a v [b]
  | out => exact .bind (commutes_onConsole (Console.reports_writeChar a rfl)) fun _ => .note _
  | inp =>
    exact .bind (commutes_onConsole (Console.reports_readChar fun _ => rfl)) fun v =>
      commutes_put hset rfl a v []
  | noop => exact .note _
  | halt | jmp | jt | jf | wmem | call | ret => cases hi

end

variable (hf : Store.Moves f w)

include hf

theorem commutes_enter (target : Word) :
    Commutes (recast f g) w (enter target) (enter target) := by
  refine .bind (.view fun m => hf.pc m.store) fun back => ?_
  refine .bind (commutes_onStack (CallStack.reports_push back)) fun _ => ?_
  exact .bind (commutes_onStore (hf.jump target)) fun _ => .note _

/-- A return goes by the rule of the machine. -/
theorem commutes_leave (hg : g = id) : Commutes (recast f g) w leave leave := by
  subst hg
  refine .bind (.view fun m => rfl) fun _ => .ite ?_ ?_
  · exact .bind commutes_stop fun _ => .note _
  · refine .bind (commutes_onStack CallStack.reports_pop) fun back => ?_
    exact .bind (commutes_onStore (hf.jump back)) fun _ => .note _

/-- **An instruction does the same behind a change**, with its destination under another name. -/
theorem commutes_perform {i : Instruction}
    (hset : i.opcode = .wmem → w i.a = i.a)
    (hget : i.opcode = .rmem → ∀ s, (f s).get i.b = s.get i.b)
    (hret : i.opcode = .ret → g = id) :
    Commutes (recast f g) w (perform i) (perform (i.moved w)) := by
  have hjump (a : Word) (op : Opcode) (operands : List Word) :
      Commutes (recast f g) w
        (onStore (Store.jump a) >>= fun _ => note (.executed op operands none))
        (onStore (Store.jump a) >>= fun _ => note ((Event.executed op operands none).moved w)) :=
    .bind (commutes_onStore (hf.jump a)) fun _ => .note _
  by_cases hi : i.opcode.goesStraight = true
  · exact commutes_perform_of_goesStraight hf.set hi hget
  obtain ⟨op, a, b, c⟩ := i
  cases op with
  | halt => exact .bind commutes_stop fun _ => .note _
  | jmp => exact hjump a .jmp [a]
  | jt => exact .ite (hjump b .jt [a, b]) (.note _)
  | jf => exact .ite (hjump b .jf [a, b]) (.note _)
  | wmem =>
    -- The place to write to is a value here, and its name is in the instruction as it is.
    have hwrite := hf.set a b
    rw [hset rfl] at hwrite
    exact .bind (commutes_onStore hwrite) fun _ => .note _
  | call => exact commutes_enter hf a
  | ret => exact commutes_leave hf (hret rfl)
  | _ => cases hi rfl

end Machine

end WordMachine
