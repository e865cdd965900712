/-
  The machine: a store, a stack and a console, and whether it has stopped.

  * `new` is a machine at the program counter of its store;
  * `onStore`, `onStack` and `onConsole` lift what the parts do to the machine.
-/
import WordMachine.CallStack
import WordMachine.Console
import WordMachine.Store.Image

namespace WordMachine

/-- What a return does when there is nothing to return to. -/
inductive EmptyReturn where
  /-- It ends the program. -/
  | halts
  /-- It is a fault, as popping is. -/
  | faults
deriving DecidableEq, Repr, Inhabited

/-- The whole state of a run. -/
structure Machine where
  store : Store
  stack : CallStack
  console : Console
  halted : Bool
  onEmptyReturn : EmptyReturn
deriving DecidableEq, Inhabited

namespace Machine

variable {α : Type}

/-- A machine that is about to run the program of a store. -/
def new (store : Store) (source : Source) (sink : Sink) : Machine :=
  ⟨store, .empty, .new source sink, false, .halts⟩

/-- An action on the store. -/
@[inline] def onStore (x : Action Store α) : Action Machine α :=
  x.zoom fun ⟨store, stack, console, halted, onEmptyReturn⟩ =>
    (store, fun store => ⟨store, stack, console, halted, onEmptyReturn⟩)

/-- An action on the stack. -/
@[inline] def onStack (x : Action CallStack α) : Action Machine α :=
  x.zoom fun ⟨store, stack, console, halted, onEmptyReturn⟩ =>
    (stack, fun stack => ⟨store, stack, console, halted, onEmptyReturn⟩)

/-- An action on the console. -/
@[inline] def onConsole (x : Action Console α) : Action Machine α :=
  x.zoom fun ⟨store, stack, console, halted, onEmptyReturn⟩ =>
    (console, fun console => ⟨store, stack, console, halted, onEmptyReturn⟩)

/-- Stops the machine. -/
def stop : Action Machine Unit := Action.change fun m => { m with halted := true }

/-! ## Setting up -/

/-- The machine with another rule for returns from nothing. -/
def withEmptyReturn (rule : EmptyReturn) (m : Machine) : Machine :=
  { m with onEmptyReturn := rule }

/-- The machine with lines queued before its input. -/
def queueLines (lines : List String) : Machine → Machine
  | ⟨store, stack, console, halted, rule⟩ =>
    ⟨store, stack, console.queueLines lines, halted, rule⟩

/-- The machine that keeps a transcript. -/
def record : Machine → Machine
  | ⟨store, stack, console, halted, rule⟩ => ⟨store, stack, console.record, halted, rule⟩

/-- The bytes written so far. -/
def output (m : Machine) : Array UInt8 := m.console.sink.written

/-! ## What the lifts do -/

@[simp] theorem onStore_apply (x : Action Store α) (m : Machine) :
    onStore x m =
      ⟨(x m.store).outcome, { m with store := (x m.store).state }, (x m.store).log⟩ := rfl

@[simp] theorem onStack_apply (x : Action CallStack α) (m : Machine) :
    onStack x m =
      ⟨(x m.stack).outcome, { m with stack := (x m.stack).state }, (x m.stack).log⟩ := rfl

@[simp] theorem onConsole_apply (x : Action Console α) (m : Machine) :
    onConsole x m =
      ⟨(x m.console).outcome, { m with console := (x m.console).state },
        (x m.console).log⟩ := rfl

@[simp] theorem stop_apply (m : Machine) : stop m = ⟨.ok (), { m with halted := true }, []⟩ :=
  rfl

end Machine

end WordMachine
