/-
  Reachable machines: what the owner of a machine can make of it.

  * `Operation` is what the owner can ask for, with any arguments: of the store, of the stack,
    of the whole machine, one instruction or one step;
  * `Machine.Reachable`: the machines that operations and runs lead to from a new machine, where
    an operation that faults leaves a machine to go on with as well;
  * `Reachable.wellFormed`: they are well-formed;
  * `reachable_wellFormed_and_guarded`: and none of their operations leaves its domain.
-/
import WordMachine.Proofs.Guarded
import WordMachine.Proofs.WellFormed

namespace WordMachine

open WordMachine.Action WordMachine.Machine

/-! ## Operations -/

/-- An operation on a machine, with its arguments. -/
inductive Operation where
  | get (address : Word)
  | getRegister (index : Nat)
  | dereference (w : Word)
  | set (address value : Word)
  | setRegister (index : Nat) (value : Word)
  | jump (address : Word)
  | takeWord (operand : Operand)
  | writeBlock (position : Word) (words : List Word)
  | loadImage (image : List UInt8) (base : Word)
  | push (value : Word)
  | pop
  | withEmptyReturn (rule : EmptyReturn)
  | queueLines (lines : List String)
  | record
  | perform (i : Instruction)
  | step

namespace Operation

/-- What the machine does.  The value, if it has one, is of no matter here. -/
def action : Operation → Action Machine Unit
  | get address => discard (onStore (.inspect (·.get address)))
  | getRegister index => discard (onStore (.inspect (·.getRegister index)))
  | dereference w => discard (onStore (.view (·.dereference w)))
  | set address value => onStore (Store.set address value)
  | setRegister index value => onStore (Store.setRegister index value)
  | jump address => onStore (Store.jump address)
  | takeWord operand => discard (onStore (Store.takeWord operand))
  | writeBlock position words => onStore (Store.writeBlock position words)
  | loadImage image base => onStore (Store.loadImage image base)
  | push value => onStack (CallStack.push value)
  | pop => discard (onStack CallStack.pop)
  | withEmptyReturn rule => .change (Machine.withEmptyReturn rule)
  | queueLines lines => .change (Machine.queueLines lines)
  | record => .change Machine.record
  | perform i => Machine.perform i
  | step => Machine.step

/-- The same with every domain checked.  What uses nothing that has a domain is as it is. -/
def guarded : Operation → Guarded Machine Unit
  | get address => discard (Guarded.onStore (Guarded.get address))
  | getRegister index => discard (Guarded.onStore (Guarded.getRegister index))
  | dereference w => discard (Guarded.onStore (Guarded.dereference w))
  | set address value => Guarded.onStore (Guarded.set address value)
  | setRegister index value => Guarded.onStore (Guarded.setRegister index value)
  | takeWord operand => discard (Guarded.onStore (Guarded.takeWord operand))
  | writeBlock position words => Guarded.onStore (Guarded.writeBlock position words)
  | loadImage image base => Guarded.onStore (Guarded.loadImage image base)
  | perform i => Guarded.perform i
  | step => Guarded.step
  | o => Guarded.ofAction o.action

theorem guarded_eq (o : Operation) : o.guarded = Guarded.ofAction o.action := by
  have hdiscard {α : Type} (x : Action Machine α) :
      discard (Guarded.ofAction x) = Guarded.ofAction (discard x) :=
    (Guarded.ofAction_bind x fun _ => pure ()).symm
  cases o with
  | get => simp only [guarded, action, Guarded.get_eq, Guarded.onStore_eq, hdiscard]
  | getRegister =>
    simp only [guarded, action, Guarded.getRegister_eq, Guarded.onStore_eq, hdiscard]
  | dereference =>
    simp only [guarded, action, Guarded.dereference_eq, Guarded.onStore_eq, hdiscard]
  | set => simp only [guarded, action, Guarded.set_eq, Guarded.onStore_eq]
  | setRegister => simp only [guarded, action, Guarded.setRegister_eq, Guarded.onStore_eq]
  | takeWord => simp only [guarded, action, Guarded.takeWord_eq, Guarded.onStore_eq, hdiscard]
  | writeBlock => simp only [guarded, action, Guarded.writeBlock_eq, Guarded.onStore_eq]
  | loadImage => simp only [guarded, action, Guarded.loadImage_eq, Guarded.onStore_eq]
  | perform i => exact Guarded.perform_eq i
  | step => exact Guarded.step_eq
  | jump | push | pop | withEmptyReturn | queueLines | record => rfl

theorem keeps_action (o : Operation) : Keeps WellFormed o.action := by
  have hdiscard {α : Type} {x : Action Machine α} (hx : Keeps WellFormed x) :
      Keeps WellFormed (discard x) :=
    .bind hx fun _ => .pure _
  cases o with
  | get | getRegister => exact hdiscard (keeps_onStore (.inspect _))
  | dereference => exact hdiscard (keeps_onStore (.view _))
  | set => exact keeps_onStore (Store.keeps_set _ _)
  | setRegister => exact keeps_onStore (Store.keeps_setRegister _ _)
  | jump => exact keeps_onStore (Store.keeps_jump _)
  | takeWord => exact hdiscard (keeps_onStore (Store.keeps_takeWord _))
  | writeBlock => exact keeps_onStore (Store.keeps_writeBlock _ _)
  | loadImage => exact keeps_onStore (Store.keeps_loadImage _ _)
  | push => exact keeps_onStack (CallStack.keeps_push _)
  | pop => exact hdiscard (keeps_onStack CallStack.keeps_pop)
  | withEmptyReturn | queueLines | record => exact .change fun m h => ⟨h.store, h.stack⟩
  | perform i => exact keeps_perform i
  | step => exact keeps_step

end Operation

/-! ## Reachable machines -/

/-- The machines that a new machine can become.  An operation or a run that ends in a fault
    leaves a machine behind as well. -/
inductive Machine.Reachable : Machine → Prop
  | new (source : Source) (sink : Sink) : Reachable (.new .empty source sink)
  | operation {m : Machine} (o : Operation) : Reachable m → Reachable (o.action m).state
  | run {m : Machine} {fuel : Nat} {r : Ran Machine Unit} :
      Reachable m → run fuel m = some r → Reachable r.state

theorem Machine.Reachable.wellFormed {m : Machine} (h : m.Reachable) : m.WellFormed := by
  induction h with
  | new source sink => exact wellFormed_new source sink
  | operation o _ ih => exact o.keeps_action _ ih
  | run _ hr ih => exact ih.run hr

/-- **Reachable machines are well-formed, and their operations stay within their domains.**  A
    new machine is well-formed.  So is every machine that operations and runs lead to, and there
    each operation, and each run as far as it goes, does the same with every domain checked. -/
theorem reachable_wellFormed_and_guarded :
    (∀ source sink, (Machine.new .empty source sink).WellFormed) ∧
      ∀ m : Machine, m.Reachable →
        m.WellFormed ∧ (∀ o : Operation, o.guarded m = some (o.action m)) ∧
          ∀ fuel, Guarded.run fuel m = some (Machine.run fuel m) :=
  ⟨wellFormed_new, fun m h => ⟨h.wellFormed, fun o => congrFun o.guarded_eq m,
    fun fuel => Guarded.run_eq fuel m⟩⟩

/-- A machine that was told to pop into a register from an empty stack. -/
theorem reachable_wellFormed_and_guarded_after_fault :
    let m := (Operation.step.action ((Operation.writeBlock 0 [3, 32768]).action
      (.new .empty ⟨[], none⟩ .unlimited)).state).state
    m.Reachable ∧ m.WellFormed ∧ (∀ o : Operation, o.guarded m = some (o.action m)) ∧
      ∀ fuel, Guarded.run fuel m = some (Machine.run fuel m) := by
  intro m
  have hm : m.Reachable := .operation .step (.operation (.writeBlock 0 [3, 32768]) (.new _ _))
  exact ⟨hm, reachable_wellFormed_and_guarded.2 m hm⟩

end WordMachine
