/-
  What each instruction does.

  `perform` carries out one instruction, with its operands as they are: what is a value
  has been read through its register before.  It either succeeds and reports what it did
  last, or it faults and reports no instruction.

  * `put` writes the result of an instruction and reports it;
  * `enter`, `leave` are calls and returns.
-/
import WordMachine.Machine.Basic

namespace WordMachine

namespace Machine

open WordMachine.Action (note fail view)

/-- Reports that an instruction succeeded without a result. -/
def done (op : Opcode) (operands : List Word) : Action Machine Unit :=
  note (.executed op operands none)

/-- Writes the result of an instruction to its first operand and reports it. -/
def put (op : Opcode) (destination : Word) (sources : List Word) (result : Word) :
    Action Machine Unit := do
  onStore (Store.set destination result)
  note (.executed op (destination :: sources) (some result))

/-- Pushes the address of the next instruction and jumps. -/
def enter (target : Word) : Action Machine Unit := do
  let back ← view (·.store.pc)
  onStack (CallStack.push back)
  onStore (Store.jump target)
  done .call [target]

/-- Pops an address and jumps to it.  Without one, the rule of the machine decides. -/
def leave : Action Machine Unit := do
  if ← view fun m => m.stack.isEmpty && m.onEmptyReturn = .halts then
    stop
    note .returnedOnEmpty
  else
    let back ← onStack CallStack.pop
    onStore (Store.jump back)
    done .ret [back]

/-- Carries out an instruction. -/
def perform : Instruction → Action Machine Unit
  | ⟨.halt, _, _, _⟩ => do
    stop
    done .halt []
  | ⟨.set, a, b, _⟩ => do
    onStore (Store.set a b)
    done .set [a, b]
  | ⟨.push, a, _, _⟩ => do
    onStack (CallStack.push a)
    done .push [a]
  | ⟨.pop, a, _, _⟩ => do
    let value ← onStack CallStack.pop
    put .pop a [] value
  | ⟨.eq, a, b, c⟩ => put .eq a [b, c] (.ofBool (b == c))
  | ⟨.gt, a, b, c⟩ => put .gt a [b, c] (.ofBool (b > c))
  | ⟨.jmp, a, _, _⟩ => do
    onStore (Store.jump a)
    done .jmp [a]
  | ⟨.jt, a, b, _⟩ => do
    if a ≠ 0 then onStore (Store.jump b)
    done .jt [a, b]
  | ⟨.jf, a, b, _⟩ => do
    if a = 0 then onStore (Store.jump b)
    done .jf [a, b]
  | ⟨.add, a, b, c⟩ => put .add a [b, c] (b.add c)
  | ⟨.mult, a, b, c⟩ => put .mult a [b, c] (b.mul c)
  | ⟨.mod, a, b, c⟩ =>
    if c = 0 then fail .divisionByZero else put .mod a [b, c] (b % c)
  | ⟨.and, a, b, c⟩ => put .and a [b, c] (b &&& c)
  | ⟨.or, a, b, c⟩ => put .or a [b, c] (b ||| c)
  | ⟨.not, a, b, _⟩ => put .not a [b] b.complement
  | ⟨.rmem, a, b, _⟩ => do
    let value ← onStore (Action.inspect (·.get b))
    put .rmem a [b] value
  | ⟨.wmem, a, b, _⟩ => do
    onStore (Store.set a b)
    done .wmem [a, b]
  | ⟨.call, a, _, _⟩ => enter a
  | ⟨.ret, _, _, _⟩ => leave
  | ⟨.out, a, _, _⟩ => do
    onConsole (Console.writeChar a)
    done .out [a]
  | ⟨.inp, a, _, _⟩ => do
    let code ← onConsole Console.readChar
    put .inp a [] code
  | ⟨.noop, _, _, _⟩ => done .noop []

end Machine

end WordMachine
