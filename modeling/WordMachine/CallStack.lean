/-
  The stack of values that calls, returns, pushes and pops share.  It is unbounded.

  * `toList` shows the words from the bottom up;
  * `push` takes values only, `pop` gives the last word pushed.
-/
import WordMachine.Action

namespace WordMachine

/-- The words on the stack, the bottom first. -/
structure CallStack where
  words : Array Word
deriving DecidableEq, Inhabited

namespace CallStack

/-- The stack without words. -/
def empty : CallStack := ⟨#[]⟩

/-- The words on the stack, the bottom first. -/
def toList (stack : CallStack) : List Word := stack.words.toList

/-- The number of words on the stack. -/
def size (stack : CallStack) : Nat := stack.words.size

/-- Whether there is no word on the stack. -/
def isEmpty (stack : CallStack) : Bool := stack.words.isEmpty

/-- Puts a value on top. -/
def push (value : Word) : Action CallStack Unit := fun stack =>
  if value.IsValue then ⟨.ok (), ⟨stack.words.push value⟩, []⟩
  else ⟨.error (.valueRange value.toNat), stack, []⟩

/-- Takes the word on top. -/
def pop : Action CallStack Word := fun stack =>
  match stack.words.back? with
  | some value => ⟨.ok value, ⟨stack.words.pop⟩, []⟩
  | none => ⟨.error .stackUnderflow, stack, []⟩

@[simp] theorem toList_empty : empty.toList = [] := rfl

theorem length_toList (stack : CallStack) : stack.toList.length = stack.size := rfl

theorem isEmpty_iff {stack : CallStack} : stack.isEmpty = true ↔ stack.toList = [] := by
  simp [isEmpty, toList]

/-- A stack is its words. -/
theorem ext_toList {s t : CallStack} (h : s.toList = t.toList) : s = t := by
  cases s; cases t; simpa [toList] using h

theorem push_of_isValue {stack : CallStack} {v : Word} (h : v.IsValue) :
    push v stack = ⟨.ok (), ⟨(stack.toList ++ [v]).toArray⟩, []⟩ := by
  have : stack.words.push v = (stack.toList ++ [v]).toArray :=
    Array.toList_inj.mp (by simp [toList])
  simp only [push, h, if_true, this]

theorem push_of_not_isValue {stack : CallStack} {v : Word} (h : ¬ v.IsValue) :
    push v stack = ⟨.error (.valueRange v.toNat), stack, []⟩ := by
  simp [push, h]

theorem pop_of_append {stack : CallStack} {below : List Word} {v : Word}
    (h : stack.toList = below ++ [v]) : pop stack = ⟨.ok v, ⟨below.toArray⟩, []⟩ := by
  obtain rfl : stack = ⟨(below ++ [v]).toArray⟩ := ext_toList (by simpa [toList] using h)
  simp [pop]

theorem pop_of_nil {stack : CallStack} (h : stack.toList = []) :
    pop stack = ⟨.error .stackUnderflow, stack, []⟩ := by
  obtain rfl : stack = ⟨#[]⟩ := ext_toList (by simpa [toList] using h)
  rfl

end CallStack

end WordMachine
