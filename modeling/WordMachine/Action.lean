/-
  Actions: what an operation does to a state.

  An operation on a state of type `σ` may fail, and it may report events.  Either way
  it leaves a state behind: what was done before a fault stays done, and what was
  reported stays reported.

  * `Action σ α` takes a state to the outcome, the state left behind and the log;
  * `bind` runs a second action on the state that the first one left, and puts the logs
    one after the other; a fault skips what follows (`bind_ok`, `bind_error`), and the
    laws of a monad hold;
  * `zoom` lifts an action on a part of a state to the whole.
-/
import WordMachine.Event

namespace WordMachine

/-- What an action leaves behind. -/
structure Ran (σ α : Type) where
  /-- The value produced, or the fault that stopped the action. -/
  outcome : Except Fault α
  /-- The state at the end, also after a fault. -/
  state : σ
  /-- What was reported, in order. -/
  log : List Event

/-- An operation on a state. -/
def Action (σ α : Type) : Type := σ → Ran σ α

namespace Action

variable {σ τ α β : Type}

/-! ## Building actions -/

/-- Does nothing and produces a value. -/
@[inline] protected def pure (a : α) : Action σ α := fun s => ⟨.ok a, s, []⟩

/-- Runs one action, then the next on what it left, unless there was a fault. -/
@[inline] protected def bind (x : Action σ α) (f : α → Action σ β) : Action σ β := fun s =>
  match x s with
  | ⟨.ok a, s', log⟩ =>
    match f a s' with
    | ⟨outcome, s'', log'⟩ => ⟨outcome, s'', log ++ log'⟩
  | ⟨.error fault, s', log⟩ => ⟨.error fault, s', log⟩

@[always_inline] instance : Monad (Action σ) where
  pure := Action.pure
  bind := Action.bind

/-- Stops with a fault. -/
@[inline] def fail (fault : Fault) : Action σ α := fun s => ⟨.error fault, s, []⟩

/-- Looks at the state. -/
@[inline] def view (f : σ → α) : Action σ α := fun s => ⟨.ok (f s), s, []⟩

/-- Looks at the state and stops if that is a fault. -/
@[inline] def inspect (f : σ → Except Fault α) : Action σ α := fun s => ⟨f s, s, []⟩

/-- Changes the state. -/
@[inline] def change (f : σ → σ) : Action σ Unit := fun s => ⟨.ok (), f s, []⟩

/-- Reports an event. -/
@[inline] def note (event : Event) : Action σ Unit := fun s => ⟨.ok (), s, [event]⟩

/-! ## The laws -/

@[simp] theorem pure_apply (a : α) (s : σ) : (pure a : Action σ α) s = ⟨.ok a, s, []⟩ := rfl

@[simp] theorem fail_apply (fault : Fault) (s : σ) :
    (fail fault : Action σ α) s = ⟨.error fault, s, []⟩ := rfl

@[simp] theorem view_apply (f : σ → α) (s : σ) : view f s = ⟨.ok (f s), s, []⟩ := rfl

@[simp] theorem inspect_apply (f : σ → Except Fault α) (s : σ) :
    inspect f s = ⟨f s, s, []⟩ := rfl

@[simp] theorem change_apply (f : σ → σ) (s : σ) : change f s = ⟨.ok (), f s, []⟩ := rfl

@[simp] theorem note_apply (event : Event) (s : σ) :
    note event s = ⟨.ok (), s, [event]⟩ := rfl

/-- After a success the next action runs on the state left behind, and the logs are put
    one after the other. -/
theorem bind_ok {x : Action σ α} {f : α → Action σ β} {s s' : σ} {a : α} {log : List Event}
    (h : x s = ⟨.ok a, s', log⟩) :
    (x >>= f) s = ⟨(f a s').outcome, (f a s').state, log ++ (f a s').log⟩ := by
  show Action.bind x f s = _
  simp only [Action.bind, h]

/-- A fault skips what follows. -/
theorem bind_error {x : Action σ α} {f : α → Action σ β} {s s' : σ} {fault : Fault}
    {log : List Event} (h : x s = ⟨.error fault, s', log⟩) :
    (x >>= f) s = ⟨.error fault, s', log⟩ := by
  show Action.bind x f s = _
  simp only [Action.bind, h]

theorem bind_apply (x : Action σ α) (f : α → Action σ β) (s : σ) :
    (x >>= f) s =
      match (x s).outcome with
      | .ok a => ⟨(f a (x s).state).outcome, (f a (x s).state).state,
          (x s).log ++ (f a (x s).state).log⟩
      | .error fault => ⟨.error fault, (x s).state, (x s).log⟩ := by
  rcases h : x s with ⟨fault | a, s', log⟩
  · exact bind_error h
  · exact bind_ok h

protected theorem bind_pure (x : Action σ α) : (x >>= pure) = x := by
  funext s
  rcases h : x s with ⟨fault | a, s', log⟩
  · exact bind_error h
  · rw [bind_ok h]; simp

protected theorem pure_bind (a : α) (f : α → Action σ β) : (pure a >>= f) = f a := by
  funext s
  rw [bind_ok (pure_apply a s)]; simp

protected theorem bind_assoc (x : Action σ α) (f : α → Action σ β) (g : β → Action σ τ) :
    (x >>= f >>= g) = x >>= fun a => f a >>= g := by
  funext s
  rcases h : x s with ⟨fault | a, s', log⟩
  · rw [bind_error (bind_error h), bind_error h]
  · rw [bind_ok h]
    rcases h' : f a s' with ⟨fault | b, s'', log'⟩
    · rw [bind_error ((bind_ok h).trans (by rw [h'])), bind_error h']
    · rw [bind_ok ((bind_ok h).trans (by rw [h'])), bind_ok h', List.append_assoc]

instance : LawfulMonad (Action σ) :=
  LawfulMonad.mk' (Action σ) (fun x => Action.bind_pure x) (fun a f => Action.pure_bind a f)
    (fun x f g => Action.bind_assoc x f g)

/-! ## Parts of a state -/

/-- Runs an action on a part of a state, which `split` takes out and hands over
    together with the way to put it back. -/
@[inline] def zoom (split : τ → σ × (σ → τ)) (x : Action σ α) : Action τ α := fun t =>
  match split t with
  | (part, restore) =>
    match x part with
    | ⟨outcome, part', log⟩ => ⟨outcome, restore part', log⟩

end Action

end WordMachine
