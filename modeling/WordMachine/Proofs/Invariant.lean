/-
  Invariants: what an action keeps, whether it succeeds or faults.

  * `Action.Keeps P x`: from a state with `P` the action `x` leaves a state with `P`;
  * what neither changes the state nor ends it keeps everything, and a sequence keeps what
    both its parts keep (`Keeps.bind`);
  * `Machine.keeps_run`: what every step keeps, a run keeps.
-/
import WordMachine.Machine.Run

namespace WordMachine

namespace Action

variable {σ α β : Type} {P : σ → Prop}

/-- From a state with `P` the action leaves a state with `P`, also after a fault. -/
def Keeps (P : σ → Prop) (x : Action σ α) : Prop := ∀ s, P s → P (x s).state

namespace Keeps

theorem pure (a : α) : Keeps P (Pure.pure a : Action σ α) := fun _ h => h

theorem fail (fault : Fault) : Keeps P (Action.fail fault : Action σ α) := fun _ h => h

theorem view (f : σ → α) : Keeps P (Action.view f) := fun _ h => h

theorem inspect (f : σ → Except Fault α) : Keeps P (Action.inspect f) := fun _ h => h

theorem note (event : Event) : Keeps P (Action.note event : Action σ Unit) := fun _ h => h

theorem change {f : σ → σ} (hf : ∀ s, P s → P (f s)) : Keeps P (Action.change f) := hf

theorem bind {x : Action σ α} {f : α → Action σ β} (hx : Keeps P x) (hf : ∀ a, Keeps P (f a)) :
    Keeps P (x >>= f) := by
  intro s hs
  have hx' := hx s hs
  rcases h : x s with ⟨fault | a, s', log⟩
  · rw [bind_error h]; rwa [h] at hx'
  · rw [bind_ok h]; rw [h] at hx'; exact hf a s' hx'

/-- What an action brings about, the actions after it keep. -/
theorem state_bind {x : Action σ α} {f : α → Action σ β} {s : σ} (hx : P (x s).state)
    (hf : ∀ a, Keeps P (f a)) : P ((x >>= f) s).state := by
  rcases h : x s with ⟨fault | a, s', log⟩
  · rw [h] at hx; rw [bind_error h]; exact hx
  · rw [h] at hx; rw [bind_ok h]; exact hf a s' hx

theorem ite {c : Prop} [Decidable c] {x y : Action σ α} (hx : Keeps P x) (hy : Keeps P y) :
    Keeps P (if c then x else y) := by
  split
  · exact hx
  · exact hy

end Keeps

end Action

namespace Machine

open WordMachine.Action

/-- What every step keeps, and the flush behind the last one, a run keeps. -/
theorem keeps_run {P : Machine → Prop} (hstep : Keeps P step)
    (hfinish : ∀ outcome, Keeps P (finish outcome)) {m : Machine} (hm : P m) {fuel : Nat}
    {r : Ran Machine Unit} (hr : run fuel m = some r) : P r.state := by
  induction fuel generalizing m r with
  | zero => cases hr
  | succ fuel ih =>
    rcases hhalted : m.halted with _ | _
    · have hnext := hstep m hm
      rcases hs : step m with ⟨fault | ⟨⟨⟩⟩, m', log⟩
      · rw [run_of_fault hhalted hs] at hr
        cases hr
        rw [hs] at hnext
        exact hfinish _ _ hnext
      · rw [run_of_ok hhalted hs] at hr
        rw [hs] at hnext
        obtain ⟨r', hr', rfl⟩ := Option.map_eq_some_iff.mp hr
        have hrest : P r'.state := ih hnext hr'
        exact hrest
    · rw [run_of_halted hhalted] at hr
      cases hr
      exact hfinish _ _ hm

end Machine

end WordMachine
