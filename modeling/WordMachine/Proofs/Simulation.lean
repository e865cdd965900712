/-
  Simulation: what an action does, seen through a projection of its states.

  * `Action.Simulates P p f x y`: on every state with `P` the action `x` and the effect `y` on its
    projection by `p` come to the same: to the same fault, or to the same value, translated by `f`,
    and to the projection of the state that `x` leaves;
  * what neither changes the state nor ends it simulates what does nothing, and a sequence
    simulates a sequence, as long as its first part keeps `P` (`Simulates.bind`).
-/
import WordMachine.Proofs.Invariant

namespace WordMachine

namespace Action

variable {σ τ α β γ δ : Type} {P : σ → Prop} {p : σ → τ} {f : α → β} {g : γ → δ}

/-- On states with `P` the action does what the effect does on their projections. -/
def Simulates (P : σ → Prop) (p : σ → τ) (f : α → β) (x : Action σ α)
    (y : StateT τ (Except Fault) β) : Prop :=
  ∀ s, P s → y (p s) = (x s).outcome.map fun a => (f a, p (x s).state)

namespace Simulates

theorem pure (a : α) : Simulates P p f (Pure.pure a) (Pure.pure (f a)) := fun _ _ => rfl

theorem fail (fault : Fault) : Simulates P p f (Action.fail fault) (throw fault) :=
  fun _ _ => rfl

/-- The second part has to do it only from what the first part can leave. -/
theorem bind_of {Q : α → Prop} {x : Action σ α} {y : StateT τ (Except Fault) β}
    {k : α → Action σ γ} {l : β → StateT τ (Except Fault) δ} (hx : Simulates P p f x y)
    (hleave : ∀ s, P s → ∀ a, (x s).outcome = .ok a → P (x s).state ∧ Q a)
    (hk : ∀ a, Q a → Simulates P p g (k a) (l (f a))) :
    Simulates P p g (x >>= k) (y >>= l) := by
  intro s hs
  have hy := hx s hs
  have hs' := hleave s hs
  show (y (p s) >>= fun r => l r.1 r.2) = _
  rw [hy]
  rcases h : x s with ⟨fault | a, s', log⟩
  · rw [bind_error h]
    rfl
  · rw [bind_ok h]
    rw [h] at hs'
    obtain ⟨hP, hQ⟩ := hs' a rfl
    exact hk a hQ s' hP

theorem bind {x : Action σ α} {y : StateT τ (Except Fault) β} {k : α → Action σ γ}
    {l : β → StateT τ (Except Fault) δ} (hx : Simulates P p f x y) (hkeep : Keeps P x)
    (hk : ∀ a, Simulates P p g (k a) (l (f a))) : Simulates P p g (x >>= k) (y >>= l) :=
  bind_of (Q := fun _ => True) hx (fun s hs _ _ => ⟨hkeep s hs, trivial⟩) fun a _ => hk a

/-- What was looked at is known to both sides. -/
theorem bind_view {v : σ → α} {k : α → Action σ γ} {l : τ → StateT τ (Except Fault) δ}
    (h : ∀ s, P s → Simulates P p g (k (v s)) (l (p s))) :
    Simulates P p g (view v >>= k) (get >>= l) := by
  intro s hs
  rw [bind_ok (view_apply v s)]
  exact h s hs s hs

/-- What is done only to be reported is not seen. -/
theorem bind_note {x : Action σ α} {y : StateT τ (Except Fault) Unit} {event : Event}
    (hx : Simulates P p (fun _ => ()) x y) :
    Simulates P p (fun _ => ()) (x >>= fun _ => note event) y := by
  intro s hs
  rw [hx s hs]
  rcases h : x s with ⟨fault | a, s', log⟩
  · rw [bind_error h]
    rfl
  · rw [bind_ok h]
    rfl

theorem ite {c d : Prop} [Decidable c] [Decidable d] {x x' : Action σ α}
    {y y' : StateT τ (Except Fault) β} (hcd : c ↔ d) (hx : Simulates P p f x y)
    (hx' : Simulates P p f x' y') :
    Simulates P p f (if c then x else x') (if d then y else y') := by
  by_cases h : c
  · rw [if_pos h, if_pos (hcd.mp h)]
    exact hx
  · rw [if_neg h, if_neg ((not_congr hcd).mp h)]
    exact hx'

end Simulates

end Action

end WordMachine
