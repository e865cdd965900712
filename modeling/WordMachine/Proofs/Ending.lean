/-
  How a run ends.

  A run has no bound of its own.  `Machine.Ends r` says that it ends with `r`, within some number of
  steps; a machine has at most one end (`Ends.unique`).

  * `ends_of_ok`, `ends_steps`: the end of a run is the end of what is left of it after some steps;
  * `ends_of_steps_error`, `ends_of_steps_halted`: a run ends at its first fault, or where the
    machine halts, and there is no other end (`Ends.cases`);
  * `ends_as_steps`: running to the end agrees with single stepping.
-/
import WordMachine.Proofs.Reports

namespace WordMachine

open WordMachine.Action

/-- The same, behind what was reported before. -/
def Ran.behind {σ α : Type} (log : List Event) (r : Ran σ α) : Ran σ α :=
  ⟨r.outcome, r.state, log ++ r.log⟩

@[simp] theorem Ran.behind_nil {σ α : Type} (r : Ran σ α) : r.behind [] = r := rfl

theorem Ran.behind_behind {σ α : Type} (log log' : List Event) (r : Ran σ α) :
    (r.behind log').behind log = r.behind (log ++ log') := by
  rw [behind, behind, behind, List.append_assoc]

namespace Machine

/-! ## Flushing at the end -/

variable {m m' : Machine} {n k fuel fuel' : Nat} {fault : Fault} {log : List Event}
  {r r' : Ran Machine Unit}

/-- The machine after its output was flushed. -/
def flushed (m : Machine) : Machine := { m with console := m.console.flushed }

/-- What the end of a run without a fault reports: nothing if the flush fails. -/
def endReport (m : Machine) : List Event :=
  match (Console.flush m.console).outcome with
  | .ok () => [.halted m.store.pc]
  | .error _ => []

theorem finish_error (fault : Fault) (m : Machine) :
    finish (.error fault) m = ⟨.error fault, m.flushed, []⟩ := by
  unfold finish
  rw [onConsole_apply, Console.flush_apply]
  rfl

theorem finish_ok (m : Machine) :
    finish (.ok ()) m = ⟨(Console.flush m.console).outcome, m.flushed, m.endReport⟩ := by
  unfold finish endReport
  rw [onConsole_apply, Console.flush_apply]
  rcases (Console.flush m.console).outcome with fault | ⟨⟩
  · rfl
  · rfl

/-! ## Runs that end -/

/-- The run of the machine ends with this, within some number of steps. -/
def Ends (m : Machine) (r : Ran Machine Unit) : Prop := ∃ fuel, run fuel m = some r

/-- More steps than a run needs make no difference. -/
theorem run_mono (h : run fuel m = some r) (hle : fuel ≤ fuel') : run fuel' m = some r := by
  induction fuel generalizing m r fuel' with
  | zero => cases h
  | succ fuel ih =>
    obtain ⟨spare, rfl⟩ := Nat.exists_eq_add_of_le' hle
    rcases hhalted : m.halted with _ | _
    · rcases hs : step m with ⟨fault | ⟨⟩, m', log⟩
      · rw [run_of_fault hhalted hs] at h
        rw [← h]
        exact run_of_fault hhalted hs
      · rw [run_of_ok hhalted hs] at h
        obtain ⟨r', hr', rfl⟩ := Option.map_eq_some_iff.mp h
        rw [← Nat.add_assoc, run_of_ok hhalted hs, ih hr' (Nat.le_add_left fuel spare)]
        rfl
    · rw [run_of_halted hhalted] at h
      rw [← h]
      exact run_of_halted hhalted

theorem Ends.unique (h : m.Ends r) (h' : m.Ends r') : r = r' := by
  obtain ⟨fuel, h⟩ := h
  obtain ⟨fuel', h'⟩ := h'
  exact Option.some.inj <| (run_mono h (Nat.le_max_left fuel fuel')).symm.trans
    (run_mono h' (Nat.le_max_right fuel fuel'))

theorem ends_of_halted (h : m.halted = true) : m.Ends (finish (.ok ()) m) := ⟨1, run_of_halted h⟩

theorem ends_of_fault (h : step m = ⟨.error fault, m', log⟩) :
    m.Ends ⟨.error fault, m'.flushed, log⟩ := by
  have hr : m.halted = false := by
    refine Bool.eq_false_iff.mpr fun hhalted => ?_
    rw [step_of_halted hhalted] at h
    cases h
  refine ⟨1, ?_⟩
  rw [run_of_fault hr h, finish_error, List.append_nil]

theorem ends_of_ok (h : step m = ⟨.ok (), m', log⟩) :
    m.Ends r ↔ ∃ r', m'.Ends r' ∧ r = r'.behind log := by
  rcases hhalted : m.halted with _ | _
  · constructor
    · rintro ⟨fuel, hrun⟩
      cases fuel with
      | zero => cases hrun
      | succ fuel =>
        rw [run_of_ok hhalted h] at hrun
        obtain ⟨r', hr', rfl⟩ := Option.map_eq_some_iff.mp hrun
        exact ⟨r', ⟨fuel, hr'⟩, rfl⟩
    · rintro ⟨r', ⟨fuel, hr'⟩, rfl⟩
      refine ⟨fuel + 1, ?_⟩
      rw [run_of_ok hhalted h, hr']
      rfl
  · rw [step_of_halted hhalted] at h
    cases h
    simp

/-! ## Runs and steps -/

theorem steps_of_ok (h : step m = ⟨.ok (), m', log⟩) :
    steps (n + 1) m = (steps n m').behind log := bind_ok h

theorem steps_of_fault (h : step m = ⟨.error fault, m', log⟩) :
    steps (n + 1) m = ⟨.error fault, m', log⟩ := bind_error h

theorem steps_of_halted (h : m.halted = true) (n : Nat) : steps n m = ⟨.ok (), m, []⟩ := by
  induction n with
  | zero => rfl
  | succ n ih => rw [steps_of_ok (step_of_halted h), ih, Ran.behind_nil]

/-- What a run comes to is what is left of it after some steps comes to. -/
theorem ends_steps (h : (steps n m).outcome = .ok ()) :
    m.Ends r ↔ ∃ r', (steps n m).state.Ends r' ∧ r = r'.behind (steps n m).log := by
  induction n generalizing m r with
  | zero =>
    show m.Ends r ↔ ∃ r', m.Ends r' ∧ r = r'.behind []
    simp
  | succ n ih =>
    rcases hs : step m with ⟨fault | ⟨⟩, m', log⟩
    · rw [steps_of_fault hs] at h
      cases h
    · rw [steps_of_ok hs] at h ⊢
      rw [ends_of_ok hs]
      constructor
      · rintro ⟨r₁, hr₁, rfl⟩
        obtain ⟨r₂, hr₂, rfl⟩ := (ih h).mp hr₁
        exact ⟨r₂, hr₂, Ran.behind_behind _ _ _⟩
      · rintro ⟨r₂, hr₂, rfl⟩
        exact ⟨_, (ih h).mpr ⟨r₂, hr₂, rfl⟩, (Ran.behind_behind _ _ _).symm⟩

/-- The first fault ends the run, whether or not the flush behind it fails. -/
theorem ends_of_steps_error (h : (steps k m).outcome = .error fault) :
    m.Ends ⟨.error fault, (steps k m).state.flushed, (steps k m).log⟩ := by
  induction k generalizing m with
  | zero => cases h
  | succ k ih =>
    rcases hs : step m with ⟨fault' | ⟨⟩, m', log⟩
    · rw [steps_of_fault hs] at h ⊢
      cases h
      exact ends_of_fault hs
    · rw [steps_of_ok hs] at h ⊢
      exact (ends_of_ok hs).mpr ⟨_, ih h, rfl⟩

/-- A machine that halts ends the run with what its flush comes to. -/
theorem ends_of_steps_halted (h : (steps k m).outcome = .ok ())
    (hhalted : (steps k m).state.halted = true) :
    m.Ends ⟨(Console.flush (steps k m).state.console).outcome, (steps k m).state.flushed,
      (steps k m).log ++ (steps k m).state.endReport⟩ := by
  refine (ends_steps h).mpr ⟨_, ends_of_halted hhalted, ?_⟩
  rw [finish_ok]
  rfl

/-- There are no other ends. -/
theorem Ends.cases (h : m.Ends r) :
    ∃ k, (∃ fault, (steps k m).outcome = .error fault ∧
        r = ⟨.error fault, (steps k m).state.flushed, (steps k m).log⟩) ∨
      ((steps k m).outcome = .ok () ∧ (steps k m).state.halted = true ∧
        r = ⟨(Console.flush (steps k m).state.console).outcome, (steps k m).state.flushed,
          (steps k m).log ++ (steps k m).state.endReport⟩) := by
  obtain ⟨fuel, h⟩ := h
  -- It is enough to find the last step: what a run with that step comes to is unique.
  have hends : ∃ k, (∃ fault, (steps k m).outcome = .error fault) ∨
      ((steps k m).outcome = .ok () ∧ (steps k m).state.halted = true) := by
    induction fuel generalizing m r with
    | zero => cases h
    | succ fuel ih =>
      rcases hhalted : m.halted with _ | _
      · rcases hs : step m with ⟨fault | ⟨⟩, m', log⟩
        · refine ⟨1, Or.inl ⟨fault, ?_⟩⟩
          rw [steps_of_fault hs]
        · rw [run_of_ok hhalted hs] at h
          obtain ⟨r', hr', rfl⟩ := Option.map_eq_some_iff.mp h
          obtain ⟨k, hk⟩ := ih hr'
          refine ⟨k + 1, ?_⟩
          rw [steps_of_ok hs]
          exact hk
      · exact ⟨0, Or.inr ⟨rfl, hhalted⟩⟩
  obtain ⟨k, ⟨fault, hfault⟩ | ⟨hok, hhalted⟩⟩ := hends
  · exact ⟨k, Or.inl ⟨fault, hfault, Ends.unique ⟨fuel, h⟩ (ends_of_steps_error hfault)⟩⟩
  · exact ⟨k, Or.inr ⟨hok, hhalted, Ends.unique ⟨fuel, h⟩ (ends_of_steps_halted hok hhalted)⟩⟩

/-- The end is reported where the run succeeds, and only there. -/
theorem Ends.reports_end (h : m.Ends r) : (∃ pc, .halted pc ∈ r.log) ↔ r.outcome = .ok () := by
  have hsteps {k : Nat} {pc : Word} (hmem : .halted pc ∈ (steps k m).log) : False :=
    reports_steps k m _ hmem pc rfl
  obtain ⟨k, ⟨fault, -, rfl⟩ | ⟨-, -, rfl⟩⟩ := h.cases
  · constructor
    · rintro ⟨pc, hmem⟩
      exact (hsteps hmem).elim
    · rintro ⟨⟩
  · unfold endReport
    rcases (Console.flush (steps k m).state.console).outcome with fault | ⟨⟩
    · constructor
      · rintro ⟨pc, hmem⟩
        rw [List.append_nil] at hmem
        exact (hsteps hmem).elim
      · rintro ⟨⟩
    · exact ⟨fun _ => rfl, fun _ => ⟨_, List.mem_append_right _ (List.mem_singleton_self _)⟩⟩

/-- **Running to the end agrees with single stepping.**  Steps that succeed can be taken before the
    run; the first fault ends it, whatever the flush behind it comes to; and a machine that halts
    ends it with what that flush comes to.  In every run that ends the output is flushed once
    behind the last step, and the end is reported where the run succeeds. -/
theorem ends_as_steps (m : Machine) :
    (∀ n, (steps n m).outcome = .ok () → ∀ r,
      m.Ends r ↔ ∃ r', (steps n m).state.Ends r' ∧ r = r'.behind (steps n m).log) ∧
    (∀ k fault, (steps k m).outcome = .error fault →
      m.Ends ⟨.error fault, (steps k m).state.flushed, (steps k m).log⟩) ∧
    (∀ k, (steps k m).outcome = .ok () → (steps k m).state.halted = true →
      m.Ends ⟨(Console.flush (steps k m).state.console).outcome, (steps k m).state.flushed,
        (steps k m).log ++ (steps k m).state.endReport⟩) ∧
    (∀ r, m.Ends r → (∀ r', m.Ends r' → r' = r) ∧
      (∃ k, ((steps k m).outcome = .ok () → (steps k m).state.halted = true) ∧
        r.state = (steps k m).state.flushed ∧
        r.state.console.sink.flushes = (steps k m).state.console.sink.flushes + 1) ∧
      ((∃ pc, .halted pc ∈ r.log) ↔ r.outcome = .ok ())) ∧
    (m.halted = true → ∀ n, steps n m = ⟨.ok (), m, []⟩) := by
  refine ⟨fun n h r => ends_steps h, fun k fault h => ends_of_steps_error h,
    fun k h hhalted => ends_of_steps_halted h hhalted, fun r h => ⟨fun r' h' => h'.unique h, ?_,
      h.reports_end⟩, steps_of_halted⟩
  obtain ⟨k, ⟨fault, hfault, rfl⟩ | ⟨-, hhalted, rfl⟩⟩ := h.cases
  · exact ⟨k, fun hok => absurd (hfault.symm.trans hok) nofun, rfl, rfl⟩
  · exact ⟨k, fun _ => hhalted, rfl, rfl⟩

/-- A program that halts behind a step that does nothing, and one that faults, before a flush that
    fails. -/
theorem ends_as_steps_failing_flush :
    let sink : Sink := { Sink.unlimited with flushFailure := some "full" }
    let halting := new (Store.writeBlock 0 [21, 0] .empty).state ⟨[], none⟩ sink
    let faulting := new (Store.writeBlock 0 [3, 0] .empty).state ⟨[], none⟩ sink
    halting.Ends ⟨.error (.device (.reported "full")), (steps 2 halting).state.flushed,
        [.executed .noop [] none, .executed .halt [] none]⟩ ∧
      faulting.Ends ⟨.error .stackUnderflow, (steps 1 faulting).state.flushed, []⟩ := by
  intro sink halting faulting
  have hok : (steps 2 halting).outcome = .ok () := by decide +kernel
  have hhalted : (steps 2 halting).state.halted = true := by decide +kernel
  have hfault : (steps 1 faulting).outcome = .error .stackUnderflow := by decide +kernel
  have hflush : (Console.flush (steps 2 halting).state.console).outcome =
      .error (.device (.reported "full")) := by decide +kernel
  have hlog : (steps 2 halting).log ++ (steps 2 halting).state.endReport =
      [.executed .noop [] none, .executed .halt [] none] := by decide +kernel
  have hlog' : (steps 1 faulting).log = [] := by decide +kernel
  have hends := (ends_as_steps halting).2.2.1 2 hok hhalted
  have hends' := (ends_as_steps faulting).2.1 1 _ hfault
  rw [hflush, hlog] at hends
  rw [hlog'] at hends'
  exact ⟨hends, hends'⟩

end Machine

end WordMachine
