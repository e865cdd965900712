/-
  What is kept while a console and a machine are watched.

  * `Devices.Sees`, `SeesAll`: what the requests of its owner make of a machine; a run may be
    watched for some of its steps only;
  * `seesAll_of_answersAll`: a machine that answers is watched while it does;
  * `Invariant`: what reads, writes and flushes keep, with the lines that were queued so far;
  * `Invariant.serve`, `Invariant.seesAll`: it is kept by whatever the owner of a console or of a
    machine asks of it.
-/
import WordMachine.Proofs.Moves
import WordMachine.Proofs.Recording

namespace WordMachine

open WordMachine.Action WordMachine.Watched

/-- The lines that a request queues. -/
def Machine.Request.queued : Machine.Request → List String
  | .queueLines lines => lines
  | _ => []

/-- The lines that are queued by requests on the way. -/
def queuedIn (qs : List Machine.Request) : List String := qs.flatMap Machine.Request.queued

namespace Devices

/-! ## What requests make of a machine -/

/-- What a request makes of the machine.  A run may be watched for some of its steps only, for it
    need not come to an end. -/
inductive Sees (d : Devices) : Machine.Request → Watched Machine → Watched Machine → Prop
  | onStore {α : Type} (x : Action Store α) (w : Watched Machine) :
    Sees d (.onStore x) w (unseen (Machine.onStore x) w).state
  | onStack {α : Type} (x : Action CallStack α) (w : Watched Machine) :
    Sees d (.onStack x) w (unseen (Machine.onStack x) w).state
  | perform (i : Instruction) (w : Watched Machine) : Sees d (.perform i) w (d.perform i w).state
  | step (w : Watched Machine) : Sees d .step w (d.step w).state
  | run (fuel : Nat) (w : Watched Machine) : Sees d .run w (d.run fuel w).state
  | queueLines (lines : List String) (w : Watched Machine) :
    Sees d (.queueLines lines) w ⟨w.state.queueLines lines, w.contacts⟩
  | withEmptyReturn (rule : EmptyReturn) (w : Watched Machine) :
    Sees d (.withEmptyReturn rule) w ⟨w.state.withEmptyReturn rule, w.contacts⟩
  | record (w : Watched Machine) : Sees d .record w ⟨w.state.record, w.contacts⟩

/-- The same for requests one after the other. -/
inductive SeesAll (d : Devices) : List Machine.Request → Watched Machine → Watched Machine → Prop
  | nil (w : Watched Machine) : SeesAll d [] w w
  | cons {q : Machine.Request} {qs : List Machine.Request} {w w' v : Watched Machine} :
    Sees d q w w' → SeesAll d qs w' v → SeesAll d (q :: qs) w v

section

variable {d : Devices} {q : Machine.Request} {qs : List Machine.Request} {w v : Watched Machine}
  {as : List Machine.Answer}

/-- A run that ends is over after some number of steps. -/
theorem Ends.exists_run {r : Ran (Watched Machine) Unit} (h : d.Ends w r) :
    ∃ fuel, d.run fuel w = r := by
  induction h with
  | halted h => exact ⟨1, by simp only [run, h, if_true]⟩
  | fault h hs => exact ⟨1, by simp only [run, h, hs, Bool.false_eq_true, if_false]⟩
  | step h hs _ ih =>
    obtain ⟨fuel, hrun⟩ := ih
    exact ⟨fuel + 1, by simp only [run, h, hs, hrun, Bool.false_eq_true, if_false]⟩

theorem Answers.sees (h : d.Answers q w as v) : d.Sees q w v := by
  cases h with
  | onStore x => exact .onStore x w
  | onStack x => exact .onStack x w
  | perform i => exact .perform i w
  | step => exact .step w
  | run h =>
    obtain ⟨fuel, rfl⟩ := h.exists_run
    exact .run fuel w
  | queueLines lines => exact .queueLines lines w
  | withEmptyReturn rule => exact .withEmptyReturn rule w
  | record => exact .record w

theorem AnswersAll.seesAll (h : d.AnswersAll qs w as v) : d.SeesAll qs w v := by
  induction h with
  | nil w => exact .nil w
  | cons hq _ ih => exact .cons hq.sees ih

/-- A machine is watched while it answers. -/
theorem seesAll_of_answersAll {m n : Machine} (h : Machine.AnswersAll qs m as n)
    (contacts : List Contact) : ∃ contacts', plain.SeesAll qs ⟨m, contacts⟩ ⟨n, contacts'⟩ := by
  obtain ⟨contacts', h⟩ := (answersAll_plain_iff contacts).mp h
  exact ⟨contacts', h.seesAll⟩

end

variable {d : Devices} {w : Watched Console}

/-! ## What everything keeps -/

/-- What reads, writes and flushes keep, and what queueing lines and recording keep, with the lines
    that were queued so far. -/
structure Invariant (d : Devices) (P : List String → Watched Console → Prop) : Prop where
  moves : ∀ lines w v, Moves d w v → P lines w → P lines v
  queueLines : ∀ lines more w, P lines w → P (lines ++ more) ⟨w.state.queueLines more, w.contacts⟩
  record : ∀ lines w, P lines w → P lines ⟨w.state.record, w.contacts⟩

namespace Invariant

variable {P : List String → Watched Console → Prop} {lines : List String}

theorem readChar (h : Invariant d P) (lines : List String) : Keeps (P lines) d.readChar :=
  fun w => h.moves lines w _ (moves_readChar d w)

theorem writeChar (h : Invariant d P) (lines : List String) (code : Word) :
    Keeps (P lines) (d.writeChar code) := fun w => h.moves lines w _ (moves_writeChar d code w)

theorem flushFor (h : Invariant d P) (lines : List String) {c : Contact} (hc : c.isCall = true) :
    Keeps (P lines) (d.flushFor c) := fun w => h.moves lines w _ (moves_flushFor d hc w)

theorem serve (h : Invariant d P) (lines : List String) {uses : List Use} (hw : P lines w) :
    P (lines ++ queuedBy uses) (d.serve uses w) := by
  induction uses generalizing lines w with
  | nil =>
    rw [queuedBy, List.append_nil]
    exact hw
  | cons u uses ih =>
    cases u with
    | read => exact ih lines (h.readChar lines w hw)
    | write code => exact ih lines (h.writeChar lines code w hw)
    | flush => exact ih lines (h.flushFor lines rfl w hw)
    | queueLines more =>
      rw [queuedBy, ← List.append_assoc]
      exact ih (lines ++ more) (h.queueLines lines more w hw)
    | record => exact ih lines (h.record lines w hw)

/-- An action that does the same beside any console leaves it alone. -/
theorem keeps_unseen {α : Type} {x : Action Machine α}
    (hx : ∀ c, Alike (Machine.Beside fun console _ => console = c) x x
      (Machine.Beside fun console _ => console = c)) :
    Keeps (fun w : Watched Machine => P lines w.console) (unseen x) := by
  intro w hw
  have hself : Machine.Beside (fun console _ => console = w.state.console) w.state w.state :=
    ⟨rfl, rfl, rfl, rfl, rfl⟩
  have hconsole : (x w.state).state.console = w.state.console :=
    (hx _ w.state w.state hself).2.2.console
  show P lines ⟨(x w.state).state.console, w.contacts⟩
  rw [hconsole]
  exact hw

theorem keeps_onConsole {α : Type} {x : Action (Watched Console) α} (hx : Keeps (P lines) x) :
    Keeps (fun w : Watched Machine => P lines w.console) (onConsole x) :=
  fun w hw => hx w.console hw

theorem perform (h : Invariant d P) (lines : List String) (i : Instruction) :
    Keeps (fun w => P lines w.console) (d.perform i) := by
  by_cases hinp : i.opcode = .inp
  · obtain ⟨op, a, b, c⟩ := i
    obtain rfl : op = .inp := hinp
    exact .bind (keeps_onConsole (h.readChar lines)) fun _ =>
      keeps_unseen fun _ => Machine.alike_put _ _ _ _
  · by_cases hout : i.opcode = .out
    · obtain ⟨op, a, b, c⟩ := i
      obtain rfl : op = .out := hout
      exact .bind (keeps_onConsole (h.writeChar lines a)) fun _ => keeps_unseen fun _ => .note _
    · rw [perform_of_ne d hinp hout]
      exact keeps_unseen fun _ => Machine.alike_perform_of_ne hinp hout

theorem step (h : Invariant d P) (lines : List String) :
    Keeps (fun w => P lines w.console) d.step :=
  .bind (.view _) fun _ => .ite (.pure _)
    (.bind (keeps_unseen fun _ => Machine.alike_onStore _) (h.perform lines))

theorem finish (h : Invariant d P) (lines : List String) (outcome : Except Fault Unit) :
    Keeps (fun w => P lines w.console) (d.finish outcome) := by
  intro w hw
  have hflush := keeps_onConsole (h.flushFor lines (rfl : Contact.ended.isCall = true)) w hw
  unfold Devices.finish
  rcases hw' : onConsole (d.flushFor .ended) w with ⟨flushed, w', log⟩
  rw [hw'] at hflush
  rcases outcome with fault | ⟨⟩
  · exact hflush
  · rcases flushed with fault | ⟨⟩
    · exact hflush
    · exact hflush

theorem run (h : Invariant d P) (lines : List String) (fuel : Nat) :
    Keeps (fun w => P lines w.console) (d.run fuel) := by
  induction fuel with
  | zero => exact .pure ()
  | succ fuel ih =>
    intro w hw
    rcases hhalted : w.state.halted with _ | _
    · have hstep := h.step lines w hw
      rcases hs : d.step w with ⟨fault | ⟨⟩, w', log⟩
      · rw [hs] at hstep
        simp only [Devices.run, hhalted, hs]
        exact h.finish lines _ w' hstep
      · rw [hs] at hstep
        simp only [Devices.run, hhalted, hs]
        exact ih w' hstep
    · simp only [Devices.run, hhalted]
      exact h.finish lines _ w hw

theorem sees (h : Invariant d P) (lines : List String) {q : Machine.Request}
    {w v : Watched Machine} (hs : d.Sees q w v) (hw : P lines w.console) :
    P (lines ++ q.queued) v.console := by
  cases hs with
  | queueLines more => exact h.queueLines lines more w.console hw
  | onStore x => exact (List.append_nil lines).symm ▸ hw
  | onStack x => exact (List.append_nil lines).symm ▸ hw
  | withEmptyReturn rule => exact (List.append_nil lines).symm ▸ hw
  | perform i => exact (List.append_nil lines).symm ▸ h.perform lines i w hw
  | step => exact (List.append_nil lines).symm ▸ h.step lines w hw
  | run fuel => exact (List.append_nil lines).symm ▸ h.run lines fuel w hw
  | record => exact (List.append_nil lines).symm ▸ h.record lines w.console hw

theorem seesAll (h : Invariant d P) (lines : List String) {qs : List Machine.Request}
    {w v : Watched Machine} (hs : d.SeesAll qs w v) (hw : P lines w.console) :
    P (lines ++ queuedIn qs) v.console := by
  induction hs generalizing lines with
  | nil w =>
    rw [queuedIn, List.flatMap_nil, List.append_nil]
    exact hw
  | @cons q qs w w' v hq _ ih =>
    rw [queuedIn, List.flatMap_cons, ← List.append_assoc]
    exact ih _ (h.sees lines hq hw)

end Invariant

end Devices

end WordMachine
